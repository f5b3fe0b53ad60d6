import ConfigTree.Proofs.Edit.Frame
import ConfigTree.Proofs.Edit.Resolution

/-! Edits of existing nodes apart from each other commute.  Setting and merging at a place that is
occupied change what stands there and nothing else, and changes whose walks part somewhere can be
made in either order. -/

namespace ConfigTree.Node

theorem SameStep.symm {s t : String} {n : Node} (h : SameStep s t n) : SameStep t s n := by
  cases n with
  | array items => exact Eq.symm h
  | object o => exact Eq.symm h
  | _ => exact h

/-! ## Changes -/

/-- A change of what stands under a step: of the member of an object, or of the item of an array. -/
structure Change where
  member : Member Node → Member Node
  item : Node → Node

namespace Change

/-- Changes what stands under `s`, if there is anything. -/
def under (c : Change) (s : String) : Node → Node
  | array items => match index? s with
    | some i => array (items.modify i c.item)
    | none => array items
  | object o => object (o.modify s c.member)
  | n => n

/-- A change of the node that a step leads to, which of a repeated key is the first value. -/
def ofChild (f : Node → Node) : Change where
  member m := m.first?.elim m fun n => m.setFirst (f n)
  item := f

def put (value : Node) : Change := ⟨fun _ => .single value, fun _ => value⟩

def below (c : Change) : List String → Change
  | [] => c
  | s :: ss => ofChild ((c.below ss).under s)

/-- The change at the end of a walk. -/
def along (c : Change) : List String → Node → Node
  | [] => id
  | s :: ss => (c.below ss).under s

theorem below_of_ne_nil (c : Change) {segments : List String} (h : segments ≠ []) :
    c.below segments = ofChild (c.along segments) := by
  cases segments with
  | nil => exact absurd rfl h
  | cons s ss => rfl

section

variable {c c' : Change} {s t : String} {n child child' : Node} {f g : Node → Node}

theorem under_of_sameStep (h : SameStep s t n) : c.under t n = c.under s n := by
  cases n with
  | array items =>
    have hindex : index? s = index? t := h
    simp only [under, hindex]
  | object o =>
    have hkey : s = t := h
    rw [hkey]
  | _ => rfl

theorem modify_eq_set {items : List Node} {i : Nat} (h : items[i]? = some child) :
    items.modify i f = items.set i (f child) := by
  refine List.ext_getElem? fun j => ?_
  rw [List.getElem?_modify, List.getElem?_set]
  by_cases hj : i = j
  · subst hj
    obtain ⟨hlt, hitem⟩ := List.getElem?_eq_some_iff.1 h
    simp [hlt, hitem]
  · simp [hj]

theorem under_eq_putChild (h : n.child? s = some child) (hitem : c.item child = child')
    (hmember : ∀ m : Member Node, m.first? = some child → c.member m = m.setFirst child') :
    c.under s n = n.putChild s child' := by
  cases n with
  | array items =>
    obtain ⟨i, hi, hc⟩ := child?_array h
    simp only [under, putChild, hi, modify_eq_set hc, hitem]
  | object o =>
    obtain ⟨m, hm, hfirst⟩ := Option.bind_eq_some_iff.1 h
    refine congrArg object (Multimap.modify_congr fun m' hm' => ?_)
    cases Option.some.inj (hm.symm.trans hm')
    exact hmember m hfirst
  | _ => cases h

theorem under_ofChild (h : n.child? s = some child) :
    (ofChild f).under s n = n.putChild s (f child) :=
  under_eq_putChild h rfl fun m hfirst => by simp only [ofChild, hfirst, Option.elim_some]

theorem under_ofChild_ofChild (hsame : SameStep s t n) (h : n.child? s = some child) :
    (ofChild f).under s ((ofChild g).under t n) = (ofChild (f ∘ g)).under s n := by
  rw [under_of_sameStep hsame, under_ofChild h, under_ofChild (child?_putChild h _),
    putChild_putChild, under_ofChild h, Function.comp_apply]

theorem under_comm (h : Parts s t n) : c.under s (c'.under t n) = c'.under t (c.under s n) := by
  cases n with
  | array items =>
    obtain ⟨j, -, ht, hs⟩ := h
    cases hi : index? s with
    | none => simp only [under, hi, ht]
    | some i =>
      have hij : j ≠ i := fun he => hs (he ▸ hi)
      simp only [under, hi, ht, List.modify_modify_ne _ _ _ hij]
  | object o => exact congrArg object (Multimap.modify_comm h o ..)
  | _ => rfl

theorem along_comm {segments others : List String} (h : Diverges Parts n segments others) :
    c.along segments (c'.along others n) = c'.along others (c.along segments n) := by
  induction h with
  | last h => exact under_comm h
  | here _ h => exact under_comm h
  -- Both walks take the same step, so either change is one of the same child.
  | @deeper n child s t ss ts hsame hchild h ih =>
    have hss : ss ≠ [] := by
      rintro rfl
      cases h
    have hts : ts ≠ [] := by
      rintro rfl
      cases h
    rw [along, along, below_of_ne_nil c hss, below_of_ne_nil c' hts]
    have hcomm : (ofChild (c.along ss ∘ c'.along ts)).under s n =
        (ofChild (c'.along ts ∘ c.along ss)).under s n := by
      rw [under_ofChild hchild, under_ofChild hchild, Function.comp_apply, Function.comp_apply, ih]
    rw [under_ofChild_ofChild hsame hchild, hcomm, ← under_of_sameStep hsame,
      under_ofChild_ofChild (SameStep.symm hsame) (hsame.child?.trans hchild)]

end

end Change

/-! ## Places -/

/-- A step from a node to a child: to the first value under a key, or to an item. -/
inductive Step
  | key (key : String)
  | item (i : Nat)
  deriving DecidableEq, Repr

/-- The step a fragment takes to a child that exists. -/
def step (s : String) : Node → Step
  | array _ => .item ((index? s).getD 0)
  | _ => .key s

/-- Where in a tree the node stands that the segments lead to. -/
def placeOf? : List String → Node → Option (List Step)
  | [], _ => some []
  | s :: ss, n => (n.child? s).bind fun child => (child.placeOf? ss).map (n.step s :: ·)

/-- Two paths name nodes of which neither is the other nor lies inside it. -/
def Apart (d : Char) (p q : String) (root : Node) : Prop :=
  ∃ P Q, root.placeOf? (Path.segments d p) = some P ∧ root.placeOf? (Path.segments d q) = some Q ∧
    ¬ P <+: Q ∧ ¬ Q <+: P

section

variable {n child child' : Node} {s t : String}

theorem Apart.symm {d : Char} {p q : String} (h : n.Apart d p q) : n.Apart d q p := by
  obtain ⟨P, Q, hP, hQ, hPQ, hQP⟩ := h
  exact ⟨Q, P, hQ, hP, hQP, hPQ⟩

theorem sameStep_of_step (hs : n.child? s = some child) (ht : n.child? t = some child')
    (h : n.step s = n.step t) : SameStep s t n := by
  cases n with
  | array items =>
    obtain ⟨i, hi, -⟩ := child?_array hs
    obtain ⟨j, hj, -⟩ := child?_array ht
    simp only [step, hi, hj, Option.getD_some, Step.item.injEq] at h
    exact hi.trans ((congrArg some h).trans hj.symm)
  | object o => exact Step.key.inj h
  | _ => cases hs

theorem parts_of_step (hs : n.child? s = some child) (ht : n.child? t = some child')
    (h : n.step s ≠ n.step t) : Parts s t n := by
  cases n with
  | array items =>
    obtain ⟨i, hi, -⟩ := child?_array hs
    obtain ⟨j, hj, hitem⟩ := child?_array ht
    simp only [step, hi, hj, Option.getD_some, ne_eq, Step.item.injEq] at h
    refine ⟨j, (List.getElem?_eq_some_iff.1 hitem).1, hj, fun hsame => h ?_⟩
    exact Option.some.inj (hi.symm.trans hsame)
  | object o => exact fun he => h (congrArg Step.key he)
  | _ => cases hs

theorem diverges_of_places {ss ts : List String} {P Q : List Step} (hP : n.placeOf? ss = some P)
    (hQ : n.placeOf? ts = some Q) (hPQ : ¬ P <+: Q) (hQP : ¬ Q <+: P) :
    Diverges Parts n ss ts := by
  induction ss generalizing n ts P Q with
  | nil =>
    cases hP
    exact absurd List.nil_prefix hPQ
  | cons s ss ih =>
    cases ts with
    | nil =>
      cases hQ
      exact absurd List.nil_prefix hQP
    | cons t ts =>
      obtain ⟨child, hs, hP⟩ := Option.bind_eq_some_iff.1 hP
      obtain ⟨P', hP', rfl⟩ := Option.map_eq_some_iff.1 hP
      obtain ⟨child', ht, hQ⟩ := Option.bind_eq_some_iff.1 hQ
      obtain ⟨Q', hQ', rfl⟩ := Option.map_eq_some_iff.1 hQ
      -- The fragments may differ in their text and yet take the same step.
      by_cases h : n.step s = n.step t
      · have hsame := sameStep_of_step hs ht h
        cases Option.some.inj (hs.symm.trans (hsame.child?.symm.trans ht))
        rw [h, List.prefix_cons_inj] at hPQ hQP
        exact .deeper hsame hs (ih hP' hQ' hPQ hQP)
      · have hparts := parts_of_step hs ht h
        cases ss with
        | nil => exact .last hparts
        | cons => exact .here (List.cons_ne_nil _ _) hparts

theorem diverges_of_apart {d : Char} {p q : String} (h : n.Apart d p q) :
    Diverges Parts n (Path.segments d p) (Path.segments d q) := by
  obtain ⟨P, Q, hP, hQ, hPQ, hQP⟩ := h
  exact diverges_of_places hP hQ hPQ hQP

end

/-! ## Writes -/

/-- Putting a value in the place of a node, or merging one into the node. -/
inductive Write
  | set (value : Node)
  | merge (value : Node)

namespace Write

def run (limit : Nat) (d : Char) (path : String) (root : Node) : Write → Edited Node
  | set value => root.set d path value
  | merge value => root.merge limit d path value

def Fits (limit : Nat) : Write → Prop
  | set _ => True
  | merge value => value.depth ≤ limit

/-- What a write does to the node that it finds. -/
def change (limit : Nat) : Write → Change
  | set value => .put value
  | merge value =>
    { member m := m.first?.elim m fun child => match combine limit child value with
        | .merged result => m.setFirst result.value
        | .leftOver value => m.push value
      item child := match combine limit child value with
        | .merged result => result.value
        | .leftOver value => value }

end Write

/-- A path names a node that exists and is not the root. -/
def Occupied (d : Char) (path : String) (root : Node) : Prop :=
  ∃ location, root.locate? d path = some location ∧ location.isOccupied = true

theorem occupied_iff {d : Char} {path : String} {root : Node} :
    root.Occupied d path ↔
      (Path.cut d path).isRoot = false ∧ ∃ n, root.lookup? d path = some n := by
  refine ⟨fun ⟨location, hlocation, ho⟩ => (isOccupied_iff hlocation).1 ho, fun h => ?_⟩
  obtain ⟨n, hn⟩ := h.2
  rw [lookup?_eq_bind_child? h.1] at hn
  obtain ⟨parent, hparent, -⟩ := Option.bind_eq_some_iff.1 hn
  obtain ⟨location, hlocation⟩ : ∃ location, root.locate? d path = some location := by
    rw [locate?, hparent]
    exact ⟨_, rfl⟩
  exact ⟨location, hlocation, (isOccupied_iff hlocation).2 h⟩

section

variable {limit : Nat} {path s : String} {value parent child : Node} {location : Location}

theorem attach_of_child (hs : location.cut.fragment = s) (ho : location.isOccupied = true)
    (h : parent.child? s = some child) :
    attach location path value parent = .done ((Change.put value).under s parent) := by
  subst hs
  cases parent with
  | array items =>
    obtain ⟨i, hi, hitem⟩ := child?_array h
    have hlt : i < items.length := (List.getElem?_eq_some_iff.1 hitem).1
    simp only [attach, hi, ho, hlt, decide_true, Bool.and_self, if_true, Change.put,
      Change.under, Change.modify_eq_set hitem]
  | object o =>
    simp only [attach, Multimap.insert_of_mem (Multimap.mem_keys_of_get? h)]
    rfl
  | _ => cases h

theorem mergeChild_of_child (hs : location.cut.fragment = s) (ho : location.isOccupied = true)
    (h : parent.child? s = some child) (hfits : value.depth ≤ limit) :
    mergeChild limit location path value parent =
      .done (((Write.merge value).change limit).under s parent) := by
  subst hs
  cases hcombine : combine limit child value with
  | merged result =>
    have hfailure : result.failure = none := by
      cases hf : result.failure with
      | none => rfl
      | some e => exact absurd (failure_combine hcombine hf).2 (Nat.not_lt.2 hfits)
    have hunder : ((Write.merge value).change limit).under location.cut.fragment parent =
        parent.putChild location.cut.fragment result.value :=
      Change.under_eq_putChild h (by simp only [Write.change, hcombine])
        fun m hm => by simp only [Write.change, hm, Option.elim_some, hcombine]
    simp only [mergeChild, h, hcombine, Edited.map, hfailure, hunder]
    rfl
  | leftOver left =>
    simp only [mergeChild, h, hcombine]
    cases parent with
    | array items =>
      obtain ⟨i, hi, hitem⟩ := child?_array h
      simp only [keepBoth, attach_of_child rfl ho h, Write.change, Change.put, Change.under, hi,
        Change.modify_eq_set hitem, hcombine]
    | object o =>
      obtain ⟨m, hm, hfirst⟩ := Option.bind_eq_some_iff.1 h
      refine congrArg (Edited.done ∘ object) (Multimap.modify_congr fun m' hm' => ?_)
      cases Option.some.inj (hm.symm.trans hm')
      simp only [Write.change, hfirst, Option.elim_some, hcombine]
    | _ => cases h

end

section

variable {limit : Nat} {d : Char} {path s : String} {root parent : Node} {w : Write}
  {f : Node → Edited Node} {c : Change}

theorem update?_along {segments : List String} {n : Node}
    (hparent : n.follow? segments = some parent)
    (hf : f parent = .done (c.under s parent)) :
    n.update? (fun parent => ((f parent).value, (f parent).failure)) segments =
      some (c.along (segments ++ [s]) n, none) := by
  induction segments generalizing n with
  | nil =>
    cases hparent
    rw [update?, hf]
    rfl
  | cons u us ih =>
    obtain ⟨next, hnext, hparent⟩ := Option.bind_eq_some_iff.1 hparent
    rw [update?, updateChild?, hnext, Option.bind_some, ih hparent, Option.map_some,
      List.cons_append, Change.along, Change.below_of_ne_nil c (by simp),
      Change.under_ofChild hnext]

theorem editParent_along (hroot : (Path.cut d path).isRoot = false)
    (hparent : root.parentOf? d path = some parent)
    (hf : f parent = .done (c.under (Path.cut d path).fragment parent)) :
    root.editParent d path f = .done (c.along (Path.segments d path) root) := by
  rw [parentOf?_eq_follow?] at hparent
  have hsegments := Path.segments_eq_of_cut hroot
  -- Comparing segments must not unfold the cut of the path.
  generalize (Path.cut d path).fragment = fragment at hsegments hf
  rw [editParent, updateParentOf?_eq_update?, update?_along hparent hf, hsegments]
  rfl

theorem Write.framed (hdone : (w.run limit d path root).failure = none) :
    Framed Parts withKey d path root (w.run limit d path root).value := by
  cases w with
  | set value =>
    rw [run] at hdone ⊢
    exact framed_set hdone
  | merge value =>
    rw [run] at hdone ⊢
    exact framed_merge hdone

/-- A write at an existing node is done, and changes what stands there. -/
theorem Write.run_of_occupied (h : root.Occupied d path) (hfits : w.Fits limit) :
    w.run limit d path root = .done ((w.change limit).along (Path.segments d path) root) := by
  obtain ⟨hroot, n, hn⟩ := occupied_iff.1 h
  obtain ⟨location, hlocation, ho⟩ := h
  have hcut := cut_of_locate? hlocation
  rw [lookup?_eq_bind_child? hroot] at hn
  obtain ⟨parent, hparent, hchild⟩ := Option.bind_eq_some_iff.1 hn
  have hfragment : location.cut.fragment = (Path.cut d path).fragment := congrArg _ hcut
  cases w with
  | set value =>
    unfold run Node.set
    simp only [hlocation, hcut, hroot, Bool.false_eq_true, if_false]
    exact editParent_along hroot hparent (attach_of_child hfragment ho hchild)
  | merge value =>
    unfold run Node.merge
    simp only [hlocation, hcut, hroot, ho, Bool.false_eq_true, if_false, if_true]
    exact editParent_along hroot hparent (mergeChild_of_child hfragment ho hchild hfits)

theorem Occupied.run {other : String} {after : Node} (h : root.Occupied d other)
    (hapart : root.Apart d path other) (hrun : w.run limit d path root = .done after) :
    after.Occupied d other := by
  have hframed := Write.framed (congrArg Edited.failure hrun)
  rw [hrun] at hframed
  rw [occupied_iff] at h ⊢
  exact (hframed.lookup other (diverges_of_apart hapart)).symm ▸ h

end

/-- Two writes at existing nodes apart from each other are done in either order, and the trees in
the end are the same. -/
theorem independent_writes_commute (limit : Nat) (d : Char) (p q : String) (root : Node)
    (v w : Write) (hp : root.Occupied d p) (hq : root.Occupied d q) (hapart : root.Apart d p q)
    (hv : v.Fits limit) (hw : w.Fits limit) :
    ∃ afterV afterW result, v.run limit d p root = .done afterV ∧
      w.run limit d q afterV = .done result ∧ w.run limit d q root = .done afterW ∧
      v.run limit d p afterW = .done result := by
  have hrunV := Write.run_of_occupied hp hv
  have hrunW := Write.run_of_occupied hq hw
  refine ⟨_, _, _, hrunV, Write.run_of_occupied (hq.run hapart hrunV) hw, hrunW, ?_⟩
  rw [Write.run_of_occupied (hp.run hapart.symm hrunW) hv]
  exact congrArg Edited.done (Change.along_comm (diverges_of_apart hapart))

/-- Two items of an array below the first value of a repeated key: one is replaced, the other
becomes an array of what it was and the value merged into it. -/
theorem independent_writes_commute_in_array :
    let root : Node := .object
      ⟨[("a", .repeated [.object ⟨[("x", .single (.array [.int 1, .int 2]))]⟩, .int 7])]⟩
    let p := ".a.x.+1"
    let q := "a..x.00"
    let v : Write := .set (.object ∅)
    let w : Write := .merge (.bool true)
    (root.Occupied '.' p ∧ root.Occupied '.' q ∧ root.Apart '.' p q ∧ v.Fits 0 ∧ w.Fits 0) ∧
      ∃ afterV afterW result, v.run 0 '.' p root = .done afterV ∧
        w.run 0 '.' q afterV = .done result ∧ w.run 0 '.' q root = .done afterW ∧
        v.run 0 '.' p afterW = .done result := by
  intro root p q v w
  have hp : root.Occupied '.' p :=
    occupied_iff.2 ⟨by decide +kernel, Option.isSome_iff_exists.1 (by decide +kernel)⟩
  have hq : root.Occupied '.' q :=
    occupied_iff.2 ⟨by decide +kernel, Option.isSome_iff_exists.1 (by decide +kernel)⟩
  have hapart : root.Apart '.' p q :=
    ⟨[.key "a", .key "x", .item 1], [.key "a", .key "x", .item 0], by decide +kernel,
      by decide +kernel, by decide, by decide⟩
  have hw : w.Fits 0 := Nat.le_refl 0
  exact ⟨⟨hp, hq, hapart, trivial, hw⟩,
    independent_writes_commute 0 '.' p q root v w hp hq hapart trivial hw⟩

end ConfigTree.Node
