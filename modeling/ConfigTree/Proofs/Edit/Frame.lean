import ConfigTree.Edit.Merge
import ConfigTree.Edit.Remove
import ConfigTree.Proofs.Edit.Update
import ConfigTree.Proofs.Multimap

/-! What an edit leaves alone.  A path that parts from the edited one at some node leads where it led
before.  On the way down objects keep their keys and what stands under the other keys, and the parent
gains or loses the final fragment only. -/

namespace ConfigTree.Node

/-! ## Paths that part -/

/-- Two fragments take the same step. -/
def SameStep (s t : String) : Node → Prop
  | array _ => index? s = index? t
  | object _ => s = t
  | _ => False

/-- Two fragments take different steps, the second to an item where the node is an array. -/
def Parts (s t : String) : Node → Prop
  | array items => ∃ j < items.length, index? t = some j ∧ index? s ≠ some j
  | object _ => s ≠ t
  | _ => False

/-- Two fragments take different steps, the second to an earlier item where the node is an array. -/
def PartsBefore (s t : String) : Node → Prop
  | array items => ∃ i < items.length, ∃ j < i, index? s = some i ∧ index? t = some j
  | object _ => s ≠ t
  | _ => False

/-- Two walks from a node part at some step, having visited the same nodes before.  At the last
step of the first walk they part as `final` says. -/
inductive Diverges (final : String → String → Node → Prop) :
    Node → List String → List String → Prop
  | last {n : Node} {s t : String} {ts : List String} (h : final s t n) :
    Diverges final n [s] (t :: ts)
  | here {n : Node} {s t : String} {ss ts : List String} (hss : ss ≠ []) (h : Parts s t n) :
    Diverges final n (s :: ss) (t :: ts)
  | deeper {n child : Node} {s t : String} {ss ts : List String} (hsame : SameStep s t n)
    (hchild : n.child? s = some child) (h : Diverges final child ss ts) :
    Diverges final n (s :: ss) (t :: ts)

section

variable {n : Node} {s t : String}

theorem SameStep.child? (h : SameStep s t n) : n.child? t = n.child? s := by
  cases n with
  | array items =>
    have hindex : index? s = index? t := h
    simp only [Node.child?, hindex]
  | object o =>
    have hkey : s = t := h
    rw [hkey]
  | _ => rfl

theorem SameStep.putChild (h : SameStep s t n) (fragment : String) (child : Node) :
    SameStep s t (n.putChild fragment child) := by
  cases n with
  | array items =>
    simp only [Node.putChild]
    split <;> exact h
  | _ => exact h

theorem Parts.child?_putChild (h : Parts s t n) (child : Node) :
    (n.putChild s child).child? t = n.child? t := by
  cases n with
  | array items =>
    obtain ⟨j, -, ht, hs⟩ := h
    cases hi : index? s with
    | none => simp only [putChild, hi]
    | some i =>
      have hij : i ≠ j := fun he => hs (he ▸ hi)
      simp only [putChild, hi, child?, ht, Option.bind_some, List.getElem?_set_ne hij]
  | object o =>
    rw [putChild, child?, Multimap.get?, Multimap.setFirst, Multimap.member?_modify_of_ne h.symm]
    rfl
  | _ => rfl

end

/-! ## Edits of the parent -/

/-- The two objects hold the same under every key but `s`. -/
def AgreeExcept (s : String) (o o' : Multimap Node) : Prop :=
  ∀ key, key ≠ s → o'.member? key = o.member? key

/-- An edit of a node touches only what stands under `s`: what the other steps lead to stays, and so
does what the other keys of an object hold, whose list of keys becomes `keys`. -/
structure Touches (final : String → String → Node → Prop)
    (keys : String → List String → List String) (s : String) (f : Node → Edited Node) : Prop where
  child : ∀ (n : Node) (t : String), final s t n → (f n).value.child? t = n.child? t
  object : ∀ o : Multimap Node, (f (object o)).failure = none →
    ∃ o', (f (.object o)).value = .object o' ∧ o'.keys = keys s o.keys ∧ AgreeExcept s o o'

/-- A key that is new comes last. -/
def withKey (s : String) (keys : List String) : List String := if s ∈ keys then keys else keys ++ [s]

def withoutKey (s : String) (keys : List String) : List String := keys.erase s

section

variable {limit : Nat} {path : String} {value : Node} {location : Location}

theorem touches_attach :
    Touches Parts withKey location.cut.fragment (attach location path value) where
  child n t h := by
    cases n with
    | array items =>
      obtain ⟨j, hj, ht, hs⟩ := h
      have happend : (array (items ++ [value])).child? t = (array items).child? t := by
        simp [child?, ht, List.getElem?_append_left hj]
      simp only [attach]
      split
      · next i hi =>
        have hij : i ≠ j := fun he => hs (he ▸ hi)
        split
        · simp [Edited.done, child?, ht, hij]
        · exact happend
      · exact happend
    | object o =>
      simp only [attach, Edited.done, child?, Multimap.get?, Multimap.member?_insert_of_ne h.symm]
    | _ => rfl
  object o _ :=
    ⟨o.insert location.cut.fragment value, rfl, Multimap.keys_insert o _ value,
      fun _ hkey => Multimap.member?_insert_of_ne hkey o value⟩

theorem touches_detach {fragment : String} :
    Touches PartsBefore withoutKey fragment (detach path fragment) where
  child n t h := by
    cases n with
    | array items =>
      obtain ⟨i, hi, j, hj, hs, ht⟩ := h
      simp [detach, hs, hi, Edited.done, child?, ht, List.getElem?_eraseIdx_of_lt hj]
    | object o =>
      simp only [detach]
      split
      · simp only [Edited.done, child?, Multimap.get?, Multimap.member?_erase_of_ne h.symm]
      · rfl
    | _ => rfl
  object o h := by
    simp only [detach] at h ⊢
    split at h
    · next hcontains =>
      rw [if_pos hcontains]
      exact ⟨o.erase fragment, rfl, Multimap.keys_erase o fragment,
        fun _ hkey => Multimap.member?_erase_of_ne hkey o⟩
    · cases h

theorem keys_and_agreeExcept_modify {o : Multimap Node} {child : Node} {s : String}
    (hchild : o.get? s = some child) (change : Member Node → Member Node) :
    (o.modify s change).keys = withKey s o.keys ∧ AgreeExcept s o (o.modify s change) := by
  refine ⟨?_, fun key hkey => Multimap.member?_modify_of_ne hkey o change⟩
  rw [Multimap.keys_modify, withKey, if_pos (Multimap.mem_keys_of_get? hchild)]

theorem touches_mergeChild :
    Touches Parts withKey location.cut.fragment (mergeChild limit location path value) where
  child n t h := by
    unfold mergeChild
    split
    · rfl
    · split
      · exact h.child?_putChild _
      · next left _ =>
        unfold keepBoth
        split
        · next o =>
          simp only [Edited.done, child?, Multimap.get?, Multimap.member?_modify_of_ne h.symm]
        · exact touches_attach.child n t h
  object o h := by
    unfold mergeChild at h ⊢
    split at h
    · cases h
    · next child hchild =>
      split
      · next result _ =>
        exact ⟨_, rfl, keys_and_agreeExcept_modify hchild (·.setFirst result.value)⟩
      · next left _ => exact ⟨_, rfl, keys_and_agreeExcept_modify hchild (·.push left)⟩

end

/-! ## Edits below a node -/

section

variable {β : Type} {f : Node → Node × β}

theorem follow?_of_diverges {final : String → String → Node → Prop} {s : String}
    (hf : ∀ (n : Node) (t : String), final s t n → (f n).1.child? t = n.child? t)
    {segments others : List String} {n : Node} {r : Node × β}
    (hr : n.update? f segments = some r) (h : Diverges final n (segments ++ [s]) others) :
    r.1.follow? others = n.follow? others := by
  -- Above the parent a child is put back under one step; `final` is about the parent alone.
  induction segments generalizing n r others with
  | nil =>
    cases hr
    cases h with
    | last h => rw [follow?, hf n _ h, follow?]
    | here hss => exact absurd rfl hss
    | deeper _ _ h => cases h
  | cons u us ih =>
    obtain ⟨child, hchild, hr⟩ := Option.bind_eq_some_iff.1 hr
    obtain ⟨r', hr', rfl⟩ := Option.map_eq_some_iff.1 hr
    rw [List.cons_append] at h
    generalize hsegments : u :: (us ++ [s]) = segments at h
    cases h with
    | last => simp at hsegments
    | here _ h =>
      cases hsegments
      rw [follow?, h.child?_putChild, follow?]
    | deeper hsame hchild' h =>
      cases hsegments
      cases Option.some.inj (hchild.symm.trans hchild')
      rw [follow?, (hsame.putChild u r'.1).child?, child?_putChild hchild, follow?, hsame.child?,
        hchild]
      exact ih hr' h

/-- An object that an edit passes under `s` keeps its keys, all that stands under the others, and
the further values under `s`. -/
def Passed (s : String) (o o' : Multimap Node) : Prop :=
  o'.keys = o.keys ∧ AgreeExcept s o o' ∧
    ∀ m, o.member? s = some m →
      ∃ m', o'.member? s = some m' ∧ m'.isRepeated = m.isRepeated ∧ m'.rest = m.rest

theorem passed_setFirst (s : String) (o : Multimap Node) (child : Node) :
    Passed s o (o.setFirst s child) := by
  refine ⟨Multimap.keys_modify .., fun _ hkey => Multimap.member?_modify_of_ne hkey o _,
    fun m hm => ⟨m.setFirst child, ?_, Member.isRepeated_setFirst m child, ?_⟩⟩
  · rw [Multimap.setFirst, Multimap.member?_modify_self, hm, Option.map_some]
  · rw [Member.rest, Member.values_setFirst, List.tail_cons]

theorem passed_update? {us ss : List String} {s : String} {n : Node} {o : Multimap Node}
    {r : Node × β} (hr : n.update? f (us ++ s :: ss) = some r)
    (ho : n.follow? us = some (object o)) :
    ∃ o', r.1.follow? us = some (object o') ∧ Passed s o o' := by
  obtain ⟨m, r', hm, hr', hfollow⟩ := exists_of_update?_append hr
  cases Option.some.inj (hm.symm.trans ho)
  obtain ⟨child, -, hr'⟩ := Option.bind_eq_some_iff.1 hr'
  obtain ⟨r₁, -, rfl⟩ := Option.map_eq_some_iff.1 hr'
  exact ⟨o.setFirst s r₁.1, hfollow, passed_setFirst s o r₁.1⟩

end

/-! ## Edits of a tree -/

/-- What an edit at `path` leaves alone: what paths that part from it lead to, and in the objects on
the way down all but the one step. -/
structure Framed (final : String → String → Node → Prop)
    (keys : String → List String → List String) (d : Char) (path : String) (root root' : Node) :
    Prop where
  lookup : ∀ other : String,
    Diverges final root (Path.segments d path) (Path.segments d other) →
      root'.lookup? d other = root.lookup? d other
  passed : ∀ (us : List String) (s : String) (ss : List String) (o : Multimap Node), ss ≠ [] →
    Path.segments d path = us ++ s :: ss → root.follow? us = some (object o) →
      ∃ o', root'.follow? us = some (object o') ∧ Passed s o o'
  parent : ∀ (us : List String) (s : String) (o : Multimap Node),
    Path.segments d path = us ++ [s] → root.follow? us = some (object o) →
      ∃ o', root'.follow? us = some (object o') ∧ o'.keys = keys s o.keys ∧ AgreeExcept s o o'

section

variable {final : String → String → Node → Prop} {keys : String → List String → List String}
  {d : Char} {path : String} {root : Node} {location : Location}

theorem cut_of_locate? (h : root.locate? d path = some location) :
    location.cut = Path.cut d path := by
  obtain ⟨parent, -, hlocation⟩ := Option.map_eq_some_iff.1 h
  simp only [← hlocation]

/-- No path parts from that of the root, and no object is on the way there. -/
theorem framed_of_isRoot (h : root.locate? d path = some location)
    (hroot : location.cut.isRoot = true) (root' : Node) :
    Framed final keys d path root root' := by
  rw [cut_of_locate? h] at hroot
  have hsegments := Path.segments_eq_nil_of_isRoot hroot
  refine ⟨fun other h => ?_, fun us s ss o _ h _ => ?_, fun us s o h _ => ?_⟩
  · rw [hsegments] at h
    cases h
  · simp [hsegments] at h
  · simp [hsegments] at h

theorem framed_editParent {f : Node → Edited Node} (h : root.locate? d path = some location)
    (hroot : ¬ location.cut.isRoot = true) (hf : Touches final keys location.cut.fragment f)
    (hdone : (root.editParent d path f).failure = none) :
    Framed final keys d path root (root.editParent d path f).value := by
  rw [cut_of_locate? h] at hroot hf
  rw [editParent, updateParentOf?_eq_update?] at hdone ⊢
  split at hdone
  · next root' failure hr =>
    have hsegments := Path.segments_eq_of_cut (eq_false_of_ne_true hroot)
    -- Comparing segments must not unfold the cut of the path.
    generalize (Path.cut d path).fragment = fragment at hsegments hf
    refine ⟨fun other h => ?_, fun us s ss o hss hpath ho => ?_, fun us s o hpath ho => ?_⟩
    · rw [hsegments] at h
      exact follow?_of_diverges hf.child hr h
    · obtain ⟨ss, last, rfl⟩ := (List.eq_nil_or_concat ss).resolve_left hss
      rw [hsegments, List.concat_eq_append, ← List.cons_append, ← List.append_assoc] at hpath
      rw [(List.append_inj' hpath rfl).1] at hr
      exact passed_update? hr ho
    · rw [hsegments] at hpath
      obtain ⟨hus, hs⟩ := List.append_inj' hpath rfl
      cases hs
      rw [hus] at hr
      obtain ⟨m, hm, hvalue, hfailure⟩ := follow?_of_update? hr
      cases Option.some.inj (hm.symm.trans ho)
      obtain ⟨o', ho', hkeys⟩ := hf.object o (hfailure.symm.trans hdone)
      exact ⟨o', hvalue.trans (congrArg some ho'), hkeys⟩
  · cases hdone

theorem framed_set {value : Node} (hdone : (root.set d path value).failure = none) :
    Framed Parts withKey d path root (root.set d path value).value := by
  unfold set at hdone ⊢
  split at hdone
  · cases hdone
  · next location h =>
    split at hdone
    · next hroot => exact framed_of_isRoot h hroot _
    · next hroot =>
      rw [if_neg hroot]
      exact framed_editParent h hroot touches_attach hdone

theorem framed_merge {limit : Nat} {value : Node}
    (hdone : (root.merge limit d path value).failure = none) :
    Framed Parts withKey d path root (root.merge limit d path value).value := by
  unfold merge at hdone ⊢
  split at hdone
  · cases hdone
  · next location h =>
    split at hdone
    · next hroot => exact framed_of_isRoot h hroot _
    · next hroot =>
      rw [if_neg hroot]
      refine framed_editParent h hroot ?_ hdone
      split
      · exact touches_mergeChild
      · exact touches_attach

theorem framed_remove (hdone : (root.remove d path).failure = none) :
    Framed PartsBefore withoutKey d path root (root.remove d path).value := by
  unfold remove at hdone ⊢
  split at hdone
  · cases hdone
  · next location h =>
    split at hdone
    · cases hdone
    · next hroot =>
      split at hdone
      · cases hdone
      · next hoccupied =>
        rw [if_neg hroot, if_neg hoccupied]
        exact framed_editParent h hroot touches_detach hdone

end

/-- An edit that is done changes the tree under its path only.  Setting and merging put a new key
last; removing takes a key out, and moves up the items behind a removed one. -/
theorem edit_leaves_the_rest :
    (∀ (root : Node) (d : Char) (path : String) (value : Node),
      (root.set d path value).failure = none →
        Framed Parts withKey d path root (root.set d path value).value) ∧
    (∀ (root : Node) (limit : Nat) (d : Char) (path : String) (value : Node),
      (root.merge limit d path value).failure = none →
        Framed Parts withKey d path root (root.merge limit d path value).value) ∧
    ∀ (root : Node) (d : Char) (path : String),
      (root.remove d path).failure = none →
        Framed PartsBefore withoutKey d path root (root.remove d path).value := by
  refine ⟨fun root d path value hdone => ?_, fun root limit d path value hdone => ?_,
    fun root d path hdone => ?_⟩
  · exact framed_set hdone
  · exact framed_merge hdone
  · exact framed_remove hdone

/-- Edits of the second item of an array under a repeated key, beside the first item. -/
theorem edit_leaves_the_rest_of_array :
    let root : Node := .object
      ⟨[("a", .repeated [.object ⟨[("x", .single (.array [.int 1, .int 2]))]⟩, .int 7])]⟩
    let path := ".a.x.+1"
    let other := "a.x..00"
    Diverges PartsBefore root (Path.segments '.' path) (Path.segments '.' other) ∧
      ((root.set '.' path .null).failure = none ∧
        (root.set '.' path .null).value.lookup? '.' other = root.lookup? '.' other) ∧
      ((root.merge 0 '.' path .null).failure = none ∧
        (root.merge 0 '.' path .null).value.lookup? '.' other = root.lookup? '.' other) ∧
      ((root.remove '.' path).failure = none ∧
        (root.remove '.' path).value.lookup? '.' other = root.lookup? '.' other) := by
  intro root path other
  have hpath : Path.segments '.' path = ["a", "x", "+1"] := by decide +kernel
  have hother : Path.segments '.' other = ["a", "x", "00"] := by decide +kernel
  have hsecond : index? "+1" = some 1 := by decide +kernel
  have hfirst : index? "00" = some 0 := by decide +kernel
  have hdiverges {final : String → String → Node → Prop}
      (h : final "+1" "00" (.array [.int 1, .int 2])) :
      Diverges final root (Path.segments '.' path) (Path.segments '.' other) := by
    rw [hpath, hother]
    exact .deeper rfl rfl (.deeper rfl rfl (.last h))
  have hparts : Diverges Parts root (Path.segments '.' path) (Path.segments '.' other) :=
    hdiverges ⟨0, by decide, hfirst, by rw [hsecond]; decide⟩
  have hbefore : Diverges PartsBefore root (Path.segments '.' path) (Path.segments '.' other) :=
    hdiverges ⟨1, by decide, 0, by decide, hsecond, hfirst⟩
  have hset : (root.set '.' path .null).failure = none := by decide +kernel
  have hmerge : (root.merge 0 '.' path .null).failure = none := by decide +kernel
  have hremove : (root.remove '.' path).failure = none := by decide +kernel
  obtain ⟨framedSet, framedMerge, framedRemove⟩ := edit_leaves_the_rest
  exact ⟨hbefore, ⟨hset, (framedSet root '.' path .null hset).lookup other hparts⟩,
    ⟨hmerge, (framedMerge root 0 '.' path .null hmerge).lookup other hparts⟩,
    hremove, (framedRemove root '.' path hremove).lookup other hbefore⟩

end ConfigTree.Node
