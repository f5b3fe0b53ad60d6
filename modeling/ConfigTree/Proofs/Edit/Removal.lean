import ConfigTree.Proofs.Edit.Commutation
import ConfigTree.Proofs.Edit.Replace
import Mathlib.Data.List.Induction

/-! Removing several nodes, one after the other.  A removal moves up the items behind the one it
takes out and disturbs no other place.  So paths in an order in which none moves what a later one
goes through take out just the nodes they named at first.  Whatever the order, a removal that fails
is as good as not asked for. -/

namespace ConfigTree.Node

/-! ## Trees without some of their nodes -/

/-- Places in a tree. -/
abbrev Places := List Step → Bool

namespace Places

/-- The places below a step, as seen from there. -/
def below (gone : Places) (s : Step) : Places := fun P => gone (s :: P)

/-- The places that are not under a key. -/
def besides (gone : Places) (key : String) : Places :=
  fun P => P.head? ≠ some (.key key) && gone P

def including (gone : Places) (P : List Step) : Places := fun Q => Q = P || gone Q

section

variable {gone : Places} {P Q : List Step} {s t : Step} {key key' : String}

theorem below_including_self : (gone.including (s :: P)).below s = (gone.below s).including P := by
  funext Q
  simp [below, including]

theorem below_besides_of_ne (h : Step.key key ≠ s) :
    (gone.besides key).below s = gone.below s := by
  funext Q
  simp [below, besides, Ne.symm h]

theorem including_of_ne (h : Q ≠ P) : gone.including P Q = gone Q := by
  simp [including, h]

theorem including_of_head_ne (h : t ≠ s) : gone.including (s :: P) (t :: Q) = gone (t :: Q) :=
  including_of_ne fun he => h (List.cons.inj he).1

/-- A place further down is no place of a child. -/
theorem including_singleton (hP : P ≠ []) : gone.including (s :: P) [t] = gone [t] :=
  including_of_ne fun he => hP (List.cons.inj he).2.symm

theorem below_including_of_ne (h : t ≠ s) : (gone.including (s :: P)).below t = gone.below t :=
  funext fun _ => including_of_head_ne h

theorem including_self : gone.including P P = true := by simp [including]

theorem besides_including_self :
    (gone.including (.key key :: P)).besides key = gone.besides key := by
  funext Q
  by_cases hQ : Q = .key key :: P
  · simp [besides, hQ]
  · simp [besides, including, hQ]

theorem besides_including_of_ne (h : key ≠ key') :
    (gone.including (.key key :: P)).besides key' =
      (gone.besides key').including (.key key :: P) := by
  funext Q
  by_cases hQ : Q = .key key :: P
  · simp [besides, including, hQ, h]
  · simp [besides, including, hQ]

theorem besides_eq_self (h : ∀ Q, gone (.key key :: Q) = false) : gone.besides key = gone := by
  funext Q
  cases Q with
  | nil => simp [besides]
  | cons t Q =>
    by_cases ht : t = .key key
    · simp [besides, ht, h]
    · simp [besides, ht]

end

end Places

mutual

/-- The tree without the items and keys whose places are gone; a key goes with all its values.
Below a repeated key places are those of its first value. -/
def prune (gone : Places) : Node → Node
  | array items => array (pruneItems gone 0 items)
  | object ⟨entries⟩ => object ⟨pruneEntries gone entries⟩
  | n => n
termination_by structural n => n

/-- The items of an array from `index` on. -/
def pruneItems (gone : Places) (index : Nat) : List Node → List Node
  | [] => []
  | n :: ns =>
    if gone [.item index] then pruneItems gone (index + 1) ns
    else prune (gone.below (.item index)) n :: pruneItems gone (index + 1) ns
termination_by structural ns => ns

/-- The first value of a member stands for it. -/
def pruneMember (gone : Places) : Member Node → Member Node
  | .single n => .single (prune gone n)
  | .repeated [] => .repeated []
  | .repeated (n :: ns) => .repeated (prune gone n :: ns)
termination_by structural m => m

/-- A key stands for its first entry. -/
def pruneEntries (gone : Places) : List (String × Member Node) → List (String × Member Node)
  | [] => []
  | (key, m) :: es =>
    if gone [.key key] then pruneEntries (gone.besides key) es
    else (key, pruneMember (gone.below (.key key)) m) :: pruneEntries (gone.besides key) es
termination_by structural es => es

end

section

variable {gone : Places} {P : List Step} {key : String} {child child' : Node}

mutual

theorem prune_nothing : (n : Node) → n.prune (fun _ => false) = n
  | array items => by rw [prune, pruneItems_nothing]
  | object ⟨entries⟩ => by rw [prune, pruneEntries_nothing]
  | null | bool _ | int _ | float _ | str _ | time _ | userdata _ => rfl
termination_by structural n => n

theorem pruneItems_nothing {index : Nat} :
    (ns : List Node) → pruneItems (fun _ => false) index ns = ns
  | [] => rfl
  | n :: ns => by
    have hbelow : Places.below (fun _ => false) (.item index) = fun _ => false := rfl
    rw [pruneItems, if_neg Bool.false_ne_true, hbelow, prune_nothing n, pruneItems_nothing ns]
termination_by structural ns => ns

theorem pruneMember_nothing : (m : Member Node) → pruneMember (fun _ => false) m = m
  | .single n => by rw [pruneMember, prune_nothing n]
  | .repeated [] => rfl
  | .repeated (n :: ns) => by rw [pruneMember, prune_nothing n]
termination_by structural m => m

theorem pruneEntries_nothing :
    (es : List (String × Member Node)) → pruneEntries (fun _ => false) es = es
  | [] => rfl
  | (key, m) :: es => by
    have hbelow : Places.below (fun _ => false) (.key key) = fun _ => false := rfl
    rw [pruneEntries, if_neg Bool.false_ne_true, Places.besides_eq_self fun _ => rfl, hbelow,
      pruneMember_nothing m, pruneEntries_nothing es]
termination_by structural es => es

end

/-! ## One removal more -/

/-- A removal at the first place takes out what stands at the second, or moves something on the way
there. -/
inductive Disturbs : List Step → List Step → Prop
  | key (key : String) (Q : List Step) : Disturbs [.key key] (.key key :: Q)
  | item {i j : Nat} (h : i ≤ j) (Q : List Step) : Disturbs [.item i] (.item j :: Q)
  | step (s : Step) {P Q : List Step} (h : Disturbs P Q) : Disturbs (s :: P) (s :: Q)

theorem pruneItems_congr {gone' : Places} {index : Nat} {ns : List Node}
    (h : ∀ j, index ≤ j → ∀ Q, gone (.item j :: Q) = gone' (.item j :: Q)) :
    pruneItems gone index ns = pruneItems gone' index ns := by
  induction ns generalizing index with
  | nil => rfl
  | cons n ns ih =>
    have hbelow : gone.below (.item index) = gone'.below (.item index) :=
      funext (h index (Nat.le_refl index))
    rw [pruneItems, pruneItems, h index (Nat.le_refl index), hbelow,
      ih fun j hj => h j (Nat.le_of_succ_le hj)]

theorem pruneItems_of_untouched {index : Nat} {ns : List Node}
    (h : ∀ j, index ≤ j → ∀ Q, gone (.item j :: Q) = false) : pruneItems gone index ns = ns :=
  (pruneItems_congr h).trans (pruneItems_nothing ns)

theorem pruneItems_eraseIdx {index i k : Nat} {ns : List Node} (hk : index + i = k)
    (hi : i < ns.length) (h : ∀ j, k ≤ j → ∀ Q, gone (.item j :: Q) = false) :
    pruneItems gone index (ns.eraseIdx i) = pruneItems (gone.including [.item k]) index ns := by
  induction ns generalizing index i with
  | nil => cases hi
  | cons n ns ih =>
    cases i with
    | zero =>
      obtain rfl : index = k := hk
      have hbehind : ∀ j, index + 1 ≤ j → ∀ Q,
          gone.including [.item index] (.item j :: Q) = false := by
        intro j hj Q
        have hstep : Step.item j ≠ .item index := fun he => Nat.ne_of_gt hj (Step.item.inj he)
        rw [Places.including_of_head_ne hstep, h j (Nat.le_of_succ_le hj)]
      rw [List.eraseIdx_cons_zero, pruneItems_of_untouched h, pruneItems, Places.including_self,
        if_pos rfl, pruneItems_of_untouched hbehind]
    | succ i =>
      have hstep : Step.item index ≠ .item k := by
        rw [ne_eq, Step.item.injEq]
        omega
      rw [List.eraseIdx_cons_succ, pruneItems, pruneItems,
        Places.including_of_head_ne hstep, Places.below_including_of_ne hstep,
        ih (by omega) (Nat.lt_of_succ_lt_succ hi)]

theorem pruneItems_set {index i k : Nat} {ns : List Node} (hk : index + i = k)
    (hitem : ns[i]? = some child) (hP : P ≠ [])
    (h : child'.prune (gone.below (.item k)) = child.prune ((gone.below (.item k)).including P)) :
    pruneItems gone index (ns.set i child') =
      pruneItems (gone.including (.item k :: P)) index ns := by
  induction ns generalizing index i with
  | nil => cases hitem
  | cons n ns ih =>
    cases i with
    | zero =>
      obtain rfl : index = k := hk
      cases hitem
      have hrest : pruneItems (gone.including (.item index :: P)) (index + 1) ns =
          pruneItems gone (index + 1) ns := by
        refine pruneItems_congr fun j hj Q => Places.including_of_head_ne fun he => ?_
        exact Nat.ne_of_gt hj (Step.item.inj he)
      rw [List.set_cons_zero, pruneItems, pruneItems, Places.including_singleton hP,
        Places.below_including_self, h, hrest]
    | succ i =>
      have hstep : Step.item index ≠ .item k := by
        rw [ne_eq, Step.item.injEq]
        omega
      rw [List.set_cons_succ, pruneItems, pruneItems, Places.including_singleton hP,
        Places.below_including_of_ne hstep, ih (by omega) hitem]

theorem pruneEntries_eraseP {es : List (String × Member Node)} (hkey : key ∈ es.map Prod.fst)
    (h : ∀ Q, gone (.key key :: Q) = false) :
    pruneEntries gone (es.eraseP (·.1 == key)) = pruneEntries (gone.including [.key key]) es := by
  induction es generalizing gone with
  | nil => cases hkey
  | cons e es ih =>
    obtain ⟨k, m⟩ := e
    by_cases hk : k = key
    · subst hk
      rw [List.eraseP_cons_of_pos (a := (k, m)) (beq_self_eq_true k), pruneEntries,
        Places.including_self, if_pos rfl, Places.besides_including_self, Places.besides_eq_self h]
    · have hstep : Step.key k ≠ .key key := fun he => hk (Step.key.inj he)
      have hmem : key ∈ es.map Prod.fst := (List.mem_cons.1 hkey).resolve_left (Ne.symm hk)
      have hbesides : ∀ Q, gone.besides k (.key key :: Q) = false := fun Q => by
        rw [Places.besides, h Q, Bool.and_false]
      rw [List.eraseP_cons_of_neg (by simpa using hk), pruneEntries, pruneEntries,
        Places.including_of_head_ne hstep, Places.below_including_of_ne hstep,
        Places.besides_including_of_ne (Ne.symm hk), ih hmem hbesides]

theorem pruneMember_of_first? {m : Member Node} (h : m.first? = some child) :
    pruneMember gone m = m.setFirst (child.prune gone) := by
  cases m with
  | single n =>
    cases h
    rfl
  | repeated ns =>
    obtain ⟨ns, rfl⟩ := List.head?_eq_some_iff.1 h
    rfl

theorem pruneEntries_setFirst {es : List (String × Member Node)} {m : Member Node}
    (hm : es.lookup key = some m) (hfirst : m.first? = some child) (hP : P ≠ [])
    (h : child'.prune (gone.below (.key key)) = child.prune ((gone.below (.key key)).including P)) :
    pruneEntries gone (Multimap.modify.adjust key (·.setFirst child') es) =
      pruneEntries (gone.including (.key key :: P)) es := by
  induction es generalizing gone with
  | nil => cases hm
  | cons e es ih =>
    obtain ⟨k, m'⟩ := e
    by_cases hk : k = key
    · subst hk
      rw [List.lookup_cons_self] at hm
      cases hm
      rw [Multimap.modify.adjust, if_pos rfl, pruneEntries, pruneEntries,
        Places.including_singleton hP, Places.below_including_self, Places.besides_including_self,
        pruneMember_of_first? (Member.first?_setFirst m child'), Member.setFirst_setFirst, h,
        pruneMember_of_first? hfirst]
    · have hstep : Step.key k ≠ .key key := fun he => hk (Step.key.inj he)
      have hk' : (key == k) = false := by simpa using Ne.symm hk
      rw [List.lookup_cons, hk'] at hm
      rw [Multimap.modify.adjust, if_neg hk, pruneEntries, pruneEntries,
        Places.including_singleton hP, Places.below_including_of_ne hstep,
        Places.besides_including_of_ne (Ne.symm hk), ih hm]
      rwa [Places.below_besides_of_ne hstep]

end

section

variable {n child child' : Node} {path s t : String} {P Q : List Step}

theorem exists_of_placeOf?_cons {ss : List String} (h : n.placeOf? (s :: ss) = some P) :
    ∃ child P', n.child? s = some child ∧ child.placeOf? ss = some P' ∧ P = n.step s :: P' := by
  obtain ⟨child, hchild, h⟩ := Option.bind_eq_some_iff.1 h
  obtain ⟨P', hP', rfl⟩ := Option.map_eq_some_iff.1 h
  exact ⟨child, P', hchild, hP', rfl⟩

theorem placeOf?_cons {ss : List String} (hchild : n.child? s = some child)
    (hP : child.placeOf? ss = some P) : n.placeOf? (s :: ss) = some (n.step s :: P) := by
  rw [placeOf?, hchild, Option.bind_some, hP, Option.map_some]

theorem ne_nil_of_placeOf? {ss : List String} (h : n.placeOf? ss = some P) (hss : ss ≠ []) :
    P ≠ [] := by
  obtain ⟨s, ss, rfl⟩ := List.exists_cons_of_ne_nil hss
  obtain ⟨child, P', -, -, rfl⟩ := exists_of_placeOf?_cons h
  exact List.cons_ne_nil _ _

/-- What has a place can be followed to, and the other way round. -/
theorem isSome_placeOf? (n : Node) (ss : List String) :
    (n.placeOf? ss).isSome = (n.follow? ss).isSome := by
  induction ss generalizing n with
  | nil => rfl
  | cons s ss ih =>
    rw [placeOf?, follow?]
    cases n.child? s with
    | none => rfl
    | some child => rw [Option.bind_some, Option.bind_some, Option.isSome_map, ih]

theorem step_putChild (n : Node) (s : String) (child : Node) (t : String) :
    (n.putChild s child).step t = n.step t := by
  cases n with
  | array items =>
    simp only [putChild]
    split <;> rfl
  | _ => rfl

theorem step_detach (path : String) (n : Node) (s t : String) :
    (detach path s n).value.step t = n.step t := by
  cases n with
  | array items =>
    simp only [detach]
    split
    · split <;> rfl
    · rfl
  | object o =>
    simp only [detach]
    split <;> rfl
  | _ => rfl

/-- `n'` is `n` without what stood at `P`: taking out more comes to the same, and what a removal at
`P` does not disturb is where it was. -/
structure Without (P : List Step) (n n' : Node) : Prop where
  prune : ∀ gone : Places, (∀ Q, Disturbs P Q → gone Q = false) →
    n'.prune gone = n.prune (gone.including P)
  placeOf? : ∀ (ts : List String) (Q : List Step), n.placeOf? ts = some Q → ¬ Disturbs P Q →
    n'.placeOf? ts = some Q

theorem partsBefore_of_not_disturbs (hs : n.child? s = some child) (ht : n.child? t = some child')
    (h : ¬ Disturbs [n.step s] (n.step t :: Q)) : PartsBefore s t n := by
  cases n with
  | array items =>
    obtain ⟨i, hi, hitem⟩ := child?_array hs
    obtain ⟨j, hj, -⟩ := child?_array ht
    simp only [step, hi, hj, Option.getD_some] at h
    exact ⟨i, (List.getElem?_eq_some_iff.1 hitem).1, j,
      Nat.lt_of_not_le fun hle => h (.item hle Q), hi, hj⟩
  | object o =>
    rintro rfl
    exact h (.key s Q)
  | _ => cases hs

theorem failure_detach (hs : n.child? s = some child) : (detach path s n).failure = none := by
  cases n with
  | array items =>
    obtain ⟨i, hi, hitem⟩ := child?_array hs
    simp only [detach, hi, (List.getElem?_eq_some_iff.1 hitem).1, if_true]
    rfl
  | object o =>
    obtain ⟨m, hm, -⟩ := Option.bind_eq_some_iff.1 hs
    simp only [detach, Multimap.contains, hm, Option.isSome_some, if_true]
    rfl
  | _ => cases hs

theorem prune_detach {gone : Places} (hs : n.child? s = some child)
    (h : ∀ Q, Disturbs [n.step s] Q → gone Q = false) :
    (detach path s n).value.prune gone = n.prune (gone.including [n.step s]) := by
  cases n with
  | array items =>
    obtain ⟨i, hi, hitem⟩ := child?_array hs
    have hlt : i < items.length := (List.getElem?_eq_some_iff.1 hitem).1
    simp only [step, hi, Option.getD_some] at h ⊢
    simp only [detach, hi, hlt, if_true]
    exact congrArg array (pruneItems_eraseIdx (Nat.zero_add i) hlt fun j hj Q => h _ (.item hj Q))
  | object o =>
    obtain ⟨m, hm, -⟩ := Option.bind_eq_some_iff.1 hs
    simp only [detach, Multimap.contains, hm, Option.isSome_some, if_true]
    refine congrArg (object ∘ Multimap.mk) ?_
    exact pruneEntries_eraseP (Multimap.mem_keys_of_get? hs) fun Q => h _ (.key s Q)
  | _ => cases hs

theorem prune_putChild {gone : Places} (hs : n.child? s = some child) (hP : P ≠ [])
    (h : child'.prune (gone.below (n.step s)) =
      child.prune ((gone.below (n.step s)).including P)) :
    (n.putChild s child').prune gone = n.prune (gone.including (n.step s :: P)) := by
  cases n with
  | array items =>
    obtain ⟨i, hi, hitem⟩ := child?_array hs
    simp only [step, hi, Option.getD_some] at h ⊢
    simp only [putChild, hi]
    exact congrArg array (pruneItems_set (Nat.zero_add i) hitem hP h)
  | object o =>
    obtain ⟨m, hm, hfirst⟩ := Option.bind_eq_some_iff.1 hs
    exact congrArg (object ∘ Multimap.mk) (pruneEntries_setFirst hm hfirst hP h)
  | _ => cases hs

theorem without_detach (hs : n.child? s = some child) :
    Without [n.step s] n (detach path s n).value where
  prune gone h := prune_detach hs h
  placeOf? ts Q hQ h := by
    cases ts with
    | nil => exact hQ
    | cons t ts =>
      obtain ⟨child', Q', ht, hQ', rfl⟩ := exists_of_placeOf?_cons hQ
      have hchild : (detach path s n).value.child? t = n.child? t :=
        touches_detach.child n t (partsBefore_of_not_disturbs hs ht h)
      rw [placeOf?_cons (hchild.trans ht) hQ', step_detach]

theorem Without.putChild (h : Without P child child') (hs : n.child? s = some child) (hP : P ≠ []) :
    Without (n.step s :: P) n (n.putChild s child') where
  prune gone hgone := prune_putChild hs hP (h.prune _ fun Q hQ => hgone _ (.step _ hQ))
  placeOf? ts Q hQ hnot := by
    cases ts with
    | nil => exact hQ
    | cons t ts =>
      obtain ⟨other, Q', ht, hQ', rfl⟩ := exists_of_placeOf?_cons hQ
      by_cases hstep : n.step s = n.step t
      · have hsame := sameStep_of_step hs ht hstep
        cases Option.some.inj (hs.symm.trans (hsame.child?.symm.trans ht))
        have hchild : (n.putChild s child').child? t = some child' :=
          ((hsame.putChild s child').child?).trans (child?_putChild hs child')
        have hdisturbs : ¬ Disturbs P Q' := fun hd => hnot (hstep ▸ .step _ hd)
        rw [placeOf?_cons hchild (h.placeOf? ts Q' hQ' hdisturbs), step_putChild]
      · have hparts := parts_of_step hs ht hstep
        rw [placeOf?_cons ((hparts.child?_putChild child').trans ht) hQ', step_putChild]

/-- Detaching the child at the end of a walk. -/
theorem exists_without_of_update? (path : String) {ss : List String}
    (hP : n.placeOf? (ss ++ [s]) = some P) :
    ∃ n', n.update? (fun parent => ((detach path s parent).value, (detach path s parent).failure))
      ss = some (n', none) ∧ Without P n n' := by
  induction ss generalizing n P with
  | nil =>
    obtain ⟨child, P', hs, hP', rfl⟩ := exists_of_placeOf?_cons hP
    cases hP'
    exact ⟨_, by rw [update?, failure_detach hs], without_detach hs⟩
  | cons u us ih =>
    obtain ⟨child, P', hu, hP', rfl⟩ := exists_of_placeOf?_cons hP
    obtain ⟨child', hupdate, hwithout⟩ := ih hP'
    refine ⟨n.putChild u child', ?_, hwithout.putChild hu (ne_nil_of_placeOf? hP' (by simp))⟩
    rw [update?, updateChild?, hu, Option.bind_some, hupdate, Option.map_some]

end

/-! ## Paths -/

/-- The node at `p` is an item of an array in which `q` goes through a later item or ends there. -/
def Shifts (d : Char) (p q : String) (root : Node) : Prop :=
  ∃ L i j Q, i < j ∧ root.placeOf? (Path.segments d p) = some (L ++ [.item i]) ∧
    root.placeOf? (Path.segments d q) = some (L ++ .item j :: Q)

theorem Disturbs.cases_on_shift {P Q : List Step} (h : Disturbs P Q) :
    P <+: Q ∨ ∃ L i j Q', i < j ∧ P = L ++ [.item i] ∧ Q = L ++ .item j :: Q' := by
  induction h with
  | key k Q => exact .inl (List.prefix_append [.key k] Q)
  | @item i j h Q =>
    rcases Nat.eq_or_lt_of_le h with rfl | h
    · exact .inl (List.prefix_append [.item i] Q)
    · exact .inr ⟨[], i, j, Q, h, rfl, rfl⟩
  | step s _ ih =>
    rcases ih with ih | ⟨L, i, j, Q', h, rfl, rfl⟩
    · exact .inl ((List.prefix_cons_inj s).2 ih)
    · exact .inr ⟨s :: L, i, j, Q', h, rfl, rfl⟩

theorem disturbs_of_lt {i j : Nat} (h : i < j) (L Q : List Step) :
    Disturbs (L ++ [.item i]) (L ++ .item j :: Q) := by
  induction L with
  | nil => exact .item (Nat.le_of_lt h) Q
  | cons s L ih => exact .step s ih

section

variable {d : Char} {p q path : String} {root : Node} {P Q : List Step} {paths : List String}

theorem not_disturbs (hP : root.placeOf? (Path.segments d p) = some P)
    (hQ : root.placeOf? (Path.segments d q) = some Q) (hapart : root.Apart d p q)
    (horder : ¬ Shifts d p q root) : ¬ Disturbs P Q := by
  obtain ⟨P', Q', hP', hQ', hprefix, -⟩ := hapart
  cases Option.some.inj (hP.symm.trans hP')
  cases Option.some.inj (hQ.symm.trans hQ')
  intro h
  rcases h.cases_on_shift with h | ⟨L, i, j, Q', hij, rfl, rfl⟩
  · exact hprefix h
  · exact horder ⟨L, i, j, Q', hij, hP, hQ⟩

theorem not_shifts (hP : root.placeOf? (Path.segments d p) = some P)
    (hQ : root.placeOf? (Path.segments d q) = some Q) (h : ¬ Disturbs P Q) :
    ¬ Shifts d p q root := by
  rintro ⟨L, i, j, Q', hij, hP', hQ'⟩
  cases Option.some.inj (hP.symm.trans hP')
  cases Option.some.inj (hQ.symm.trans hQ')
  exact h (disturbs_of_lt hij L Q')

theorem occupied_of_placeOf? (hroot : (Path.cut d path).isRoot = false)
    (hP : root.placeOf? (Path.segments d path) = some P) : root.Occupied d path := by
  have hsome := isSome_placeOf? root (Path.segments d path)
  rw [hP, Option.isSome_some] at hsome
  exact occupied_iff.2 ⟨hroot, Option.isSome_iff_exists.1 hsome.symm⟩

theorem Occupied.exists_placeOf? (h : root.Occupied d path) :
    ∃ P, root.placeOf? (Path.segments d path) = some P := by
  obtain ⟨n, hn⟩ := (occupied_iff.1 h).2
  rw [← Option.isSome_iff_exists, isSome_placeOf?]
  exact Option.isSome_iff_exists.2 ⟨n, hn⟩

theorem exists_without_of_remove (hroot : (Path.cut d path).isRoot = false)
    (hP : root.placeOf? (Path.segments d path) = some P) :
    ∃ root', root.remove d path = .done root' ∧ Without P root root' := by
  obtain ⟨location, hlocation, ho⟩ := occupied_of_placeOf? hroot hP
  have hcut := cut_of_locate? hlocation
  rw [Path.segments_eq_of_cut hroot] at hP
  obtain ⟨root', hupdate, hwithout⟩ := exists_without_of_update? path hP
  refine ⟨root', ?_, hwithout⟩
  unfold remove
  simp only [hlocation, hcut, hroot, ho, Bool.not_true, Bool.false_eq_true, if_false]
  rw [editParent, updateParentOf?_eq_update?, hupdate]
  rfl

/-- The induction is on the paths, each of which finds its place where it was at first. -/
theorem removeFrom_of_places {place : String → List Step}
    (hexist : ∀ p ∈ paths, (Path.cut d p).isRoot = false ∧
      root.placeOf? (Path.segments d p) = some (place p))
    (horder : paths.Pairwise fun p q => ¬ Disturbs (place p) (place q)) (r : Removal) :
    removeFrom d paths root r = (root.prune fun P => paths.any fun p => P = place p,
      ⟨r.removed + paths.length, r.failures⟩) := by
  induction paths generalizing root r with
  | nil => exact Prod.ext (prune_nothing root).symm rfl
  | cons p ps ih =>
    obtain ⟨hroot, hplace⟩ := hexist p List.mem_cons_self
    obtain ⟨hfirst, hrest⟩ := List.pairwise_cons.1 horder
    obtain ⟨root', hdone, hwithout⟩ := exists_without_of_remove hroot hplace
    have hexist' : ∀ q ∈ ps, (Path.cut d q).isRoot = false ∧
        root'.placeOf? (Path.segments d q) = some (place q) := by
      intro q hq
      obtain ⟨hroot, hplace⟩ := hexist q (List.mem_cons_of_mem p hq)
      exact ⟨hroot, hwithout.placeOf? _ _ hplace (hfirst q hq)⟩
    have hspared : ∀ Q, Disturbs (place p) Q → (ps.any fun q => Q = place q) = false := by
      intro Q hQ
      rw [List.any_eq_false]
      intro q hq heq
      exact hfirst q hq (of_decide_eq_true heq ▸ hQ)
    have hgone : Places.including (fun P => ps.any fun q => P = place q) (place p) =
        fun P => (p :: ps).any fun q => P = place q := by
      funext P
      rw [List.any_cons, Places.including]
    rw [removeFrom, hdone]
    simp only [Edited.done, Removal.record]
    rw [ih hexist' hrest, hwithout.prune _ hspared, hgone, List.length_cons, Nat.add_assoc,
      Nat.add_comm 1]

end

/-! ## Any paths -/

/-- Each path with what its removal fails with at its turn, in the tree that the removals before it
leave. -/
def removalOutcomes (d : Char) (paths : List String) (root : Node) :
    List (String × Option Error) :=
  paths.zipIdx.map fun turn =>
    (turn.1, ((root.removeAll d (paths.take turn.2)).1.remove d turn.1).failure)

section

variable {d : Char} {root : Node}

theorem removeFrom_append (ps qs : List String) (root : Node) (r : Removal) :
    removeFrom d (ps ++ qs) root r =
      removeFrom d qs (removeFrom d ps root r).1 (removeFrom d ps root r).2 := by
  induction ps generalizing root r with
  | nil => rfl
  | cons p ps ih => rw [List.cons_append, removeFrom, ih, removeFrom]

theorem removeAll_concat (ps : List String) (p : String) (root : Node) :
    root.removeAll d (ps ++ [p]) =
      (((root.removeAll d ps).1.remove d p).value,
        (root.removeAll d ps).2.record p ((root.removeAll d ps).1.remove d p).failure) := by
  rw [removeAll, removeFrom_append]
  rfl

theorem removalOutcomes_concat (ps : List String) (p : String) (root : Node) :
    removalOutcomes d (ps ++ [p]) root = removalOutcomes d ps root ++
      [(p, ((root.removeAll d ps).1.remove d p).failure)] := by
  have hbefore : ∀ e ∈ ps.zipIdx, (ps ++ [p]).take e.2 = ps.take e.2 := by
    intro e he
    have hlt := List.snd_lt_of_mem_zipIdx he
    exact List.take_append_of_le_length (by omega)
  have hfirst : ps.zipIdx.map (fun e =>
        (e.1, ((root.removeAll d ((ps ++ [p]).take e.2)).1.remove d e.1).failure)) =
      removalOutcomes d ps root := by
    refine List.map_congr_left fun e he => ?_
    rw [hbefore e he]
  have hlast : (ps ++ [p]).take ps.length = ps := List.take_left
  rw [removalOutcomes, List.zipIdx_append, List.map_append, hfirst, Nat.zero_add,
    List.zipIdx_singleton, List.map_singleton, hlast]

/-- The paths whose removal is done at its turn. -/
def removable (d : Char) (paths : List String) (root : Node) : List String :=
  ((removalOutcomes d paths root).filter (·.2.isNone)).map Prod.fst

theorem removeAll_removable (d : Char) (paths : List String) (root : Node) :
    (root.removeAll d paths).2.failures =
        (removalOutcomes d paths root).filterMap (fun o => o.2.map (o.1, ·)) ∧
      (root.removeAll d paths).2.removed + (root.removeAll d paths).2.failures.length =
        paths.length ∧
      root.removeAll d (removable d paths root) =
        ((root.removeAll d paths).1, ⟨(root.removeAll d paths).2.removed, []⟩) := by
  induction paths using List.reverseRecOn with
  | nil => exact ⟨rfl, rfl, rfl⟩
  | append_singleton ps p ih =>
    obtain ⟨hfailures, hlength, hagain⟩ := ih
    rw [removeAll_concat, removable, removalOutcomes_concat, List.filterMap_append,
      List.filter_append, List.map_append, List.length_append, ← removable, ← hfailures]
    cases hfailure : ((root.removeAll d ps).1.remove d p).failure with
    | none =>
      refine ⟨by simp [Removal.record], ?_, ?_⟩
      · rw [Removal.record, ← hlength, List.length_singleton]
        exact Nat.add_right_comm ..
      · simp [removeAll_concat, hagain, Removal.record, hfailure]
    | some e =>
      refine ⟨by simp [Removal.record], ?_, ?_⟩
      · rw [Removal.record, ← hlength, List.length_append, List.length_singleton,
          List.length_singleton]
        exact (Nat.add_assoc ..).symm
      · simp [hagain, Removal.record, remove_unchanged hfailure]

end

/-- Paths that name nodes apart from each other, none of which moves what a later one goes through,
are removed with just the nodes they name.  Of any paths each is removed or told with why it failed
at its turn, and those that failed might as well have been left out. -/
theorem removals_take_out_what_is_named (d : Char) (paths : List String) (root : Node) :
    ((∀ p ∈ paths, root.Occupied d p) → (paths.Pairwise fun p q => root.Apart d p q) →
      (paths.Pairwise fun p q => ¬ Shifts d p q root) →
        root.removeAll d paths =
          (root.prune fun P => paths.any fun p => root.placeOf? (Path.segments d p) = some P,
            ⟨paths.length, []⟩)) ∧
    (root.removeAll d paths).2.failures =
      (removalOutcomes d paths root).filterMap (fun o => o.2.map (o.1, ·)) ∧
    (root.removeAll d paths).2.removed + (root.removeAll d paths).2.failures.length =
      paths.length ∧
    root.removeAll d (removable d paths root) =
      ((root.removeAll d paths).1, ⟨(root.removeAll d paths).2.removed, []⟩) := by
  refine ⟨fun hexist hapart horder => ?_, removeAll_removable d paths root⟩
  have hplace : ∀ p ∈ paths, root.placeOf? (Path.segments d p) =
      some ((root.placeOf? (Path.segments d p)).getD []) := by
    intro p hp
    obtain ⟨P, hP⟩ := (hexist p hp).exists_placeOf?
    rw [hP, Option.getD_some]
  have hspared : paths.Pairwise fun p q =>
      ¬ Disturbs ((root.placeOf? (Path.segments d p)).getD [])
        ((root.placeOf? (Path.segments d q)).getD []) :=
    (hapart.and horder).imp_of_mem fun hp hq h => not_disturbs (hplace _ hp) (hplace _ hq) h.1 h.2
  have hnamed : (fun P => paths.any fun p => P = (root.placeOf? (Path.segments d p)).getD []) =
      fun P => paths.any fun p => root.placeOf? (Path.segments d p) = some P := by
    funext P
    rw [Bool.eq_iff_iff, List.any_eq_true, List.any_eq_true]
    refine exists_congr fun p => and_congr_right fun hp => ?_
    rw [decide_eq_true_iff, decide_eq_true_iff, hplace p hp, Option.getD_some, Option.some.injEq,
      eq_comm]
  rw [removeAll, removeFrom_of_places
    (fun p hp => ⟨(occupied_iff.1 (hexist p hp)).1, hplace p hp⟩) hspared, hnamed,
    Removal.start, Nat.zero_add]

/-- An item of the first value of a repeated key, another repeated key, and a key below an earlier
item. -/
theorem removals_take_out_what_is_named_in_array :
    let items : List Node := [.object ⟨[("x", .single .null), ("y", .single (.int 3))]⟩, .int 1]
    let root : Node := .object
      ⟨[("b", .repeated [.int 5, .int 6]), ("a", .repeated [.array items, .int 7])]⟩
    let paths := ["a.+1", "b", ".a.0..x"]
    ((∀ p ∈ paths, root.Occupied '.' p) ∧ (paths.Pairwise fun p q => root.Apart '.' p q) ∧
      paths.Pairwise fun p q => ¬ Shifts '.' p q root) ∧
    root.removeAll '.' paths =
      (.object ⟨[("a", .repeated [.array [.object ⟨[("y", .single (.int 3))]⟩], .int 7])]⟩,
        ⟨3, []⟩) := by
  intro items root paths
  have hitem : root.placeOf? (Path.segments '.' "a.+1") = some [.key "a", .item 1] := by
    decide +kernel
  have hkey : root.placeOf? (Path.segments '.' "b") = some [.key "b"] := by decide +kernel
  have hbelow : root.placeOf? (Path.segments '.' ".a.0..x") =
      some [.key "a", .item 0, .key "x"] := by decide +kernel
  have hexist : ∀ p ∈ paths, root.Occupied '.' p := by
    simp only [paths, List.forall_mem_cons, List.not_mem_nil, false_imp_iff, implies_true, and_true]
    exact ⟨occupied_of_placeOf? (by decide +kernel) hitem,
      occupied_of_placeOf? (by decide +kernel) hkey,
      occupied_of_placeOf? (by decide +kernel) hbelow⟩
  have hapart : paths.Pairwise fun p q => root.Apart '.' p q := by
    simp only [paths, List.pairwise_cons, List.forall_mem_cons, List.not_mem_nil, false_imp_iff,
      implies_true, and_true, List.Pairwise.nil]
    exact ⟨⟨⟨_, _, hitem, hkey, by decide, by decide⟩, ⟨_, _, hitem, hbelow, by decide, by decide⟩⟩,
      ⟨_, _, hkey, hbelow, by decide, by decide⟩⟩
  have horder : paths.Pairwise fun p q => ¬ Shifts '.' p q root := by
    simp only [paths, List.pairwise_cons, List.forall_mem_cons, List.not_mem_nil, false_imp_iff,
      implies_true, and_true, List.Pairwise.nil]
    have hkeys {k l : String} {P Q : List Step} (hne : k ≠ l) :
        ¬ Disturbs (.key k :: P) (.key l :: Q) := by
      intro h
      cases h <;> exact hne rfl
    refine ⟨⟨not_shifts hitem hkey (hkeys (by decide)), not_shifts hitem hbelow ?_⟩,
      not_shifts hkey hbelow (hkeys (by decide))⟩
    intro h
    cases h with
    | step _ h =>
      cases h with
      | item h => exact absurd h (by decide)
  have hgone : (fun P => paths.any fun p => root.placeOf? (Path.segments '.' p) = some P) =
      fun P => [[.key "a", .item 1], [.key "b"], [.key "a", .item 0, .key "x"]].contains P := by
    funext P
    simp [paths, hitem, hkey, hbelow, eq_comm]
  have hremoved := (removals_take_out_what_is_named '.' paths root).1 hexist hapart horder
  rw [hgone] at hremoved
  exact ⟨⟨hexist, hapart, horder⟩, hremoved⟩

end ConfigTree.Node
