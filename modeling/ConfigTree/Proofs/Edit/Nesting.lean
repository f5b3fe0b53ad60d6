import ConfigTree.Proofs.Edit.Frame
import ConfigTree.Proofs.Edit.Resolution
import ConfigTree.Proofs.Edit.Session

/-! How deep a tree is after an edit.  A value that is set or merged takes the levels of its path and
its own, one more where it becomes an item; nothing else becomes deeper. -/

namespace ConfigTree

theorem Edited.andThen_of_failure_eq_none {α : Type} {e : Edited α} {f : α → Edited α}
    (h : (e.andThen f).failure = none) : e.failure = none ∧ e.andThen f = f e.value := by
  unfold andThen at h ⊢
  split at h
  · next he => exact ⟨he, rfl⟩
  · next he =>
    rw [h] at he
    cases he

namespace Node

/-! ## Merging objects -/

section

variable {limit : Nat}

theorem depth_object_le {o o' : Multimap Node} {n : Node} {k : Nat}
    (ho : (object o).depth ≤ k + 1) (hn : n.depth ≤ k)
    (h : ∀ m ∈ o'.values, m = n ∨ m ∈ o.values) : (object o').depth ≤ k + 1 := by
  refine depth_le_succ_iff.2 fun m hm => ?_
  rcases h m hm with rfl | hm
  · exact hn
  · exact depth_le_succ_iff.1 ho m hm

mutual

theorem depth_mergeUnder_le {depth : Nat} {key : String} {target : Multimap Node} {k : Nat}
    (ht : (object target).depth ≤ k + 1) : (n : Node) → n.depth ≤ k →
      (object (mergeUnder limit depth key target n).value).depth ≤ k + 1
  | object ⟨incoming⟩, hn => by
    obtain ⟨k, rfl⟩ : ∃ j, k = j + 1 := ⟨k - 1, by simp only [Node.depth] at hn; omega⟩
    rw [mergeUnder]
    split
    · next o ho =>
      have ho : (object o).depth ≤ k + 1 :=
        depth_le_succ_iff.1 ht _ (Multimap.mem_values_of_get? ho)
      refine depth_object_le ht ?_ fun _ => Multimap.mem_values_setFirst
      split
      · exact ho
      · refine depth_mergeMembers_le ho incoming ?_
        simpa only [Node.depth, Nat.add_comm 1, Nat.add_le_add_iff_right] using hn
    · exact depth_object_le ht hn fun _ => Multimap.mem_values_insert
  | array items, hn => by
    rw [mergeUnder]
    split
    · next old ho =>
      refine depth_object_le ht ?_ fun _ => Multimap.mem_values_setFirst
      rw [depth_append]
      exact Nat.max_le.2 ⟨depth_le_succ_iff.1 ht _ (Multimap.mem_values_of_get? ho), hn⟩
    · exact depth_object_le ht hn fun _ => Multimap.mem_values_insert
  | null, hn | bool _, hn | int _, hn | float _, hn | str _, hn | time _, hn | userdata _, hn =>
    depth_object_le ht hn fun _ => Multimap.mem_values_insert
termination_by structural n => n

theorem depth_mergeRepeats_le {depth : Nat} {key : String} {target : Multimap Node} {k : Nat}
    (ht : (object target).depth ≤ k + 1) : (ns : List Node) → depthItems ns ≤ k →
      (object (mergeRepeats limit depth key target ns).value).depth ≤ k + 1
  | [], _ => ht
  | n :: ns, hn => by
    rw [depthItems, Nat.max_le] at hn
    rw [mergeRepeats]
    exact Edited.value_andThen (motive := fun t => (object t).depth ≤ k + 1)
      (depth_mergeUnder_le ht n hn.1) fun t ht => depth_mergeRepeats_le ht ns hn.2
termination_by structural ns => ns

theorem depth_mergeMembers_le {depth : Nat} {target : Multimap Node} {k : Nat}
    (ht : (object target).depth ≤ k + 1) : (es : List (String × Member Node)) →
      depthEntries es ≤ k → (object (mergeMembers limit depth target es).value).depth ≤ k + 1
  | [], _ => ht
  | (key, .single n) :: es, hn => by
    rw [depthEntries, Nat.max_le] at hn
    rw [mergeMembers]
    exact Edited.value_andThen (motive := fun t => (object t).depth ≤ k + 1)
      (depth_mergeUnder_le ht n hn.1) fun t ht => depth_mergeMembers_le ht es hn.2
  | (key, .repeated ns) :: es, hn => by
    rw [depthEntries, Nat.max_le] at hn
    rw [mergeMembers]
    exact Edited.value_andThen (motive := fun t => (object t).depth ≤ k + 1)
      (depth_mergeRepeats_le ht ns hn.1) fun t ht => depth_mergeMembers_le ht es hn.2
termination_by structural es => es

end

/-! ## Values that are put in -/

/-- What has been added to the node is at most `levels` deep. -/
def Within (n : Node) (levels : Nat) (n' : Node) : Prop := n'.depth ≤ max n.depth levels

section

variable {n n' m : Node} {levels : Nat}

theorem within_self (n : Node) (levels : Nat) : Within n levels n := Nat.le_max_left ..

theorem Within.mono {levels' : Nat} (h : Within n levels n') (hle : levels ≤ levels') :
    Within n levels' n' := by
  unfold Within at h ⊢
  omega

/-- Among the nodes inside a node at most one is new. -/
theorem within_of_mem (h : ∀ x ∈ n'.inner, x = m ∨ x ∈ n.inner) :
    Within n (1 + m.depth) n' := by
  obtain ⟨k, hk⟩ : ∃ k, max n.depth (1 + m.depth) = k + 1 :=
    ⟨max n.depth (1 + m.depth) - 1, by omega⟩
  rw [Within, hk, depth_le_succ_iff]
  intro x hx
  rcases h x hx with rfl | hx
  · omega
  · have hlt := depth_lt_of_mem_inner hx
    omega

end

/-- Whether or not they are merged to the end, objects do not reach deeper together. -/
theorem within_mergeObjects (o incoming : Multimap Node) :
    Within (object o) (object incoming).depth (object (mergeObjects limit 1 o incoming).value) := by
  obtain ⟨entries⟩ := incoming
  unfold mergeObjects
  split
  · exact within_self ..
  · obtain ⟨k, hk⟩ : ∃ k, max (object o).depth (object ⟨entries⟩).depth = k + 1 :=
      ⟨max (object o).depth (object ⟨entries⟩).depth - 1, by simp only [depth]; omega⟩
    rw [Within, hk]
    refine depth_mergeMembers_le (by omega) entries ?_
    simp only [depth] at hk
    omega

/-! ## What is merged stays -/

theorem get?_mergeUnder_of_ne {depth : Nat} {key key' : String} (h : key' ≠ key)
    (target : Multimap Node) (n : Node) :
    (mergeUnder limit depth key target n).value.get? key' = target.get? key' := by
  have hinsert (m : Node) : (target.insert key m).get? key' = target.get? key' := by
    rw [Multimap.get?, Multimap.get?, Multimap.member?_insert_of_ne h]
  have hset (m : Node) : (target.setFirst key m).get? key' = target.get? key' := by
    rw [Multimap.get?, Multimap.get?, Multimap.setFirst, Multimap.member?_modify_of_ne h]
  cases n with
  | object incoming =>
    obtain ⟨incoming⟩ := incoming
    rw [mergeUnder]
    split
    · exact hset _
    · exact hinsert _
  | array items =>
    rw [mergeUnder]
    split
    · exact hset _
    · exact hinsert _
  | _ => exact hinsert _

/-- Every value of the entries stands under its key, or something as deep does. -/
def Contains (o : Multimap Node) (es : List (String × Member Node)) : Prop :=
  ∀ e ∈ es, ∀ n ∈ e.2.values, ∃ m, o.get? e.1 = some m ∧ n.depth ≤ m.depth

theorem Contains.depth_le {o : Multimap Node} {es : List (String × Member Node)}
    (h : Contains o es) : (object ⟨es⟩).depth ≤ (object o).depth := by
  obtain ⟨k, hk⟩ := Nat.exists_eq_add_one.2 (depth_pos_iff.2 (rfl : (object o).isCompound = true))
  rw [hk, depth_le_succ_iff]
  intro n hn
  obtain ⟨e, he, hn⟩ := Multimap.mem_values_iff.1 hn
  obtain ⟨m, hm, hle⟩ := h e he n hn
  exact hle.trans (depth_le_succ_iff.1 hk.le m (Multimap.mem_values_of_get? hm))

/-- Entries of an object in which every key, here and below, has one value. -/
structure OneEach (es : List (String × Member Node)) : Prop where
  keys : (es.map Prod.fst).Nodup
  single : ∀ e ∈ es, e.2.isRepeated = false
  keysDistinct : ∀ e ∈ es, ∀ n ∈ e.2.values, n.Everywhere KeysDistinct
  noRepeats : ∀ e ∈ es, ∀ n ∈ e.2.values, n.NoRepeats

theorem oneEach_of_object {es : List (String × Member Node)}
    (hkeys : (object ⟨es⟩).Everywhere KeysDistinct) (hrep : (object ⟨es⟩).NoRepeats) :
    OneEach es where
  keys := hkeys.here
  single := hrep.here
  keysDistinct _ he _ hn := hkeys.inner (Multimap.mem_values_of_mem he hn)
  noRepeats _ he _ hn := hrep.inner (Multimap.mem_values_of_mem he hn)

theorem OneEach.tail {e : String × Member Node} {es : List (String × Member Node)}
    (h : OneEach (e :: es)) : OneEach es where
  keys := (List.nodup_cons.1 h.keys).2
  single e he := h.single e (List.mem_cons_of_mem _ he)
  keysDistinct e he := h.keysDistinct e (List.mem_cons_of_mem _ he)
  noRepeats e he := h.noRepeats e (List.mem_cons_of_mem _ he)

mutual

theorem exists_of_mergeUnder {depth : Nat} {key : String} {target : Multimap Node} : (n : Node) →
    n.Everywhere KeysDistinct → n.NoRepeats →
      (mergeUnder limit depth key target n).failure = none →
        ∃ m, (mergeUnder limit depth key target n).value.get? key = some m ∧ n.depth ≤ m.depth
  | object ⟨incoming⟩, hkeys, hrep, hdone => by
    rw [mergeUnder] at hdone ⊢
    split at hdone
    · next o ho =>
      split at hdone
      · cases hdone
      · next hlimit =>
        refine ⟨_, Multimap.get?_setFirst_self ho, ?_⟩
        rw [if_neg hlimit]
        exact (contains_mergeMembers incoming (oneEach_of_object hkeys hrep) hdone).2.depth_le
    · exact ⟨_, Multimap.get?_insert_self .., le_rfl⟩
  | array items, _, _, _ => by
    rw [mergeUnder]
    split
    · next old ho =>
      refine ⟨_, Multimap.get?_setFirst_self ho, ?_⟩
      rw [depth_append]
      exact Nat.le_max_right ..
    · exact ⟨_, Multimap.get?_insert_self .., le_rfl⟩
  | null, _, _, _ | bool _, _, _, _ | int _, _, _, _ | float _, _, _, _ | str _, _, _, _
  | time _, _, _, _ | userdata _, _, _, _ => ⟨_, Multimap.get?_insert_self .., le_rfl⟩
termination_by structural n => n

theorem contains_mergeMembers {depth : Nat} {target : Multimap Node} :
    (es : List (String × Member Node)) → OneEach es →
      (mergeMembers limit depth target es).failure = none →
        (∀ key ∉ es.map Prod.fst,
          (mergeMembers limit depth target es).value.get? key = target.get? key) ∧
        Contains (mergeMembers limit depth target es).value es
  | [], _, _ => ⟨fun _ _ => rfl, nofun⟩
  | (key, .single n) :: es, hes, hdone => by
    rw [mergeMembers] at hdone ⊢
    obtain ⟨hfirst, heq⟩ := Edited.andThen_of_failure_eq_none hdone
    rw [heq] at hdone ⊢
    have hnew : key ∉ es.map Prod.fst := (List.nodup_cons.1 hes.keys).1
    obtain ⟨m, hm, hle⟩ := exists_of_mergeUnder n
      (hes.keysDistinct _ List.mem_cons_self n List.mem_cons_self)
      (hes.noRepeats _ List.mem_cons_self n List.mem_cons_self) hfirst
    obtain ⟨hkeep, hcontains⟩ := contains_mergeMembers es hes.tail hdone
    refine ⟨fun key' hkey' => ?_, fun e he => ?_⟩
    · rw [List.map_cons, List.mem_cons, not_or] at hkey'
      rw [hkeep key' hkey'.2, get?_mergeUnder_of_ne hkey'.1]
    · rcases List.mem_cons.1 he with rfl | he
      · intro n' hn'
        obtain rfl : n' = n := List.mem_singleton.1 hn'
        -- The later entries are of other keys, so what was merged for this one is still there.
        exact ⟨m, (hkeep key hnew).trans hm, hle⟩
      · exact hcontains e he
  | (key, .repeated ns) :: es, hes, _ => by
    cases hes.single _ List.mem_cons_self
termination_by structural es => es

end

end

/-! ## Values at the bottom -/

/-- The tree has become `n'` by something in it that reaches `levels` down. -/
structure Deepened (n : Node) (levels : Nat) (n' : Node) : Prop where
  low : levels ≤ n'.depth
  high : n'.depth ≤ max n.depth levels

section

variable {n n' m child : Node} {levels : Nat}

theorem deepened_self (n value : Node) : Deepened n value.depth value := ⟨le_rfl, le_max_right ..⟩

/-- Among the nodes inside a node one is new. -/
theorem deepened_of_mem (hm : m ∈ n'.inner) (hrest : ∀ x ∈ n'.inner, x = m ∨ x ∈ n.inner) :
    Deepened n (1 + m.depth) n' := by
  have hlt := depth_lt_of_mem_inner hm
  exact ⟨by omega, within_of_mem hrest⟩

/-- Among the nodes inside a node one has become deeper. -/
theorem Deepened.inside (h : Deepened child levels m) (hchild : child ∈ n.inner)
    (hm : m ∈ n'.inner) (hrest : ∀ x ∈ n'.inner, x = m ∨ x ∈ n.inner) :
    Deepened n (1 + levels) n' := by
  have hnew := deepened_of_mem hm hrest
  have hlt := depth_lt_of_mem_inner hchild
  have hlow := h.low
  have hhigh := h.high
  exact ⟨by have := hnew.low; omega, by have := hnew.high; omega⟩

theorem Deepened.putChild {fragment : String} (h : Deepened child levels m)
    (hchild : n.child? fragment = some child) : Deepened n (1 + levels) (n.putChild fragment m) :=
  h.inside (mem_inner_of_child? hchild) (mem_inner_of_child? (child?_putChild hchild m))
    fun _ => mem_inner_putChild

theorem deepened_update? {β : Type} {f : Node → Node × β} {segments : List String} {r : Node × β}
    (h : n.update? f segments = some r)
    (hf : ∀ m, n.follow? segments = some m → Deepened m levels (f m).1) :
    Deepened n (segments.length + levels) r.1 :=
  rises_update? (R := fun levels n n' => Deepened n levels n')
    (fun hchild h => h.putChild hchild) h hf

end

section

variable {limit : Nat} {d : Char} {path : String} {root value parent : Node} {location : Location}
  {levels : Nat}

theorem deepened_editParent {f : Node → Edited Node}
    (hdone : (root.editParent d path f).failure = none)
    (hf : ∀ parent, root.parentOf? d path = some parent → (f parent).failure = none →
      Deepened parent levels (f parent).value) :
    Deepened root ((Path.parentSegments d path).length + levels)
      (root.editParent d path f).value := by
  rw [editParent, updateParentOf?_eq_update?] at hdone ⊢
  split at hdone
  · next hr =>
    refine deepened_update? hr fun m hm => hf m ((parentOf?_eq_follow? ..).trans hm) ?_
    obtain ⟨m', hm', -, hfailure⟩ := follow?_of_update? hr
    cases Option.some.inj (hm.symm.trans hm')
    exact hfailure.symm.trans hdone
  · cases hdone

theorem deepened_attach (hdone : (attach location path value parent).failure = none) :
    Deepened parent (1 + value.depth) (attach location path value parent).value := by
  cases parent with
  | array items =>
    have happend : Deepened (array items) (1 + value.depth) (array (items ++ [value])) :=
      deepened_of_mem (by simp) fun x hx => by simpa [or_comm] using hx
    simp only [attach]
    split
    · next i _ =>
      split
      · next h =>
        have hi : i < items.length := by simpa using (Bool.and_eq_true_iff.1 h).2
        exact deepened_of_mem (List.mem_set hi value) fun x hx =>
          (List.mem_or_eq_of_mem_set hx).symm
      · exact happend
    · exact happend
  | object o =>
    exact deepened_of_mem (Multimap.mem_values_of_get? (Multimap.get?_insert_self ..))
      fun x => Multimap.mem_values_insert
  | _ => cases hdone

theorem length_segments (h : ¬ (Path.cut d path).isRoot = true) :
    (Path.segments d path).length = (Path.parentSegments d path).length + 1 := by
  rw [Path.segments_eq_of_cut (eq_false_of_ne_true h), List.length_append, List.length_singleton]

/-- A value that is set takes the levels of its path and its own. -/
theorem deepened_set (hdone : (root.set d path value).failure = none) :
    Deepened root ((Path.segments d path).length + value.depth) (root.set d path value).value := by
  unfold set at hdone ⊢
  split at hdone
  · cases hdone
  · next location h =>
    rw [cut_of_locate? h] at hdone ⊢
    split at hdone
    · next hroot =>
      rw [Path.segments_eq_nil_of_isRoot hroot, List.length_nil, Nat.zero_add, if_pos hroot]
      exact deepened_self root value
    · next hroot =>
      rw [length_segments hroot, Nat.add_assoc, if_neg hroot]
      exact deepened_editParent hdone fun _ _ => deepened_attach

theorem setLevels_pos (hdone : (root.set d path value).failure = none)
    (hpos : 0 < (root.set d path value).value.depth) :
    0 < (Path.segments d path).length + value.depth := by
  by_cases hroot : (Path.cut d path).isRoot = true
  · unfold set at hdone hpos
    split at hdone
    · cases hdone
    · next location h =>
      rw [h] at hpos
      simp only at hpos
      rw [cut_of_locate? h, if_pos hroot] at hpos
      exact Nat.add_pos_right _ hpos
  · rw [length_segments hroot]
    omega

/-! ## Values that are merged -/

/-- The levels a value takes where it is merged with what is there: what is no array becomes an item
of one, and two scalars become the items of a new one. -/
def mergedLevels (value : Node) : Option Node → Nat
  | none => value.depth
  | some (array _) => if value.kind = .array then value.depth else 1 + value.depth
  | some target => if target.isCompound || value.isCompound then value.depth else 1

theorem mergedLevels_array_of_ne {old : List Node} (h : ∀ items, value ≠ array items) :
    value.mergedLevels (some (array old)) = 1 + value.depth := by
  have hkind : value.kind ≠ .array := by
    cases value with
    | array items => exact absurd rfl (h items)
    | _ => nofun
  rw [mergedLevels, if_neg hkind]

theorem mergedLevels_of_ne_array {target : Node} (h : ∀ old, target ≠ array old) :
    value.mergedLevels (some target) =
      if target.isCompound || value.isCompound then value.depth else 1 := by
  cases target with
  | array old => exact absurd rfl (h old)
  | _ => rfl

theorem deepened_mergeObjects {target incoming : Multimap Node}
    (hkeys : (object incoming).Everywhere KeysDistinct) (hrep : (object incoming).NoRepeats)
    (hdone : (mergeObjects limit 1 target incoming).failure = none) :
    Deepened (object target) (object incoming).depth
      (object (mergeObjects limit 1 target incoming).value) := by
  refine ⟨?_, within_mergeObjects target incoming⟩
  obtain ⟨entries⟩ := incoming
  unfold mergeObjects at hdone ⊢
  split at hdone
  · cases hdone
  · next hlimit =>
    rw [if_neg hlimit]
    exact (contains_mergeMembers entries (oneEach_of_object hkeys hrep) hdone).2.depth_le

theorem depth_scalars {a b : Node} (ha : a.isCompound = false) (hb : b.isCompound = false) :
    (array [a, b]).depth = 1 := by
  simp [depth, depthItems, depth_of_scalar ha, depth_of_scalar hb]

theorem deepened_combine {target : Node} {result : Edited Node}
    (hkeys : value.Everywhere KeysDistinct) (hrep : value.NoRepeats)
    (h : combine limit target value = .merged result) (hdone : result.failure = none) :
    Deepened target (value.mergedLevels (some target)) result.value := by
  unfold combine at h
  split at h
  · next old items =>
    cases h
    have hlevels : (array items).mergedLevels (some (array old)) = (array items).depth := rfl
    rw [hlevels]
    exact ⟨(depth_append old items).symm ▸ Nat.le_max_right .., (depth_append old items).le⟩
  · cases h
    exact deepened_mergeObjects hkeys hrep hdone
  · next old hne =>
    cases h
    rw [mergedLevels_array_of_ne hne]
    exact deepened_of_mem (by simp [Edited.done]) fun x hx => by
      simpa [Edited.done, or_comm] using hx
  · split at h
    · cases h
    · next hscalar =>
      cases h
      simp only [Bool.or_eq_true, not_or, Bool.not_eq_true] at hscalar
      have hitems := depth_scalars hscalar.1 hscalar.2
      rw [mergedLevels_of_ne_array, hscalar.1, hscalar.2]
      · exact ⟨hitems.ge, hitems.le.trans (Nat.le_max_right ..)⟩
      · rintro old rfl
        cases hscalar.1

theorem mergedLevels_of_leftOver {target left : Node}
    (h : combine limit target value = .leftOver left) :
    value.mergedLevels (some target) = value.depth := by
  unfold combine at h
  split at h
  · cases h
  · cases h
  · cases h
  · next hnarray _ _ =>
    split at h
    · next hcompound => rw [mergedLevels_of_ne_array hnarray, if_pos hcompound]
    · cases h

theorem mergedLevels_pos_of_merged {target : Node} {result : Edited Node}
    (h : combine limit target value = .merged result) :
    0 < value.mergedLevels (some target) := by
  cases hvalue : value.isCompound with
  | true =>
    have hdepth := depth_pos_iff.2 hvalue
    cases target with
    | array old =>
      rw [mergedLevels]
      split <;> omega
    | _ => rwa [mergedLevels_of_ne_array (fun _ h => by cases h), hvalue, Bool.or_true, if_pos rfl]
  | false =>
    unfold combine at h
    split at h
    · cases hvalue
    · cases hvalue
    · next hne =>
      rw [mergedLevels_array_of_ne hne]
      omega
    · next hnarray _ _ =>
      split at h
      · cases h
      · next hscalar =>
        rw [mergedLevels_of_ne_array hnarray, if_neg hscalar]
        exact Nat.one_pos

theorem deepened_keepBoth {child : Node} (hchild : parent.child? location.cut.fragment = some child)
    (hdone : (keepBoth location path value parent).failure = none) :
    Deepened parent (1 + value.depth) (keepBoth location path value parent).value := by
  unfold keepBoth at hdone ⊢
  split at hdone
  · next o =>
    obtain ⟨m, hm, -⟩ := Option.bind_eq_some_iff.1 hchild
    have hpush : (location.cut.fragment, m.push value) ∈
        (o.modify location.cut.fragment (·.push value)).entries :=
      Multimap.mem_of_member?_eq_some (by rw [Multimap.member?_modify_self, hm, Option.map_some])
    exact deepened_of_mem (Multimap.mem_values_of_mem hpush (by simp))
      fun x => Multimap.mem_values_modify (Multimap.adds_push value)
  · exact deepened_attach hdone

theorem deepened_mergeChild (hkeys : value.Everywhere KeysDistinct) (hrep : value.NoRepeats)
    (hdone : (mergeChild limit location path value parent).failure = none) :
    Deepened parent (1 + value.mergedLevels (parent.child? location.cut.fragment))
      (mergeChild limit location path value parent).value := by
  unfold mergeChild at hdone ⊢
  split at hdone
  · cases hdone
  · next child hchild =>
    rw [hchild]
    split at hdone
    · next hm => exact (deepened_combine hkeys hrep hm hdone).putChild hchild
    · next hm =>
      rw [mergedLevels_of_leftOver hm]
      rw [eq_of_combine_leftOver hm] at hdone ⊢
      exact deepened_keepBoth hchild hdone

/-- A value that is merged takes the levels of its path and those of its place. -/
theorem deepened_merge (hkeys : value.Everywhere KeysDistinct) (hrep : value.NoRepeats)
    (hdone : (root.merge limit d path value).failure = none) :
    Deepened root ((Path.segments d path).length + value.mergedLevels (root.lookup? d path))
      (root.merge limit d path value).value := by
  unfold merge at hdone ⊢
  split at hdone
  · cases hdone
  · next location h =>
    obtain ⟨parent, hparent, -⟩ := Option.map_eq_some_iff.1 h
    have hcut := cut_of_locate? h
    split at hdone
    · next hroot =>
      rw [if_pos hroot]
      rw [hcut] at hroot
      rw [lookup?_of_isRoot hroot, Path.segments_eq_nil_of_isRoot hroot, List.length_nil,
        Nat.zero_add]
      split at hdone
      · next hm => exact deepened_combine hkeys hrep hm hdone
      · cases hdone
    · next hroot =>
      rw [if_neg hroot]
      rw [hcut] at hroot
      rw [length_segments hroot, Nat.add_assoc]
      refine deepened_editParent hdone fun parent' hparent' hdone => ?_
      cases Option.some.inj (hparent.symm.trans hparent')
      split at hdone
      · next ho =>
        rw [if_pos ho, lookup?_eq_bind_child? (eq_false_of_ne_true hroot), hparent, ← hcut]
        exact deepened_mergeChild hkeys hrep hdone
      · next ho =>
        rw [if_neg ho, lookup?_of_vacant h (eq_false_of_ne_true hroot) (eq_false_of_ne_true ho)]
        exact deepened_attach hdone

theorem mergedLevels_pos (hdone : (root.merge limit d path value).failure = none) :
    0 < (Path.segments d path).length + value.mergedLevels (root.lookup? d path) := by
  by_cases hroot : (Path.cut d path).isRoot = true
  · unfold merge at hdone
    split at hdone
    · cases hdone
    · next location h =>
      rw [cut_of_locate? h, if_pos hroot] at hdone
      split at hdone
      · next hm =>
        rw [lookup?_of_isRoot hroot]
        exact Nat.add_pos_right _ (mergedLevels_pos_of_merged hm)
      · cases hdone
  · rw [length_segments hroot]
    omega

end

end Node

end ConfigTree
