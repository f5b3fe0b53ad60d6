import ConfigTree.Proofs.Edit.Frame
import ConfigTree.Proofs.Edit.Replace
import ConfigTree.Proofs.Edit.Set

/-! Where a value comes to stand that is set.  An object takes it under the final fragment, as the
only value there; an array takes it in the place of the item that the fragment counts to, and behind
the last one if it counts to none.  So the path leads to the value afterwards, unless an array had
to put it elsewhere. -/

namespace ConfigTree.Node

/-- What a compound node becomes when `value` is put under `fragment`. -/
inductive Attached (fragment : String) (value : Node) : Node → Node → Prop
  /-- A key stays where it was or comes last, and holds nothing else. -/
  | key {o o' : Multimap Node} (keys : o'.keys = withKey fragment o.keys)
    (member : o'.member? fragment = some (.single value)) (others : AgreeExcept fragment o o') :
    Attached fragment value (object o) (object o')
  | item {items : List Node} {i : Nat} (index : index? fragment = some i)
    (lt : i < items.length) : Attached fragment value (array items) (array (items.set i value))
  | behind {items : List Node} (beyond : ∀ i, index? fragment = some i → items.length ≤ i) :
    Attached fragment value (array items) (array (items ++ [value]))

section

variable {d : Char} {path fragment : String} {root parent parent' value : Node}
  {location : Location} {items : List Node}

theorem attached_insert (fragment : String) (value : Node) (o : Multimap Node) :
    Attached fragment value (object o) (object (o.insert fragment value)) :=
  .key (Multimap.keys_insert ..) (Multimap.member?_insert_self ..)
    fun _ hkey => Multimap.member?_insert_of_ne hkey ..

theorem attached_attach (path : String) (value : Node) (hc : parent.isCompound = true)
    (hoccupant : location.occupant = parent.child? location.cut.fragment) :
    Attached location.cut.fragment value parent (attach location path value parent).value := by
  cases parent with
  | array items =>
    cases hi : index? location.cut.fragment with
    | none =>
      have hbeyond : ∀ i, index? location.cut.fragment = some i → items.length ≤ i := by
        intro i hsome
        rw [hi] at hsome
        cases hsome
      simp only [attach, hi]
      exact .behind hbeyond
    | some i =>
      have hitem : location.occupant = items[i]? := by
        rw [hoccupant, child?, hi, Option.bind_some]
      by_cases hlt : i < items.length
      · have hoccupied : location.isOccupied = true := by
          rw [Location.isOccupied, hitem, List.getElem?_eq_getElem hlt, Option.isSome_some]
        simp only [attach, hi, hoccupied, hlt, decide_true, Bool.and_self, if_true]
        exact .item hi hlt
      · have hbeyond : ∀ j, index? location.cut.fragment = some j → items.length ≤ j := by
          intro j hj
          cases Option.some.inj (hi.symm.trans hj)
          exact Nat.le_of_not_lt hlt
        simp only [attach, hi, hlt, decide_false, Bool.and_false, Bool.false_eq_true, if_false]
        exact .behind hbeyond
  | object o => exact attached_insert location.cut.fragment value o
  | _ => cases hc

theorem attach_of_scalar (hc : parent.isCompound = false) :
    attach location path value parent = .failed parent (.invalidParent path parent.kind) := by
  cases parent with
  | array items => cases hc
  | object o => cases hc
  | _ => rfl

theorem set_of_isRoot (hroot : (Path.cut d path).isRoot = true) :
    root.set d path value = .done value := by
  unfold set
  simp only [locate?_of_isRoot hroot, hroot, if_true]

theorem locate?_of_no_parent (h : root.parentOf? d path = none) : root.locate? d path = none := by
  rw [locate?, h, Option.map_none]

theorem set_of_no_parent (h : root.parentOf? d path = none) :
    root.set d path value = .failed root (.parentNotFound path) := by
  unfold set
  simp only [locate?_of_no_parent h]

/-- A compound parent takes the value; nothing else in the tree changes. -/
theorem set_of_compound (value : Node) (hroot : (Path.cut d path).isRoot = false)
    (hparent : root.parentOf? d path = some parent) (hc : parent.isCompound = true) :
    (root.set d path value).failure = none ∧ ∃ parent',
      Attached (Path.cut d path).fragment value parent parent' ∧
        (root.set d path value).value = root.replace (Path.parentSegments d path) parent' ∧
        (root.set d path value).value.parentOf? d path = some parent' := by
  have hset : root.set d path value = _ := set_of_parentOf? hroot hparent
  generalize hlocation : Location.mk (Path.cut d path) parent
    (parent.child? (Path.cut d path).fragment) = location at hset
  have hcut : location.cut = Path.cut d path := by rw [← hlocation]
  have hoccupant : location.occupant = parent.child? location.cut.fragment := by rw [← hlocation]
  rw [hset, ← hcut]
  refine ⟨(editParent_of_some hparent).1.trans (failure_attach hc), _,
    attached_attach path value hc hoccupant, ?_, (editParent_of_some hparent).2⟩
  rw [editParent_eq_replace hparent]

theorem failure_set_iff :
    (root.set d path value).failure = none ↔ (Path.cut d path).isRoot = true ∨
      ∃ parent, root.parentOf? d path = some parent ∧ parent.isCompound = true := by
  cases hroot : (Path.cut d path).isRoot with
  | true => simp [set_of_isRoot hroot, Edited.done]
  | false =>
    cases hparent : root.parentOf? d path with
    | none => simp [set_of_no_parent hparent, Edited.failed]
    | some parent =>
      cases hc : parent.isCompound with
      | true => simp [(set_of_compound value hroot hparent hc).1, hc]
      | false =>
        rw [set_of_parentOf? hroot hparent, (editParent_of_some hparent).1]
        simp [attach_of_scalar hc, hc, Edited.failed]

/-- An array that has no place at the fragment holds the value as its last item. -/
theorem Attached.eq_append (h : Attached fragment value (array items) parent')
    (hplace : ¬ (array items).HasPlace fragment) : parent' = array (items ++ [value]) := by
  cases h with
  | item hi hlt => exact absurd ⟨_, hi, Nat.le_of_lt hlt⟩ hplace
  | behind => rfl

theorem child?_append_of_no_place (hplace : ¬ (array items).HasPlace fragment) :
    (array (items ++ [value])).child? fragment = none := by
  cases hi : index? fragment with
  | none => rw [child?, hi, Option.bind_none]
  | some i =>
    have hlt : items.length < i := Nat.lt_of_not_le fun hle => hplace ⟨i, hi, hle⟩
    rw [child?, hi, Option.bind_some, List.getElem?_eq_none_iff, List.length_append,
      List.length_singleton]
    omega

end

/-- A value is set at the root, or where the parent is an object or an array, and nowhere else.  It
stands as the only value under its key, in the place of an item, or behind the items.  Then the path
leads to it, unless it stands behind items that the path does not count to the end of; there it
stands under the next index. -/
theorem value_is_set_where_path_leads (root : Node) (d : Char) (path : String) (value : Node) :
    let edited := root.set d path value
    let fragment := (Path.cut d path).fragment
    (edited.failure = none ↔ (Path.cut d path).isRoot = true ∨
      ∃ parent, root.parentOf? d path = some parent ∧ parent.isCompound = true) ∧
    ((Path.cut d path).isRoot = true →
      edited.value = value ∧ edited.value.lookup? d path = some value) ∧
    ((Path.cut d path).isRoot = false → ∀ parent, root.parentOf? d path = some parent →
      parent.isCompound = true →
        (∃ parent', Attached fragment value parent parent' ∧
          edited.value = root.replace (Path.parentSegments d path) parent' ∧
          edited.value.parentOf? d path = some parent') ∧
        (parent.HasPlace fragment → edited.value.lookup? d path = some value) ∧
        ∀ items, parent = array items → ¬ parent.HasPlace fragment →
          edited.value.lookup? d path = none ∧
            ∀ s, index? s = some items.length →
              edited.value.follow? (Path.parentSegments d path ++ [s]) = some value) := by
  intro edited fragment
  refine ⟨failure_set_iff, fun hroot => ?_, fun hroot parent hparent hc => ?_⟩
  · have hvalue : edited.value = value := congrArg Edited.value (set_of_isRoot hroot)
    exact ⟨hvalue, hvalue ▸ lookup?_of_isRoot hroot _⟩
  · obtain ⟨-, parent', hattached, hreplace, hparent'⟩ :=
      set_of_compound value hroot hparent hc
    refine ⟨⟨parent', hattached, hreplace, hparent'⟩,
      fun hplace => (lookup?_set hroot hparent hplace).2, ?_⟩
    rintro items rfl hplace
    cases hattached.eq_append hplace
    refine ⟨?_, fun s hs => ?_⟩
    · rw [lookup?_eq_bind_child? hroot, hparent', Option.bind_some,
        child?_append_of_no_place hplace]
    · rw [parentOf?_eq_follow?] at hparent'
      rw [follow?_append, hparent', Option.bind_some, follow?, child?, hs, Option.bind_some,
        List.getElem?_concat_length, Option.bind_some, follow?]

/-- Below the first value of a repeated key, a fragment that is no index puts the value behind the
items. -/
theorem value_is_set_where_path_leads_behind_items :
    let items : List Node := [.int 1, .int 2]
    let root : Node := .object ⟨[("a", .repeated [.array items, .int 7])]⟩
    let edited := root.set '.' "a..x" .null
    ((Path.cut '.' "a..x").isRoot = false ∧ root.parentOf? '.' "a..x" = some (.array items) ∧
      ¬ (Node.array items).HasPlace "x") ∧
    edited.failure = none ∧ edited.value.lookup? '.' "a..x" = none ∧
      edited.value.follow? ["a", "+2"] = some .null := by
  intro items root edited
  have hcut : Path.cut '.' "a..x" = ⟨some "a.", "x"⟩ := by decide +kernel
  have hsegments : Path.parentSegments '.' "a..x" = ["a"] := by decide +kernel
  have hroot : (Path.cut '.' "a..x").isRoot = false := by rw [hcut]; rfl
  have hparent : root.parentOf? '.' "a..x" = some (.array items) := by
    rw [parentOf?_eq_follow?, hsegments]
    rfl
  have hplace : ¬ (Node.array items).HasPlace "x" := by
    rintro ⟨i, hi, -⟩
    have hnone : index? "x" = none := by decide +kernel
    rw [hnone] at hi
    cases hi
  obtain ⟨hdone, -, hset⟩ := value_is_set_where_path_leads root '.' "a..x" .null
  obtain ⟨-, -, hbehind⟩ := hset hroot _ hparent rfl
  rw [hsegments, hcut] at hbehind
  obtain ⟨hlookup, hnext⟩ := hbehind items rfl hplace
  exact ⟨⟨hroot, hparent, hplace⟩, hdone.2 (.inr ⟨_, hparent, rfl⟩), hlookup,
    hnext "+2" (by decide +kernel)⟩

end ConfigTree.Node
