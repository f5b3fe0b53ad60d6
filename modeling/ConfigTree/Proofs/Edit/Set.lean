import ConfigTree.Proofs.Edit.Update

/-! Setting a value.  Afterwards the path leads to the value, and what holds everywhere in the tree
and in the value still holds everywhere. -/

namespace ConfigTree.Node

/-- A value has a place there: under any key of an object, and in an array where an item stands or
right behind the last one. -/
def HasPlace (fragment : String) : Node → Prop
  | object _ => True
  | array items => ∃ i, index? fragment = some i ∧ i ≤ items.length
  | _ => False

section

variable {d : Char} {path : String} {root parent value : Node} {location : Location}

theorem HasPlace.isCompound {fragment : String} (h : parent.HasPlace fragment) :
    parent.isCompound = true := by
  cases parent with
  | array items => rfl
  | object o => rfl
  | _ => cases h

theorem failure_attach (hc : parent.isCompound = true) :
    (attach location path value parent).failure = none := by
  cases parent with
  | array items =>
    simp only [attach]
    split
    · split <;> rfl
    · rfl
  | object o => rfl
  | _ => cases hc

theorem child?_attach (hplace : parent.HasPlace location.cut.fragment)
    (hoccupant : location.occupant = parent.child? location.cut.fragment) :
    (attach location path value parent).value.child? location.cut.fragment = some value := by
  cases parent with
  | array items =>
    obtain ⟨i, hi, hle⟩ := hplace
    have hitem : location.occupant = items[i]? := by rw [hoccupant, child?, hi, Option.bind_some]
    simp only [attach, hi]
    rcases Nat.lt_or_eq_of_le hle with hlt | rfl
    · have hoccupied : (location.isOccupied && decide (i < items.length)) = true := by
        simp [Location.isOccupied, hitem, hlt]
      rw [if_pos hoccupied]
      simp [Edited.done, child?, hi, hlt]
    · rw [if_neg (by simp)]
      simp [Edited.done, child?, hi]
  | object o => exact Multimap.get?_insert_self o location.cut.fragment value
  | _ => cases hplace

theorem set_of_parentOf? (hroot : (Path.cut d path).isRoot = false)
    (hparent : root.parentOf? d path = some parent) :
    root.set d path value = root.editParent d path (attach
      ⟨Path.cut d path, parent, parent.child? (Path.cut d path).fragment⟩ path value) := by
  simp [set, locate?, hparent, hroot]

/-- A value that is set where it has a place is what its path then leads to. -/
theorem lookup?_set (hroot : (Path.cut d path).isRoot = false)
    (hparent : root.parentOf? d path = some parent)
    (hplace : parent.HasPlace (Path.cut d path).fragment) :
    (root.set d path value).failure = none ∧
      (root.set d path value).value.lookup? d path = some value := by
  rw [set_of_parentOf? hroot hparent]
  obtain ⟨hfailure, hvalue⟩ := editParent_of_some (f := attach
    ⟨Path.cut d path, parent, parent.child? (Path.cut d path).fragment⟩ path value) hparent
  refine ⟨hfailure.trans (failure_attach hplace.isCompound), ?_⟩
  rw [lookup?_eq_bind_child? hroot, hvalue]
  exact child?_attach hplace rfl

/-! ## What holds everywhere -/

/-- `p` is about the node alone, and stays true of it whatever its items are and when a child is put
in the place of one or under a key. -/
structure Lasting (p : Node → Prop) : Prop where
  stable : Stable p
  insert : ∀ (o : Multimap Node) (key : String) (n : Node),
    p (object o) → p (object (o.insert key n))
  array : ∀ items items' : List Node, p (array items) → p (array items')

theorem Everywhere.insert {p : Node → Prop} (hp : Lasting p) {o : Multimap Node}
    (h : (object o).Everywhere p) (hv : value.Everywhere p) (key : String) :
    (object (o.insert key value)).Everywhere p := by
  refine .intro (hp.insert o key value h.here) fun m hm => ?_
  rcases Multimap.mem_values_insert hm with rfl | hm
  · exact hv
  · exact h.inner hm

theorem Everywhere.array {p : Node → Prop} (hp : Lasting p) {items items' : List Node}
    (h : (Node.array items).Everywhere p) (hi : ∀ n ∈ items', n.Everywhere p) :
    (Node.array items').Everywhere p := .intro (hp.array items items' h.here) hi

theorem Everywhere.append {p : Node → Prop} (hp : Lasting p) {items more : List Node}
    (h : (Node.array items).Everywhere p) (hm : (Node.array more).Everywhere p) :
    (Node.array (items ++ more)).Everywhere p := by
  refine h.array hp fun n hn => ?_
  rcases List.mem_append.1 hn with hn | hn
  · exact h.inner hn
  · exact hm.inner hn

theorem Everywhere.attach {p : Node → Prop} (hp : Lasting p) (h : parent.Everywhere p)
    (hv : value.Everywhere p) : (attach location path value parent).value.Everywhere p := by
  cases parent with
  | array items =>
    have happend : (Node.array (items ++ [value])).Everywhere p := by
      refine h.array hp fun n hn => ?_
      rcases List.mem_append.1 hn with hn | hn
      · exact h.inner hn
      · exact List.mem_singleton.1 hn ▸ hv
    simp only [Node.attach]
    split
    · split
      · refine h.array hp fun n hn => ?_
        rcases List.mem_or_eq_of_mem_set hn with hn | rfl
        · exact h.inner hn
        · exact hv
      · exact happend
    · exact happend
  | object o => exact h.insert hp hv location.cut.fragment
  | _ => exact h

theorem Everywhere.set {p : Node → Prop} (hp : Lasting p) (hr : root.Everywhere p)
    (hv : value.Everywhere p) : (root.set d path value).value.Everywhere p := by
  unfold Node.set
  split
  · exact hr
  · split
    · exact hv
    · exact hr.editParent hp.stable fun _ h => h.attach hp hv

end

/-! ## Lasting properties -/

theorem kind_putChild (n : Node) (fragment : String) (child : Node) :
    (n.putChild fragment child).kind = n.kind := by
  cases n with
  | array items =>
    simp only [putChild]
    split <;> rfl
  | _ => rfl

theorem lasting_kind_ne (k : Kind) : Lasting fun n => n.kind ≠ k where
  stable n fragment child h := by simpa only [kind_putChild] using h
  insert _ _ _ h := h
  array _ _ h := h

theorem lasting_sound : Lasting Sound where
  stable n fragment child h := by
    cases n with
    | array items =>
      simp only [putChild]
      split <;> trivial
    | object o => exact Multimap.Sound.setFirst h fragment child
    | _ => exact h
  insert _ key n h := Multimap.Sound.insert h key n
  array _ _ _ := trivial

theorem lasting_keysDistinct : Lasting KeysDistinct where
  stable n fragment child h := by
    cases n with
    | array items =>
      simp only [putChild]
      split <;> trivial
    | object o => exact Multimap.KeysDistinct.modify h fragment _
    | _ => exact h
  insert _ key n h := Multimap.KeysDistinct.insert h key n
  array _ _ _ := trivial

theorem lasting_unrepeated : Lasting Unrepeated where
  stable n fragment child h := by
    cases n with
    | array items =>
      simp only [putChild]
      split <;> trivial
    | object o =>
      intro e he
      rcases Multimap.mem_adjust he with he | ⟨m, hm, rfl⟩
      · exact h e he
      · exact (Member.isRepeated_setFirst m child).trans (h (fragment, m) hm)
    | _ => exact h
  insert o key n h := by
    intro e he
    rcases Multimap.mem_upsert he with he | rfl | ⟨m, hm, rfl⟩
    · exact h e he
    · rfl
    · rfl
  array _ _ _ := trivial

end ConfigTree.Node
