import ConfigTree.Edit.Basic
import ConfigTree.Proofs.Node.Depth
import ConfigTree.Proofs.Path

/-! Updating the node a path leads to: afterwards the path leads to the updated node, a node put
back as it was changes nothing, and what holds everywhere in the tree and in the updated node holds
everywhere afterwards. -/

namespace ConfigTree.Node

/-! ## One step -/

theorem child?_array {fragment : String} {items : List Node} {child : Node}
    (h : (array items).child? fragment = some child) :
    ∃ i, index? fragment = some i ∧ items[i]? = some child := Option.bind_eq_some_iff.1 h

theorem mem_inner_of_child? {fragment : String} {n child : Node}
    (h : n.child? fragment = some child) : child ∈ n.inner := by
  cases n with
  | array items =>
    obtain ⟨i, -, hi⟩ := child?_array h
    exact List.mem_of_getElem? hi
  | object o => exact Multimap.mem_values_of_get? h
  | _ => cases h

theorem isCompound_of_child? {fragment : String} {n child : Node}
    (h : n.child? fragment = some child) : n.isCompound = true := by
  cases n with
  | array items => rfl
  | object o => rfl
  | _ => cases h

theorem putChild_eq_self {fragment : String} {n child : Node} (h : n.child? fragment = some child) :
    n.putChild fragment child = n := by
  cases n with
  | array items =>
    obtain ⟨i, hi, hc⟩ := child?_array h
    obtain ⟨hlt, rfl⟩ := List.getElem?_eq_some_iff.1 hc
    simp [putChild, hi]
  | object o => exact congrArg object (Multimap.setFirst_eq_self h)
  | _ => rfl

theorem child?_putChild {fragment : String} {n child : Node} (h : n.child? fragment = some child)
    (child' : Node) : (n.putChild fragment child').child? fragment = some child' := by
  cases n with
  | array items =>
    obtain ⟨i, hi, hc⟩ := child?_array h
    have hlt : i < items.length := (List.getElem?_eq_some_iff.1 hc).1
    simp [putChild, child?, hi, hlt]
  | object o => exact Multimap.get?_setFirst_self h
  | _ => cases h

theorem putChild_putChild (n : Node) (fragment : String) (child child' : Node) :
    (n.putChild fragment child).putChild fragment child' = n.putChild fragment child' := by
  cases n with
  | array items =>
    cases hi : index? fragment with
    | none => simp only [putChild, hi]
    | some i => simp only [putChild, hi, List.set_set]
  | object o =>
    refine congrArg object ((Multimap.modify_modify_self ..).trans ?_)
    refine Multimap.modify_congr fun m _ => ?_
    cases m <;> rfl
  | _ => rfl

theorem mem_inner_putChild {fragment : String} {n child m : Node}
    (h : m ∈ (n.putChild fragment child).inner) : m = child ∨ m ∈ n.inner := by
  cases n with
  | array items =>
    simp only [putChild] at h
    split at h
    · exact (List.mem_or_eq_of_mem_set h).symm
    · exact .inr h
  | object o => exact Multimap.mem_values_setFirst h
  | _ => exact .inr h

/-! ## Many steps -/

section

variable {β : Type} {f : Node → Node × β}

theorem update?_eq_none_iff {segments : List String} {n : Node} :
    n.update? f segments = none ↔ n.follow? segments = none := by
  induction segments generalizing n with
  | nil => simp [update?, follow?]
  | cons s ss ih => cases h : n.child? s <;> simp [update?, updateChild?, follow?, h, ih]

/-- An update meets the node its segments lead to, and leaves the updated node there. -/
theorem follow?_of_update? {segments : List String} {n : Node} {r : Node × β}
    (h : n.update? f segments = some r) :
    ∃ m, n.follow? segments = some m ∧ r.1.follow? segments = some (f m).1 ∧ r.2 = (f m).2 := by
  induction segments generalizing n r with
  | nil =>
    cases h
    exact ⟨n, rfl, rfl, rfl⟩
  | cons s ss ih =>
    obtain ⟨child, hchild, h⟩ := Option.bind_eq_some_iff.1 h
    obtain ⟨r', hr', rfl⟩ := Option.map_eq_some_iff.1 h
    obtain ⟨m, hm, hf, hr⟩ := ih hr'
    refine ⟨m, ?_, ?_, hr⟩
    · rw [follow?, hchild]
      exact hm
    · rw [follow?, child?_putChild hchild]
      exact hf

/-- On its way an update meets the node its first segments lead to, and goes on from there. -/
theorem exists_of_update?_append {ss ts : List String} {n : Node} {r : Node × β}
    (h : n.update? f (ss ++ ts) = some r) :
    ∃ m r', n.follow? ss = some m ∧ m.update? f ts = some r' ∧ r.1.follow? ss = some r'.1 := by
  induction ss generalizing n r with
  | nil => exact ⟨n, r, rfl, h, rfl⟩
  | cons s ss ih =>
    obtain ⟨child, hchild, h⟩ := Option.bind_eq_some_iff.1 h
    obtain ⟨r₁, hr₁, rfl⟩ := Option.map_eq_some_iff.1 h
    obtain ⟨m, r', hm, hr', hfollow⟩ := ih hr₁
    refine ⟨m, r', ?_, hr', ?_⟩
    · rw [follow?, hchild]
      exact hm
    · rw [follow?, child?_putChild hchild]
      exact hfollow

theorem update?_eq_self {segments : List String} {n m : Node} (h : n.follow? segments = some m)
    (hf : (f m).1 = m) : n.update? f segments = some (n, (f m).2) := by
  induction segments generalizing n with
  | nil =>
    cases h
    exact congrArg some (Prod.ext hf rfl)
  | cons s ss ih =>
    obtain ⟨child, hchild, h⟩ := Option.bind_eq_some_iff.1 h
    simp [update?, updateChild?, hchild, ih h, putChild_eq_self hchild]

/-- What rises by a level with a step rises by as many levels as there are steps. -/
theorem rises_update? {R : Nat → Node → Node → Prop}
    (step : ∀ {levels : Nat} {fragment : String} {n child m : Node},
      n.child? fragment = some child → R levels child m → R (1 + levels) n (n.putChild fragment m))
    {levels : Nat} {segments : List String} {n : Node} {r : Node × β}
    (h : n.update? f segments = some r)
    (hf : ∀ m, n.follow? segments = some m → R levels m (f m).1) :
    R (segments.length + levels) n r.1 := by
  induction segments generalizing n r with
  | nil =>
    cases h
    simpa using hf n rfl
  | cons s ss ih =>
    obtain ⟨child, hchild, h⟩ := Option.bind_eq_some_iff.1 h
    obtain ⟨r', hr', rfl⟩ := Option.map_eq_some_iff.1 h
    have hrises := step hchild (ih hr' fun m hm => hf m (by rw [follow?, hchild]; exact hm))
    rwa [← Nat.add_assoc, Nat.add_comm 1] at hrises

/-- Every step of a path takes a level. -/
theorem length_add_depth_le_of_follow? {segments : List String} {n m : Node}
    (h : n.follow? segments = some m) : segments.length + m.depth ≤ n.depth := by
  induction segments generalizing n with
  | nil =>
    cases h
    exact Nat.le_of_eq (Nat.zero_add _)
  | cons s ss ih =>
    obtain ⟨child, hchild, h⟩ := Option.bind_eq_some_iff.1 h
    have hle := ih h
    have hlt := depth_lt_of_mem_inner (mem_inner_of_child? hchild)
    rw [List.length_cons]
    omega

/-- `p` is about the node alone, and putting another child in the place of one keeps it. -/
def Stable (p : Node → Prop) : Prop :=
  ∀ (n : Node) (fragment : String) (child : Node), p n → p (n.putChild fragment child)

theorem Everywhere.putChild {p : Node → Prop} (hp : Stable p) {n child : Node}
    (h : n.Everywhere p) (hc : child.Everywhere p) (fragment : String) :
    (n.putChild fragment child).Everywhere p := by
  refine .intro (hp n fragment child h.here) fun m hm => ?_
  rcases mem_inner_putChild hm with rfl | hm
  · exact hc
  · exact h.inner hm

theorem Everywhere.update? {p : Node → Prop} (hp : Stable p)
    (hf : ∀ m : Node, m.Everywhere p → (f m).1.Everywhere p) {segments : List String} {n : Node}
    {r : Node × β} (hn : n.Everywhere p) (h : n.update? f segments = some r) :
    r.1.Everywhere p := by
  induction segments generalizing n r with
  | nil =>
    cases h
    exact hf n hn
  | cons s ss ih =>
    obtain ⟨child, hchild, h⟩ := Option.bind_eq_some_iff.1 h
    obtain ⟨r', hr', rfl⟩ := Option.map_eq_some_iff.1 h
    exact hn.putChild hp (ih (hn.inner (mem_inner_of_child? hchild)) hr') s

end

/-! ## Editing the parent -/

section

variable {d : Char} {path : String} {root : Node} {f : Node → Edited Node}

theorem editParent_of_none (h : root.parentOf? d path = none) :
    root.editParent d path f = .failed root (.parentNotFound path) := by
  rw [parentOf?_eq_follow?] at h
  rw [editParent, updateParentOf?_eq_update?, update?_eq_none_iff.2 h]

/-- Where the parent exists, the edit is what `f` does there. -/
theorem editParent_of_some {parent : Node} (h : root.parentOf? d path = some parent) :
    (root.editParent d path f).failure = (f parent).failure ∧
      (root.editParent d path f).value.parentOf? d path = some (f parent).value := by
  rw [parentOf?_eq_follow?] at h
  cases hu : root.updateParentOf? d path fun parent => ((f parent).value, (f parent).failure) with
  | none =>
    rw [updateParentOf?_eq_update?, update?_eq_none_iff, h] at hu
    cases hu
  | some r =>
    rw [editParent, hu]
    rw [updateParentOf?_eq_update?] at hu
    obtain ⟨m, hm, hf, hr⟩ := follow?_of_update? hu
    cases Option.some.inj (h.symm.trans hm)
    exact ⟨hr, (parentOf?_eq_follow? ..).trans hf⟩

theorem editParent_eq_self {parent : Node} (h : root.parentOf? d path = some parent)
    (hf : (f parent).value = parent) : (root.editParent d path f).value = root := by
  rw [parentOf?_eq_follow?] at h
  rw [editParent, updateParentOf?_eq_update?, update?_eq_self h hf]

theorem Everywhere.editParent {p : Node → Prop} (hp : Stable p) (hr : root.Everywhere p)
    (hf : ∀ m : Node, m.Everywhere p → (f m).value.Everywhere p) :
    (root.editParent d path f).value.Everywhere p := by
  rw [Node.editParent, updateParentOf?_eq_update?]
  split
  · next hu => exact hr.update? hp hf hu
  · exact hr

end

end ConfigTree.Node
