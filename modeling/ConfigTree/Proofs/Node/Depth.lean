import ConfigTree.Proofs.Node.Everywhere

/-! Depth, level by level: a scalar has none, and a tree is at most `k + 1` deep when the nodes
directly inside it are at most `k` deep. -/

namespace ConfigTree.Node

theorem depthItems_le_iff {ns : List Node} {k : Nat} :
    depthItems ns ≤ k ↔ ∀ n ∈ ns, n.depth ≤ k := by
  induction ns with
  | nil => simp [depthItems]
  | cons n ns ih => rw [depthItems, Nat.max_le, ih, List.forall_mem_cons]

theorem depthEntries_le_iff {es : List (String × Member Node)} {k : Nat} :
    depthEntries es ≤ k ↔ ∀ e ∈ es, ∀ n ∈ e.2.values, n.depth ≤ k := by
  induction es with
  | nil => simp [depthEntries]
  | cons e es ih =>
    rw [List.forall_mem_cons, ← ih]
    obtain ⟨key, n | ns⟩ := e
    · rw [depthEntries, Nat.max_le, Member.values_single, List.forall_mem_singleton]
    · rw [depthEntries, Nat.max_le, Member.values_repeated, depthItems_le_iff]

theorem depthItems_append (ns ms : List Node) :
    depthItems (ns ++ ms) = max (depthItems ns) (depthItems ms) := by
  induction ns with
  | nil => simp [depthItems]
  | cons n ns ih => simp [depthItems, ih, Nat.max_assoc]

theorem depth_append (items more : List Node) :
    (array (items ++ more)).depth = max (array items).depth (array more).depth := by
  simp only [depth, depthItems_append]
  omega

theorem depth_of_scalar {n : Node} (h : n.isCompound = false) : n.depth = 0 := by
  cases n with
  | array items => simp [isCompound, kind, Kind.isCompound] at h
  | object o => simp [isCompound, kind, Kind.isCompound] at h
  | _ => rfl

theorem depth_le_succ_iff {n : Node} {k : Nat} : n.depth ≤ k + 1 ↔ ∀ m ∈ n.inner, m.depth ≤ k := by
  cases n with
  | array items =>
    rw [depth, Nat.add_comm, Nat.add_le_add_iff_right, depthItems_le_iff, inner_array]
  | object o =>
    rw [depth, Nat.add_comm, Nat.add_le_add_iff_right, depthEntries_le_iff]
    simp only [inner_object, Multimap.mem_values_iff]
    exact ⟨fun h m ⟨e, he, hm⟩ => h e he m hm, fun h e he m hm => h m ⟨e, he, hm⟩⟩
  | _ => simp [depth, inner]

theorem depth_pos_iff {n : Node} : 0 < n.depth ↔ n.isCompound = true := by
  cases n with
  | array items | object o =>
    rw [depth]
    exact iff_of_true (Nat.add_pos_left Nat.one_pos _) rfl
  | _ => exact iff_of_false (Nat.lt_irrefl 0) Bool.false_ne_true

theorem depth_lt_of_mem_inner {n m : Node} (h : m ∈ n.inner) : m.depth < n.depth := by
  have hcompound : n.isCompound = true := by
    cases hc : n.isCompound with
    | true => rfl
    | false =>
      rw [inner_eq_nil_of_scalar hc] at h
      cases h
  obtain ⟨k, hk⟩ := Nat.exists_eq_add_one.2 (depth_pos_iff.2 hcompound)
  have hle := depth_le_succ_iff.1 (Nat.le_of_eq hk) m h
  omega

/-- The depths of the nodes directly inside a node tell its own. -/
theorem depth_congr {n n' : Node} (hc : n.isCompound = n'.isCompound)
    (h : n.inner.map depth = n'.inner.map depth) : n.depth = n'.depth := by
  have hle {n n' : Node} (hc : n.isCompound = n'.isCompound)
      (h : n.inner.map depth = n'.inner.map depth) : n.depth ≤ n'.depth := by
    cases hn : n'.isCompound with
    | false =>
      rw [depth_of_scalar (hc.trans hn)]
      exact Nat.zero_le _
    | true =>
      obtain ⟨k, hk⟩ := Nat.exists_eq_add_one.2 (depth_pos_iff.2 hn)
      rw [hk, depth_le_succ_iff]
      intro m hm
      obtain ⟨m', hm', heq⟩ := List.mem_map.1 (h ▸ List.mem_map_of_mem hm)
      rw [← heq]
      exact depth_le_succ_iff.1 (Nat.le_of_eq hk) m' hm'
  exact Nat.le_antisymm (hle hc h) (hle hc.symm h.symm)

@[simp] theorem depth_object_empty : (object ∅).depth = 1 := rfl

end ConfigTree.Node
