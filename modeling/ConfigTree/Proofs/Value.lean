import ConfigTree.Proofs.Node.Depth
import ConfigTree.Value

/-! Plain data level by level, and what the node of it is like: every node in it comes from a value,
it is well formed, and nothing in it is a duration or opaque. -/

namespace ConfigTree

namespace ReadOptions

variable {options : ReadOptions} {pairs : List (String × Node)}

theorem key_eq_self (h : options.foldCase = false) (k : String) : options.key k = k := by
  rw [key, h]
  rfl

theorem gather_of_nodup (h : (pairs.map Prod.fst).Nodup) :
    options.gather pairs = ⟨pairs.map fun p => (p.1, .single p.2)⟩ := by
  unfold gather
  split
  · exact Multimap.ofPairs_of_nodup h
  · exact Multimap.ofLatest_of_nodup h

theorem sound_gather : (options.gather pairs).Sound := by
  unfold gather
  split
  · exact Multimap.sound_ofPairs pairs
  · exact Multimap.sound_ofLatest pairs

theorem mem_values_gather {n : Node} (h : n ∈ (options.gather pairs).values) :
    ∃ p ∈ pairs, p.2 = n := by
  unfold gather at h
  split at h
  · exact Multimap.mem_values_ofPairs h
  · exact Multimap.mem_values_ofLatest h

/-- The keys of pairs and the depths of their nodes tell how deep the gathered object is. -/
theorem depth_gather_congr {pairs' : List (String × Node)}
    (h : pairs.map (fun p => (p.1, p.2.depth)) = pairs'.map fun p => (p.1, p.2.depth)) :
    (Node.object (options.gather pairs)).depth = (Node.object (options.gather pairs')).depth := by
  refine Node.depth_congr rfl ?_
  rw [Node.inner_object, Node.inner_object]
  unfold gather
  split
  · rw [← Multimap.values_map, ← Multimap.values_map, Multimap.map_ofPairs, Multimap.map_ofPairs, h]
  · rw [← Multimap.values_map, ← Multimap.values_map, Multimap.map_ofLatest,
      Multimap.map_ofLatest, h]

end ReadOptions

namespace Value

/-- The items of a sequence and the values of a map. -/
def inner : Value → List Value
  | seq items => items
  | map pairs => pairs.map Prod.snd
  | _ => []

theorem sizeOf_lt_of_mem_inner {v w : Value} (h : w ∈ v.inner) : sizeOf w < sizeOf v := by
  cases v with
  | seq items =>
    have h₁ : sizeOf w < sizeOf items := List.sizeOf_lt_of_mem h
    simp only [seq.sizeOf_spec]
    omega
  | map pairs =>
    obtain ⟨⟨k, v⟩, hp, rfl⟩ := List.mem_map.1 h
    have h₁ : sizeOf (k, v) < sizeOf pairs := List.sizeOf_lt_of_mem hp
    simp only [map.sizeOf_spec, Prod.mk.sizeOf_spec] at h₁ ⊢
    omega
  | _ => cases h

@[elab_as_elim]
theorem inductInner {motive : Value → Prop} (step : ∀ v, (∀ w ∈ v.inner, motive w) → motive v)
    (v : Value) : motive v :=
  step v fun w _ => inductInner step w
termination_by sizeOf v
decreasing_by exact sizeOf_lt_of_mem_inner ‹_›

variable {options : ReadOptions}

theorem toNode_seq (items : List Value) :
    (seq items).toNode options = .array (items.map (toNode options)) := by
  rw [toNode, itemsToNodes_eq_map]

theorem toNode_map (pairs : List (String × Value)) :
    (map pairs).toNode options =
      .object (options.gather (pairs.map fun p => (options.key p.1, p.2.toNode options))) := by
  rw [toNode, pairsToNodes_eq_map]

theorem mem_inner_toNode {v : Value} {n : Node} (h : n ∈ (v.toNode options).inner) :
    ∃ w ∈ v.inner, w.toNode options = n := by
  cases v with
  | seq items =>
    rw [toNode_seq] at h
    exact List.mem_map.1 h
  | map pairs =>
    rw [toNode_map] at h
    obtain ⟨p, hp, rfl⟩ := ReadOptions.mem_values_gather h
    obtain ⟨q, hq, rfl⟩ := List.mem_map.1 hp
    exact ⟨q.2, List.mem_map_of_mem hq, rfl⟩
  | _ => cases h

/-- What holds of the node of every value holds everywhere in the node of a value. -/
theorem everywhere_toNode {p : Node → Prop} (hp : ∀ v : Value, p (v.toNode options)) (v : Value) :
    (v.toNode options).Everywhere p := by
  induction v using inductInner with
  | step v ih =>
    refine .intro (hp v) fun n hn => ?_
    obtain ⟨w, hw, rfl⟩ := mem_inner_toNode hn
    exact ih w hw

theorem wellFormed_toNode (v : Value) : (v.toNode options).WellFormed := by
  refine everywhere_toNode (fun v => ?_) v
  cases v with
  | map pairs =>
    rw [toNode_map]
    exact ReadOptions.sound_gather
  | _ => trivial

/-- Where the last value wins no key is repeated. -/
theorem noRepeats_toNode (h : options.keepRepeats = false) (v : Value) :
    (v.toNode options).NoRepeats := by
  refine everywhere_toNode (fun v => ?_) v
  cases v with
  | map pairs =>
    rw [toNode_map, ReadOptions.gather, h, if_neg Bool.false_ne_true]
    exact Multimap.isRepeated_of_mem_ofLatest
  | _ => trivial

/-- The kinds a document can hold. -/
theorem kind_toNode (v : Value) :
    (v.toNode options).kind ≠ .time ∧ (v.toNode options).kind ≠ .userdata := by
  cases v <;> simp [toNode, Node.kind]

theorem free_time_toNode (v : Value) : (v.toNode options).Free .time :=
  everywhere_toNode (fun v => (kind_toNode v).1) v

theorem free_userdata_toNode (v : Value) : (v.toNode options).Free .userdata :=
  everywhere_toNode (fun v => (kind_toNode v).2) v

end Value

end ConfigTree
