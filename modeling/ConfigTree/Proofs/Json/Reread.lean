import ConfigTree.Proofs.Json.Number
import ConfigTree.Proofs.Json.Spelling

/-! What the printer writes is what the reader reads, except that a floating-point number is read
as the number its text says and one that is not finite as null.  Both layouts of a value spell the
value as it is read again; where no number in it is a floating-point one, that is the value itself.
-/

namespace ConfigTree

namespace Json

/-- What the text of a number is read as. -/
def rereadNumber (x : Binary64) : Value :=
  match readAll (x.format numberStyle) with
  | .ok v => v
  | .error _ => .null

theorem isToken_rereadNumber (x : Binary64) :
    (rereadNumber x).depth = 0 ∧ IsToken (rereadNumber x) (x.format numberStyle) := by
  obtain ⟨v, hdepth, htoken⟩ := exists_isToken_format x
  have hread := (Spells.token htoken hdepth).readAll_append (hdepth ▸ Nat.zero_le _) gap_nil
  rw [List.append_nil] at hread
  rw [rereadNumber, hread]
  exact ⟨hdepth, htoken⟩

end Json

namespace Value

mutual

/-- The value as it is read again from its text. -/
def reread : Value → Value
  | float x => Json.rereadNumber x
  | seq items => seq (rereadItems items)
  | map pairs => map (rereadPairs pairs)
  | null => null
  | bool b => bool b
  | int n => int n
  | str s => str s
termination_by structural v => v

def rereadItems : List Value → List Value
  | [] => []
  | v :: vs => reread v :: rereadItems vs
termination_by structural vs => vs

def rereadPairs : List (String × Value) → List (String × Value)
  | [] => []
  | (k, v) :: ps => (k, reread v) :: rereadPairs ps
termination_by structural ps => ps

end

theorem rereadItems_eq_map (vs : List Value) : rereadItems vs = vs.map reread := by
  induction vs with
  | nil => rfl
  | cons v vs ih => simp [rereadItems, ih]

theorem rereadPairs_eq_map (ps : List (String × Value)) :
    rereadPairs ps = ps.map fun p => (p.1, p.2.reread) := by
  induction ps with
  | nil => rfl
  | cons p ps ih => simp [rereadPairs, ih]

theorem FloatFree.reread_eq_self {v : Value} (h : v.FloatFree) : v.reread = v := by
  induction v using inductInner with
  | step v ih =>
    have hinner (w : Value) (hw : w ∈ v.inner) : w.reread = w := ih w hw (h.inner hw)
    cases v with
    | seq items =>
      rw [reread, rereadItems_eq_map]
      exact congrArg seq ((List.map_congr_left hinner).trans (List.map_id items))
    | map pairs =>
      rw [reread, rereadPairs_eq_map]
      refine congrArg map ((List.map_congr_left fun p hp => ?_).trans (List.map_id pairs))
      exact Prod.ext rfl (hinner p.2 (List.mem_map_of_mem hp))
    | float x => exact Bool.noConfusion h.here
    | _ => rfl

mutual

theorem depth_reread : (v : Value) → v.reread.depth = v.depth
  | float x => (Json.isToken_rereadNumber x).1
  | seq items => by rw [reread, depth, depth, depthItems_rereadItems items]
  | map pairs => by rw [reread, depth, depth, depthPairs_rereadPairs pairs]
  | null | bool _ | int _ | str _ => rfl
termination_by structural v => v

theorem depthItems_rereadItems : (vs : List Value) → depthItems (rereadItems vs) = depthItems vs
  | [] => rfl
  | v :: vs => by
    rw [rereadItems, depthItems, depthItems, depth_reread v, depthItems_rereadItems vs]
termination_by structural vs => vs

theorem depthPairs_rereadPairs : (ps : List (String × Value)) →
    depthPairs (rereadPairs ps) = depthPairs ps
  | [] => rfl
  | (k, v) :: ps => by
    rw [rereadPairs, depthPairs, depthPairs, depth_reread v, depthPairs_rereadPairs ps]
termination_by structural ps => ps

end

theorem depth_toNode_of_scalar {options : ReadOptions} {v : Value} (h : v.depth = 0) :
    (v.toNode options).depth = 0 := by
  cases v with
  | seq items => simp [depth] at h
  | map pairs => simp [depth] at h
  | _ => rfl

/-- The node of what is read again is as deep as that of what was written. -/
theorem depth_toNode_reread (options : ReadOptions) (v : Value) :
    (v.reread.toNode options).depth = (v.toNode options).depth := by
  induction v using inductInner with
  | step v ih =>
    cases v with
    | seq items =>
      rw [reread, rereadItems_eq_map, toNode_seq, toNode_seq]
      refine Node.depth_congr rfl ?_
      simp only [Node.inner_array, List.map_map]
      exact List.map_congr_left ih
    | map pairs =>
      rw [reread, rereadPairs_eq_map, toNode_map, toNode_map]
      refine ReadOptions.depth_gather_congr ?_
      simp only [List.map_map]
      refine List.map_congr_left fun p hp => ?_
      exact congrArg (Prod.mk _) (ih p.2 (List.mem_map_of_mem hp))
    | float x => exact depth_toNode_of_scalar (Json.isToken_rereadNumber x).1
    | _ => rfl

end Value

namespace Json

theorem gap_space : Gap [' '] := by
  intro c hc
  rw [List.mem_singleton.1 hc]
  rfl

theorem gap_newline (level : Nat) : Gap (newline level) := by
  intro c hc
  rcases List.mem_cons.1 hc with rfl | hc
  · rfl
  · rw [List.eq_of_mem_replicate hc]
    rfl

theorem spells_number (x : Binary64) :
    Spells (.value (rereadNumber x)) (x.format numberStyle) :=
  .token (isToken_rereadNumber x).2 (isToken_rereadNumber x).1

mutual

theorem spells_compact_reread : (v : Value) → Spells (.value v.reread) (compact v)
  | .null => .token isToken_null rfl
  | .bool b => .token (isToken_bool b) rfl
  | .int n => .token (isToken_int n) rfl
  | .float x => spells_number x
  | .str s => .token (isToken_str s) rfl
  | .seq [] => .emptySeq
  | .seq (v :: vs) => by
    simpa [compact, Value.reread, Value.rereadItems] using
      Spells.seq gap_nil (spells_compact_reread v) (spells_compactItems_reread vs)
  | .map [] => .emptyMap
  | .map ((k, v) :: ps) => by
    simpa [compact, quote, keyText, Value.reread, Value.rereadPairs] using Spells.map (k := k)
      gap_nil gap_nil (spells_compact_reread v) (spells_compactPairs_reread ps)
termination_by structural v => v

theorem spells_compactItems_reread : (vs : List Value) →
    Spells (.items (Value.rereadItems vs)) (compactItems vs)
  | [] => .noItems gap_nil
  | v :: vs => by
    simpa [compactItems, Value.rereadItems] using
      Spells.items gap_nil (spells_compact_reread v) (spells_compactItems_reread vs)
termination_by structural vs => vs

theorem spells_compactPairs_reread : (ps : List (String × Value)) →
    Spells (.pairs (Value.rereadPairs ps)) (compactPairs ps)
  | [] => .noPairs gap_nil
  | (k, v) :: ps => by
    simpa [compactPairs, quote, keyText, Value.rereadPairs] using Spells.pairs (k := k) gap_nil
      gap_nil (spells_compact_reread v) (spells_compactPairs_reread ps)
termination_by structural ps => ps

end

mutual

theorem spells_pretty_reread (level : Nat) : (v : Value) →
    Spells (.value v.reread) (pretty level v)
  | .null => .token isToken_null rfl
  | .bool b => .token (isToken_bool b) rfl
  | .int n => .token (isToken_int n) rfl
  | .float x => spells_number x
  | .str s => .token (isToken_str s) rfl
  | .seq [] => .emptySeq
  | .seq (v :: vs) => by
    simpa [pretty, Value.reread, Value.rereadItems] using Spells.seq (gap_newline (level + 1))
      (spells_pretty_reread (level + 1) v) (spells_prettyItems_reread level vs)
  | .map [] => .emptyMap
  | .map ((k, v) :: ps) => by
    simpa [pretty, quote, keyText, Value.reread, Value.rereadPairs] using
      Spells.map (k := k) (gap_newline (level + 1)) gap_space (spells_pretty_reread (level + 1) v)
        (spells_prettyPairs_reread level ps)
termination_by structural v => v

theorem spells_prettyItems_reread (level : Nat) : (vs : List Value) →
    Spells (.items (Value.rereadItems vs)) (prettyItems level vs)
  | [] => .noItems (gap_newline level)
  | v :: vs => by
    simpa [prettyItems, Value.rereadItems] using Spells.items (gap_newline (level + 1))
      (spells_pretty_reread (level + 1) v) (spells_prettyItems_reread level vs)
termination_by structural vs => vs

theorem spells_prettyPairs_reread (level : Nat) : (ps : List (String × Value)) →
    Spells (.pairs (Value.rereadPairs ps)) (prettyPairs level ps)
  | [] => .noPairs (gap_newline level)
  | (k, v) :: ps => by
    simpa [prettyPairs, quote, keyText, Value.rereadPairs] using
      Spells.pairs (k := k) (gap_newline (level + 1)) gap_space
        (spells_pretty_reread (level + 1) v) (spells_prettyPairs_reread level ps)
termination_by structural ps => ps

end

theorem spells_compact (v : Value) (h : v.FloatFree) : Spells (.value v) (compact v) := by
  have hspells := spells_compact_reread v
  rwa [h.reread_eq_self] at hspells

theorem spells_pretty (level : Nat) (v : Value) (h : v.FloatFree) :
    Spells (.value v) (pretty level v) := by
  have hspells := spells_pretty_reread level v
  rwa [h.reread_eq_self] at hspells

end Json

end ConfigTree
