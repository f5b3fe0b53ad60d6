/-! Sets of characters given as a table of code point ranges. -/

namespace ConfigTree.Text

/-- The code point lies in one of the closed ranges. -/
def inRanges (table : Array (Nat × Nat)) (c : Char) : Bool :=
  table.any fun r => r.1 ≤ c.toNat && c.toNat ≤ r.2

theorem inRanges_iff {table : Array (Nat × Nat)} {c : Char} :
    inRanges table c = true ↔ ∃ r ∈ table, r.1 ≤ c.toNat ∧ c.toNat ≤ r.2 := by
  simp [inRanges, Array.any_eq_true, Array.mem_iff_getElem]
  grind

end ConfigTree.Text
