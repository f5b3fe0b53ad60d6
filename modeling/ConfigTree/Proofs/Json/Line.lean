import ConfigTree.Proofs.Json.Scalar

/-! Compact JSON text is one line: no character of it is a newline. -/

namespace ConfigTree

theorem Text.newline_not_mem_ofNat (n : Nat) : '\n' ∉ ofNat n := by
  intro h
  exact absurd (isDigit_of_mem_ofNat h) (by decide)

namespace Binary64

theorem newline_not_mem_layout (style : Style) (hplus : '\n' ∉ style.plus) (d : Decimal) :
    '\n' ∉ d.layout style := by
  have hdigits := Text.newline_not_mem_ofNat d.digits
  have htake (k : Nat) : '\n' ∉ (Text.ofNat d.digits).take k := fun h =>
    hdigits (List.mem_of_mem_take h)
  have hdrop (k : Nat) : '\n' ∉ (Text.ofNat d.digits).drop k := fun h =>
    hdigits (List.mem_of_mem_drop h)
  have hexponent (n : Int) : '\n' ∉ Text.ofInt n := Text.not_mem_ofInt (by decide) n
  unfold Decimal.layout
  simp only
  split
  · split
    · split <;> simp [hdigits]
    · split <;> simp [hdigits, htake, hdrop]
  · split <;> split <;> simp [htake, hdrop, hexponent, hplus, -List.drop_one]

theorem newline_not_mem_format (x : Binary64) : '\n' ∉ x.format Json.numberStyle := by
  have hlayout := newline_not_mem_layout Json.numberStyle (by decide) x.shortest
  unfold format
  split
  · decide
  · split
    · split <;> decide
    · split <;> simp [hlayout]

end Binary64

namespace Json

mutual

theorem newline_not_mem_compact : (v : Value) → '\n' ∉ compact v
  | .null => by decide
  | .bool b => by cases b <;> decide
  | .int n => Text.not_mem_ofInt (by decide) n.toInt
  | .float x => x.newline_not_mem_format
  | .str s => newline_not_mem_quote s.toList
  | .seq [] => by decide
  | .seq (v :: vs) => by
    simp [compact, newline_not_mem_compact v, newline_not_mem_compactItems vs]
  | .map [] => by decide
  | .map ((k, v) :: ps) => by
    simp [compact, newline_not_mem_quote, newline_not_mem_compact v, newline_not_mem_compactPairs ps]
termination_by structural v => v

theorem newline_not_mem_compactItems : (vs : List Value) → '\n' ∉ compactItems vs
  | [] => by decide
  | v :: vs => by
    simp [compactItems, newline_not_mem_compact v, newline_not_mem_compactItems vs]
termination_by structural vs => vs

theorem newline_not_mem_compactPairs : (ps : List (String × Value)) → '\n' ∉ compactPairs ps
  | [] => by decide
  | (k, v) :: ps => by
    simp [compactPairs, newline_not_mem_quote, newline_not_mem_compact v,
      newline_not_mem_compactPairs ps]
termination_by structural ps => ps

end

end Json

end ConfigTree
