import ConfigTree.Proofs.Binary64.Shortest

/-! On which side of another number the decimal text of a number lies.  Less than half a unit away,
it does not pass a number that can be represented, unless it is the text of that number itself. -/

namespace ConfigTree.Binary64

variable {x y : Binary64}

theorem exponent_ge (x : Binary64) : -1074 ≤ x.exponent := by
  rw [exponent]
  split <;> omega

theorem significand_ge (h : x.exponent ≠ -1074) : 2 ^ 52 ≤ x.significand := by
  rw [exponent] at h
  rw [significand]
  split <;> omega

/-- The larger of two last places is that of the larger number. -/
theorem magnitude_lt_of_exponent_lt (h : x.exponent < y.exponent) : x.magnitude < y.magnitude := by
  have hmin := x.exponent_ge
  have hlow : (2 ^ 52 : ℚ) ≤ y.significand := by exact_mod_cast significand_ge (x := y) (by omega)
  have hhigh : (x.significand : ℚ) < 2 ^ 53 := by exact_mod_cast x.significand_lt
  have hunit : (0 : ℚ) < 2 ^ x.exponent := by positivity
  calc x.magnitude < 2 ^ 53 * 2 ^ x.exponent := mul_lt_mul_of_pos_right hhigh hunit
    _ = 2 ^ 52 * 2 ^ (x.exponent + 1) := by
      rw [zpow_add₀ two_ne_zero, zpow_one]
      ring
    _ ≤ 2 ^ 52 * 2 ^ y.exponent :=
      mul_le_mul_of_nonneg_left (zpow_le_zpow_right₀ one_le_two (by omega)) (by positivity)
    _ ≤ y.magnitude := mul_le_mul_of_nonneg_right hlow (by positivity)

/-- A number has one significand and one exponent. -/
theorem eq_of_magnitude_eq (h : x.magnitude = y.magnitude) :
    x.significand = y.significand ∧ x.exponent = y.exponent := by
  have hexponent : x.exponent = y.exponent :=
    le_antisymm (not_lt.1 fun hlt => (magnitude_lt_of_exponent_lt hlt).ne h.symm)
      (not_lt.1 fun hlt => (magnitude_lt_of_exponent_lt hlt).ne h)
  rw [magnitude, magnitude, hexponent] at h
  exact ⟨by exact_mod_cast mul_right_cancel₀ (by positivity) h, hexponent⟩

theorem shortest_eq_of_magnitude_eq (h : x.magnitude = y.magnitude) : x.shortest = y.shortest := by
  obtain ⟨hsignificand, hexponent⟩ := eq_of_magnitude_eq h
  unfold shortest onGrid? readsBack numerator denominator
  rw [hsignificand, hexponent]

theorem format_of_isFinite (hfinite : x.isFinite = true) (style : Style) :
    x.format style = (if x.isNegative then ['-'] else []) ++ x.shortest.layout style := by
  have hnan : x.isNaN = false := by
    rw [isFinite, bne_iff_ne] at hfinite
    simp [isNaN, hfinite]
  rw [format, hnan, hfinite]
  rfl

/-! ## Sides -/

theorem exists_magnitude_eq_mul (h : x.exponent ≤ y.exponent) :
    ∃ n : Nat, y.magnitude = n * 2 ^ x.exponent := by
  obtain ⟨k, hk⟩ : ∃ k : Nat, y.exponent = k + x.exponent :=
    ⟨(y.exponent - x.exponent).toNat, by omega⟩
  refine ⟨y.significand * 2 ^ k, ?_⟩
  rw [magnitude, hk, zpow_add₀ two_ne_zero, zpow_natCast]
  push_cast
  ring

theorem value_shortest_lt (h : x.magnitude < y.magnitude) : x.shortest.value < y.magnitude := by
  by_cases hx : x.significand = 0
  · rw [magnitude, hx, Nat.cast_zero, zero_mul] at h
    simpa [shortest, hx, Decimal.value] using h
  · have hexponent : x.exponent ≤ y.exponent :=
      not_lt.1 fun hlt => h.not_gt (magnitude_lt_of_exponent_lt hlt)
    obtain ⟨n, hn⟩ := exists_magnitude_eq_mul hexponent
    have hunit : (0 : ℚ) < 2 ^ x.exponent := by positivity
    rw [hn] at h ⊢
    have hlt : x.significand < n := by exact_mod_cast lt_of_mul_lt_mul_right h hunit.le
    have hle : (x.significand + 1 : ℚ) ≤ n := by exact_mod_cast hlt
    refine (shortest_spec hx).1.value_le.trans_lt (mul_lt_mul_of_pos_right ?_ hunit)
    linarith

/-- Below a power of two the numbers are closer together than above it, so that the number just
below it is left out. -/
theorem lt_value_shortest (hy : y.significand + 1 < 2 ^ 53) (h : y.magnitude < x.magnitude) :
    y.magnitude < x.shortest.value := by
  have hx : x.significand ≠ 0 := by
    intro hx
    have hzero : x.magnitude = 0 := by rw [magnitude, hx, Nat.cast_zero, zero_mul]
    exact h.not_ge (by rw [hzero, magnitude]; positivity)
  refine lt_of_lt_of_le ?_ (shortest_spec hx).1.le_value
  have hunit : (0 : ℚ) < 2 ^ x.exponent := by positivity
  rcases le_or_gt x.exponent y.exponent with hexponent | hexponent
  · obtain ⟨n, hn⟩ := exists_magnitude_eq_mul hexponent
    rw [hn] at h ⊢
    have hlt : n < x.significand := by exact_mod_cast lt_of_mul_lt_mul_right h hunit.le
    have hle : (n + 1 : ℚ) ≤ x.significand := by exact_mod_cast hlt
    exact mul_lt_mul_of_pos_right (by linarith) hunit
  · have hmin := y.exponent_ge
    have hlow : (2 ^ 52 : ℚ) ≤ x.significand := by exact_mod_cast significand_ge (x := x) (by omega)
    have hhigh : (y.significand + 1 : ℚ) < 2 ^ 53 := by exact_mod_cast hy
    have hplace : (2 : ℚ) ^ y.exponent * 2 ≤ 2 ^ x.exponent := by
      rw [← zpow_add_one₀ two_ne_zero]
      exact zpow_le_zpow_right₀ one_le_two (by omega)
    calc y.magnitude < (2 ^ 53 - 1) * 2 ^ y.exponent :=
          mul_lt_mul_of_pos_right (by linarith) (by positivity)
      _ = (2 ^ 52 - 1 / 2) * (2 ^ y.exponent * 2) := by ring
      _ ≤ (2 ^ 52 - 1 / 2) * 2 ^ x.exponent := mul_le_mul_of_nonneg_left hplace (by norm_num)
      _ ≤ (x.significand - 1 / 2) * 2 ^ x.exponent :=
        mul_le_mul_of_nonneg_right (by linarith) hunit.le

theorem lt_value_shortest_or_eq (hy : y.significand + 1 < 2 ^ 53)
    (h : y.magnitude ≤ x.magnitude) :
    y.magnitude < x.shortest.value ∨ x.shortest = y.shortest :=
  h.lt_or_eq.imp (lt_value_shortest hy) fun h => shortest_eq_of_magnitude_eq h.symm

/-! ## Two limits -/

theorem magnitude_ten_pow : (⟨0x4341C37937E08000⟩ : Binary64).magnitude = 10 ^ 16 := by
  have hsignificand : (⟨0x4341C37937E08000⟩ : Binary64).significand = 5 * 10 ^ 15 := rfl
  have hexponent : (⟨0x4341C37937E08000⟩ : Binary64).exponent = 1 := rfl
  rw [magnitude, hsignificand, hexponent]
  norm_num

theorem magnitude_two_pow : (⟨0x43E0000000000000⟩ : Binary64).magnitude = 2 ^ 63 := by
  have hsignificand : (⟨0x43E0000000000000⟩ : Binary64).significand = 2 ^ 52 := rfl
  have hexponent : (⟨0x43E0000000000000⟩ : Binary64).exponent = 11 := rfl
  rw [magnitude, hsignificand, hexponent]
  norm_num

/-- The text of 1e16 is exact; that of 2^63 is the text of a larger number. -/
theorem shortest_at_limits : (⟨0x4341C37937E08000⟩ : Binary64).shortest = ⟨1, 16⟩ ∧
    (⟨0x43E0000000000000⟩ : Binary64).shortest = ⟨9223372036854776, 3⟩ :=
  ⟨rfl, rfl⟩

theorem value_lt_ten_pow (h : x.magnitude < 10 ^ 16) : x.shortest.value < 10 ^ 16 := by
  rw [← magnitude_ten_pow] at h ⊢
  exact value_shortest_lt h

theorem ten_pow_le_value (h : 10 ^ 16 ≤ x.magnitude) : 10 ^ 16 ≤ x.shortest.value := by
  rw [← magnitude_ten_pow] at h
  rcases lt_value_shortest_or_eq (by decide) h with hlt | heq
  · rw [magnitude_ten_pow] at hlt
    exact hlt.le
  · rw [heq, shortest_at_limits.1, Decimal.value]
    norm_num

theorem value_lt_two_pow (h : x.magnitude < 2 ^ 63) : x.shortest.value < 2 ^ 63 := by
  rw [← magnitude_two_pow] at h ⊢
  exact value_shortest_lt h

theorem two_pow_lt_value (h : 2 ^ 63 ≤ x.magnitude) : 2 ^ 63 < x.shortest.value := by
  rw [← magnitude_two_pow] at h
  rcases lt_value_shortest_or_eq (by decide) h with hlt | heq
  · rwa [magnitude_two_pow] at hlt
  · rw [heq, shortest_at_limits.2, Decimal.value]
    norm_num

theorem exponent_shortest_nonneg (h : 10 ^ 16 ≤ x.magnitude) : 0 ≤ x.shortest.exponent := by
  have hx : x.significand ≠ 0 := by
    intro hx
    rw [magnitude, hx, Nat.cast_zero, zero_mul] at h
    norm_num at h
  obtain ⟨-, hlow, -⟩ := shortest_spec hx
  have hplace := (leadingPlace_spec (numerator_pos hx) x.denominator_pos).2
  rw [numerator_div_denominator] at hplace
  have hlt := h.trans_lt hplace
  rw [← zpow_natCast, zpow_lt_zpow_iff_right₀ (by norm_num)] at hlt
  omega

end ConfigTree.Binary64
