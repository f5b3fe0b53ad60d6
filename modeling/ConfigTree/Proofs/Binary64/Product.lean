import ConfigTree.Binary64.Numeral
import ConfigTree.Proofs.Binary64.Rounding

/-! Decimal numbers times a whole number.  The decimal is rounded to a number, and its product with
the whole number is rounded again.  If a whole number comes out, it is within one part in 2^51 of the
exact product, and it has the sign of the decimal. -/

namespace ConfigTree.Binary64

variable {x : Binary64} {negative : Bool}

/-! ## Signs -/

theorem isNegative_ofMagnitude {n : Nat} (h : n < 2 ^ 63) (negative : Bool) :
    (ofMagnitude negative n).isNegative = negative := by
  have hbits : (ofMagnitude negative n).bits.toNat = n + if negative then 2 ^ 63 else 0 := by
    rw [ofMagnitude]
    refine UInt64.toNat_ofNat_of_lt' ?_
    cases negative <;> simp only [Bool.false_eq_true, if_true, if_false, UInt64.size] <;> omega
  rw [isNegative, hbits]
  cases negative <;> simp only [Bool.false_eq_true, if_true, if_false, decide_eq_true_eq,
    decide_eq_false_iff_not] <;> omega

theorem isNegative_ofRatio (negative : Bool) (num den : Nat) :
    (ofRatio negative num den).isNegative = negative := by
  unfold ofRatio
  split
  · exact isNegative_ofMagnitude (by decide) negative
  · refine isNegative_ofMagnitude (Nat.lt_of_le_of_lt (Nat.min_le_right _ _) ?_) negative
    decide

theorem isNegative_scale (x : Binary64) (num den : Nat) :
    (x.scale num den).isNegative = x.isNegative := by
  unfold scale
  split
  · exact isNegative_ofRatio _ _ _
  · rfl

theorem isNegative_ofDecimal (negative : Bool) (n width : Nat) (e : Int) :
    (ofDecimal negative n width e).isNegative = negative := by
  unfold ofDecimal
  split
  · exact isNegative_ofMagnitude (by decide) negative
  · split
    · exact isNegative_ofMagnitude (by decide) negative
    · exact isNegative_ofRatio _ _ _

/-! ## Whole numbers -/

theorem toInt?_spec {n : Int} (h : x.toInt? = some n) :
    x.isFinite = true ∧ x.magnitude = n.natAbs ∧
      n = if x.isNegative then -(n.natAbs : Int) else n.natAbs := by
  unfold toInt? at h
  split at h
  · next hwhole =>
    rw [Bool.and_eq_true, beq_iff_eq] at hwhole
    have hn := Option.some.inj h
    have habs : n.natAbs = x.numerator / x.denominator := by
      rw [← hn]
      generalize x.numerator / x.denominator = m
      split <;> simp
    have hden : (x.denominator : ℚ) ≠ 0 := by exact_mod_cast x.denominator_pos.ne'
    refine ⟨hwhole.1, ?_, by rw [habs, hn]⟩
    rw [habs, ← numerator_div_denominator, div_eq_iff hden]
    exact_mod_cast (Nat.div_mul_cancel (Nat.dvd_of_mod_eq_zero hwhole.2)).symm
  · cases h

/-! ## Rounding -/

/-- Half of the least positive number. -/
def halfLeast : ℚ := 2 ^ (-1075 : Int)

theorem halfLeast_nonneg : 0 ≤ halfLeast := by
  rw [halfLeast]
  positivity

theorem halfLeast_le {n : Nat} (h : n ≤ 1075) : halfLeast ≤ 1 / 2 ^ n := by
  rw [halfLeast, one_div, ← zpow_natCast, ← zpow_neg]
  exact zpow_le_zpow_right₀ one_le_two (by omega)

theorem magnitude_zero (negative : Bool) : (zero negative).magnitude = 0 := by
  have hsignificand : (zero negative).significand = 0 := by cases negative <;> rfl
  rw [magnitude, hsignificand, Nat.cast_zero, zero_mul]

/-- One part in 2^53, or half of the least number where that is too small. -/
theorem abs_ofRatio_sub_le {num den : Nat} (hden : 0 < den)
    (hfinite : (ofRatio negative num den).isFinite = true) :
    |(ofRatio negative num den).magnitude - num / den| ≤ num / den / 2 ^ 53 + halfLeast := by
  have hratio : (0 : ℚ) ≤ num / den / 2 ^ 53 := by positivity
  by_cases hnum : num = 0
  · rw [hnum] at hratio ⊢
    rw [ofRatio, if_pos rfl, magnitude_zero, Nat.cast_zero, zero_div, sub_zero, abs_zero, zero_div,
      zero_add]
    exact halfLeast_nonneg
  · refine (abs_magnitude_ofRatio_sub_le hnum hden hfinite).trans ?_
    rcases (lastPlace_spec hnum hden).2.1 with hmin | hlow
    · rw [hmin, div_eq_mul_inv ((2 : ℚ) ^ (-1074 : Int)), ← zpow_sub_one₀ two_ne_zero]
      exact le_add_of_nonneg_left hratio
    · rw [zpow_add₀ two_ne_zero] at hlow
      have hunit : (2 : ℚ) ^ lastPlace num den / 2 ≤ num / den / 2 ^ 53 := by
        norm_num at hlow ⊢
        linarith
      exact hunit.trans (le_add_of_nonneg_right halfLeast_nonneg)

theorem abs_scale_sub_le {f : Nat} (hfinite : x.isFinite = true)
    (hscaled : (x.scale f 1).isFinite = true) :
    |(x.scale f 1).magnitude - x.magnitude * f| ≤ x.magnitude * f / 2 ^ 53 + halfLeast := by
  rw [scale, if_pos hfinite] at hscaled ⊢
  have hround := abs_ofRatio_sub_le (by simpa using x.denominator_pos) hscaled
  rw [Nat.mul_one] at hround ⊢
  rwa [Nat.cast_mul, mul_div_right_comm, numerator_div_denominator] at hround

/-- A decimal with so many places that it is taken for zero is smaller than any number. -/
theorem div_pow_le_halfLeast {n width k : Nat} (hn : n < 10 ^ width) (hk : width + 330 ≤ k) :
    (n : ℚ) / 10 ^ k ≤ halfLeast := by
  obtain ⟨j, rfl⟩ := Nat.exists_eq_add_of_le hk
  have hpow : 2 ^ 1075 ≤ 10 ^ 330 := by decide +kernel
  have hn' : n * 2 ^ 1075 ≤ 10 ^ (width + 330 + j) := calc
    n * 2 ^ 1075 ≤ 10 ^ width * 10 ^ 330 := Nat.mul_le_mul hn.le hpow
    _ = 10 ^ (width + 330) := (pow_add ..).symm
    _ ≤ 10 ^ (width + 330 + j) := Nat.pow_le_pow_right (by decide) (Nat.le_add_right _ _)
  have hcast : ((n * 2 ^ 1075 : Nat) : ℚ) ≤ (10 ^ (width + 330 + j) : Nat) := Nat.cast_le.2 hn'
  rw [Nat.cast_mul, Nat.cast_pow, Nat.cast_pow, Nat.cast_ofNat, Nat.cast_ofNat] at hcast
  rw [halfLeast, zpow_neg, div_le_iff₀ (by positivity), ← div_eq_inv_mul, le_div_iff₀ (by positivity)]
  exact hcast

theorem abs_ofDecimal_sub_le {n width k : Nat} (hn : n < 10 ^ width)
    (hfinite : (ofDecimal negative n width (-(k : Int))).isFinite = true) :
    |(ofDecimal negative n width (-(k : Int))).magnitude - n / 10 ^ k| ≤
      n / 10 ^ k / 2 ^ 53 + halfLeast := by
  have hratio : (0 : ℚ) ≤ n / 10 ^ k := by positivity
  unfold ofDecimal at hfinite ⊢
  split
  · next hzero =>
    have hsmall : (n : ℚ) / 10 ^ k ≤ halfLeast := by
      rcases hzero with rfl | hk
      · rw [Nat.cast_zero, zero_div]
        exact halfLeast_nonneg
      · exact div_pow_le_halfLeast hn (by omega)
    rw [magnitude_zero, zero_sub, abs_neg, abs_of_nonneg hratio]
    exact hsmall.trans (le_add_of_nonneg_left (by positivity))
  · next hzero =>
    rw [if_neg hzero] at hfinite
    split
    · omega
    · next hlarge =>
      rw [if_neg hlarge] at hfinite
      have hpow : 0 < 10 ^ (-(-(k : Int))).toNat := by positivity
      have hround := abs_ofRatio_sub_le hpow hfinite
      rw [Int.neg_neg, Int.toNat_natCast, show (-(k : Int)).toNat = 0 by omega, pow_zero,
        Nat.mul_one] at hround ⊢
      rwa [Nat.cast_pow, Nat.cast_ofNat] at hround

/-! ## Two roundings -/

/-- The whole number stands for an exact one: it is the same where that is whole and has at most 51
bits, and comes near to it in any case. -/
structure Approximates (n : Int) (y : ℚ) : Prop where
  near : |n - y| ≤ max |y| 1 / 2 ^ 51
  whole : ∀ m : Int, y = m → |m| < 2 ^ 51 → n = m

theorem approximates_of_near {n : Int} {y : ℚ} (h : |n - y| ≤ max |y| 1 / 2 ^ 51) :
    Approximates n y where
  near := h
  whole m hy hm := by
    subst hy
    have hlt : max |(m : ℚ)| 1 / 2 ^ 51 < 1 := by
      rw [div_lt_one (by positivity), max_lt_iff]
      exact ⟨by exact_mod_cast hm, by norm_num⟩
    have hdiff : |((n - m : Int) : ℚ)| < 1 := by
      rw [Int.cast_sub]
      exact h.trans_lt hlt
    have hzero : |n - m| < 1 := by exact_mod_cast hdiff
    have := abs_lt.1 hzero
    omega

theorem near_of_two_roundings {a b f r : ℚ} (hr : 0 ≤ r) (hf : 0 ≤ f) (hfmax : f ≤ 2 ^ 30)
    (ha : |a - r| ≤ r / 2 ^ 53 + halfLeast) (hb : |b - a * f| ≤ a * f / 2 ^ 53 + halfLeast) :
    |b - r * f| ≤ max |r * f| 1 / 2 ^ 51 := by
  have hleast : halfLeast * f ≤ 1 / 2 ^ 170 := by
    calc halfLeast * f ≤ 1 / 2 ^ 200 * 2 ^ 30 :=
          mul_le_mul (halfLeast_le (by decide)) hfmax hf (by positivity)
      _ = 1 / 2 ^ 170 := by norm_num
  have hleast' : halfLeast ≤ 1 / 2 ^ 200 := halfLeast_le (by decide)
  have hproduct : 0 ≤ r * f := mul_nonneg hr hf
  have haf : |a * f - r * f| ≤ r * f / 2 ^ 53 + halfLeast * f := by
    rw [← sub_mul, abs_mul, abs_of_nonneg hf]
    calc |a - r| * f ≤ (r / 2 ^ 53 + halfLeast) * f := mul_le_mul_of_nonneg_right ha hf
      _ = r * f / 2 ^ 53 + halfLeast * f := by ring
  have hmax : r * f ≤ max |r * f| 1 := (le_abs_self _).trans (le_max_left _ _)
  have hone : 1 ≤ max |r * f| 1 := le_max_right _ _
  generalize max |r * f| 1 = y at hmax hone ⊢
  rw [abs_le] at ha hb haf ⊢
  norm_num at *
  constructor <;> linarith

end ConfigTree.Binary64
