import ConfigTree.Binary64.Basic
import Mathlib.Algebra.Order.Field.Power
import Mathlib.Tactic.FieldSimp
import Mathlib.Tactic.Linarith
import Mathlib.Tactic.Positivity
import Mathlib.Tactic.Ring

/-! How far rounding goes.  Magnitudes are compared as rational numbers: a ratio that is not below
the smallest power of two is rounded by less than one part in 2^53, and one below the largest
finite number and half a unit of it is not rounded to infinity. -/

namespace ConfigTree.Binary64

/-- The magnitude of a finite number. -/
def magnitude (x : Binary64) : ℚ := x.significand * 2 ^ x.exponent

/-! ## Powers of two and ten -/

theorem zpow_toNat_div (b : ℚ) (e : Int) : b ^ e.toNat / b ^ (-e).toNat = b ^ e := by
  rcases Int.le_total 0 e with h | h
  · obtain ⟨n, rfl⟩ := Int.eq_ofNat_of_zero_le h
    simp
  · obtain ⟨n, hn⟩ := Int.eq_ofNat_of_zero_le (Int.neg_nonneg_of_nonpos h)
    obtain rfl : e = -n := by omega
    simp

theorem div_toNat_eq {b : Nat} (hb : b ≠ 0) (num den : Nat) (e : Int) :
    ((num * b ^ (-e).toNat : Nat) : ℚ) / (den * b ^ e.toNat : Nat) = num / den / (b : ℚ) ^ e := by
  rw [← zpow_toNat_div]
  push_cast
  field_simp

theorem denominator_pos (x : Binary64) : 0 < x.denominator := by
  rw [denominator]
  positivity

theorem numerator_div_denominator (x : Binary64) :
    (x.numerator : ℚ) / x.denominator = x.magnitude := by
  rw [magnitude, ← zpow_toNat_div, numerator, denominator]
  push_cast
  ring

/-! ## The nearest integer -/

section

variable {num den : Nat}

theorem two_mul_nearest_le (hden : 0 < den) : 2 * (nearest num den * den) ≤ 2 * num + den := by
  have hdiv := Nat.div_add_mod' num den
  unfold nearest
  simp only
  split
  · next h =>
    have hround : den ≤ 2 * (num % den) := by
      simp only [Bool.or_eq_true, decide_eq_true_eq, Bool.and_eq_true, beq_iff_eq] at h
      omega
    rw [Nat.add_mul]
    omega
  · omega

theorem nearest_le (hden : 0 < den) : (nearest num den : ℚ) ≤ num / den + 1 / 2 := by
  have h : (2 * (nearest num den * den) : ℚ) ≤ 2 * num + den := by
    exact_mod_cast two_mul_nearest_le hden
  have hden' : (0 : ℚ) < den := by exact_mod_cast hden
  rw [div_add_div _ _ hden'.ne' two_ne_zero, le_div_iff₀ (by positivity)]
  linarith

theorem le_two_mul_nearest (hden : 0 < den) : 2 * num ≤ 2 * (nearest num den * den) + den := by
  have hdiv := Nat.div_add_mod' num den
  have hmod := Nat.mod_lt num hden
  unfold nearest
  simp only
  split
  · rw [Nat.add_mul]
    omega
  · next h =>
    simp only [Bool.or_eq_true, decide_eq_true_eq, Bool.and_eq_true, beq_iff_eq] at h
    omega

theorem abs_nearest_sub_le (hden : 0 < den) : |(nearest num den : ℚ) - num / den| ≤ 1 / 2 := by
  have h : (2 * num : ℚ) ≤ 2 * (nearest num den * den) + den := by
    exact_mod_cast le_two_mul_nearest hden
  have hden' : (0 : ℚ) < den := by exact_mod_cast hden
  have hlow : (num : ℚ) / den ≤ nearest num den + 1 / 2 := by
    rw [div_le_iff₀ hden']
    linarith
  have hhigh : (nearest num den : ℚ) ≤ num / den + 1 / 2 := nearest_le hden
  exact abs_le.2 ⟨by linarith, by linarith⟩

theorem div_le_nearest : num / den ≤ nearest num den := by
  unfold nearest
  simp only
  split <;> omega

/-- Rounding does not pass an integer. -/
theorem nearest_le_of_le {n : Nat} (hden : 0 < den) (h : num ≤ n * den) : nearest num den ≤ n := by
  have hround := @two_mul_nearest_le num den hden
  have hlt : nearest num den * den < (n + 1) * den := by
    rw [Nat.add_mul]
    omega
  exact Nat.lt_succ_iff.1 (Nat.lt_of_mul_lt_mul_right hlt)

end

/-! ## The last place -/

section

variable {num den : Nat}

theorem div_lt_zpow_iff (hden : 0 < den) (e : Int) (k : Nat) :
    (num : ℚ) / den < 2 ^ (e + k) ↔ num * 2 ^ (-e).toNat < den * 2 ^ e.toNat * 2 ^ k := by
  have hden' : (0 : ℚ) < den := by exact_mod_cast hden
  have hlow : (0 : ℚ) < 2 ^ (-e).toNat := by positivity
  rw [zpow_add₀ two_ne_zero, zpow_natCast, ← zpow_toNat_div, div_mul_eq_mul_div,
    div_lt_div_iff₀ hden' hlow]
  constructor
  · intro h
    have h' : (num * 2 ^ (-e).toNat : ℚ) < den * 2 ^ e.toNat * 2 ^ k := by linarith
    exact_mod_cast h'
  · intro h
    have h' : (num * 2 ^ (-e).toNat : ℚ) < den * 2 ^ e.toNat * 2 ^ k := by exact_mod_cast h
    linarith

/-- A ratio lies between powers of two that the lengths of its parts tell. -/
theorem zpow_log2_le_div (hnum : num ≠ 0) (hden : 0 < den) :
    (2 : ℚ) ^ ((num.log2 : Int) - den.log2 - 1) ≤ num / den ∧
      (num : ℚ) / den < 2 ^ ((num.log2 : Int) - den.log2 + 1) := by
  have hden' : (0 : ℚ) < den := by exact_mod_cast hden
  have hpow : (0 : ℚ) < 2 ^ den.log2 := by positivity
  have hlow : (2 ^ num.log2 : ℚ) ≤ num := by exact_mod_cast Nat.log2_self_le hnum
  have hhigh : (num : ℚ) < 2 ^ num.log2 * 2 := by exact_mod_cast Nat.lt_log2_self
  have hdlow : (2 ^ den.log2 : ℚ) ≤ den := by exact_mod_cast Nat.log2_self_le hden.ne'
  have hdhigh : (den : ℚ) < 2 ^ den.log2 * 2 := by exact_mod_cast Nat.lt_log2_self
  rw [zpow_sub₀ two_ne_zero, zpow_add₀ two_ne_zero, zpow_sub₀ two_ne_zero, zpow_natCast,
    zpow_natCast, zpow_one, div_div, div_mul_eq_mul_div, div_le_div_iff₀ (by positivity) hden',
    div_lt_div_iff₀ hden' hpow]
  constructor <;> nlinarith

/-- Above its last place a ratio has 53 bits, or the last place is the smallest there is. -/
theorem lastPlace_spec (hnum : num ≠ 0) (hden : 0 < den) :
    (num : ℚ) / den < 2 ^ (lastPlace num den + 53) ∧
      (lastPlace num den = -1074 ∨ 2 ^ (lastPlace num den + 52) ≤ (num : ℚ) / den) ∧
      -1074 ≤ lastPlace num den := by
  obtain ⟨hlow, hhigh⟩ := zpow_log2_le_div hnum hden
  generalize he₀ : (num.log2 : Int) - den.log2 - 52 = e₀
  rw [show (num.log2 : Int) - den.log2 - 1 = e₀ + 51 by omega] at hlow
  rw [show (num.log2 : Int) - den.log2 + 1 = e₀ + 53 by omega] at hhigh
  obtain ⟨e, he, hlow, hhigh⟩ : ∃ e, lastPlace num den = max e (-1074) ∧
      2 ^ (e + 52) ≤ (num : ℚ) / den ∧ (num : ℚ) / den < 2 ^ (e + 53) := by
    have hiff := @div_lt_zpow_iff num den hden e₀ 52
    by_cases h : num * 2 ^ (-e₀).toNat < den * 2 ^ e₀.toNat * 2 ^ 52
    · refine ⟨e₀ - 1, ?_, ?_, ?_⟩
      · simp only [lastPlace, he₀, if_pos h]
      · rwa [show e₀ - 1 + 52 = e₀ + 51 by omega]
      · rw [show e₀ - 1 + 53 = e₀ + 52 by omega]
        exact hiff.2 h
    · refine ⟨e₀, ?_, not_lt.1 (mt hiff.1 h), hhigh⟩
      simp only [lastPlace, he₀, if_neg h]
  rw [he]
  refine ⟨hhigh.trans_le (zpow_le_zpow_right₀ one_le_two (by omega)), ?_, le_max_right _ _⟩
  rcases max_choice e (-1074) with hmax | hmax
  · rw [hmax]
    exact .inr hlow
  · exact .inl hmax

theorem lastPlace_le (hnum : num ≠ 0) (hden : 0 < den)
    (hmax : (num : ℚ) / den < (2 ^ 53 - 1 / 2) * 2 ^ (971 : Int)) : lastPlace num den ≤ 971 := by
  obtain ⟨-, hlow, -⟩ := lastPlace_spec hnum hden
  by_contra hlarge
  have hle : (2 : ℚ) ^ ((971 : Int) + 53) ≤ 2 ^ (lastPlace num den + 52) :=
    zpow_le_zpow_right₀ one_le_two (by omega)
  have hfar := (hle.trans (hlow.resolve_left (by omega))).trans_lt hmax
  rw [zpow_add₀ two_ne_zero, mul_comm] at hfar
  have hsmall := lt_of_mul_lt_mul_right hfar (by positivity)
  norm_num at hsmall

/-- A ratio that is less than 53 bits above a place is rounded there to 53 bits or the next power of
two. -/
theorem nearest_bounds (hden : 0 < den) {e : Int} (hhigh : (num : ℚ) / den < 2 ^ (e + 53))
    (hlow : e = -1074 ∨ 2 ^ (e + 52) ≤ (num : ℚ) / den) :
    nearest (num * 2 ^ (-e).toNat) (den * 2 ^ e.toNat) ≤ 2 ^ 53 ∧
      (e = -1074 ∨ 2 ^ 52 ≤ nearest (num * 2 ^ (-e).toNat) (den * 2 ^ e.toNat)) := by
  have hden' : 0 < den * 2 ^ e.toNat := Nat.mul_pos hden (by positivity)
  constructor
  · refine nearest_le_of_le hden' ?_
    rw [Nat.mul_comm (2 ^ 53)]
    exact ((div_lt_zpow_iff hden e 53).1 hhigh).le
  · refine hlow.imp_right fun h => le_trans ((Nat.le_div_iff_mul_le hden').2 ?_) div_le_nearest
    rw [Nat.mul_comm]
    exact not_lt.1 (mt (div_lt_zpow_iff hden e 52).2 (not_lt.2 h))

end

/-! ## Rounded ratios -/

theorem fields_ofMagnitude {n : Nat} (h : n < 2 ^ 63) (negative : Bool) :
    (ofMagnitude negative n).exponentField = n / 2 ^ 52 ∧
      (ofMagnitude negative n).fractionField = n % 2 ^ 52 := by
  have hbits : (ofMagnitude negative n).bits.toNat = n + if negative then 2 ^ 63 else 0 := by
    rw [ofMagnitude]
    refine UInt64.toNat_ofNat_of_lt' ?_
    cases negative <;> simp only [Bool.false_eq_true, if_true, if_false, UInt64.size] <;> omega
  rw [exponentField, fractionField, hbits]
  cases negative <;> simp only [Bool.false_eq_true, if_true, if_false] <;> omega

/-- A significand with its last place makes a number, also where it carries into the next power of
two. -/
theorem ofMagnitude_spec {e : Int} {m : Nat} (hmin : -1074 ≤ e) (hm : m ≤ 2 ^ 53)
    (hnormal : e = -1074 ∨ 2 ^ 52 ≤ m) (hmax : (e + 1074).toNat * 2 ^ 52 + m < infinityMagnitude)
    (negative : Bool) :
    (ofMagnitude negative ((e + 1074).toNat * 2 ^ 52 + m)).isFinite = true ∧
      (ofMagnitude negative ((e + 1074).toNat * 2 ^ 52 + m)).magnitude = m * 2 ^ e := by
  obtain ⟨k, hk⟩ := Int.eq_ofNat_of_zero_le (show 0 ≤ e + 1074 by omega)
  obtain rfl : e = k - 1074 := by omega
  rw [infinityMagnitude] at hmax
  rw [hk, Int.toNat_natCast] at hmax ⊢
  obtain ⟨hfield, hfraction⟩ :=
    fields_ofMagnitude (show k * 2 ^ 52 + m < 2 ^ 63 by omega) negative
  generalize ofMagnitude negative (k * 2 ^ 52 + m) = x at hfield hfraction ⊢
  constructor
  · rw [isFinite, bne_iff_ne, hfield]
    omega
  · rw [magnitude, significand, exponent, hfield, hfraction]
    -- The field of the exponent is zero, holds the place, or has taken the carry.
    rcases Nat.lt_or_ge m (2 ^ 52) with hsmall | hlarge
    · obtain rfl : k = 0 := by omega
      rw [if_pos (by omega), if_pos (by omega), Nat.mod_eq_of_lt (by omega)]
      simp
    · rcases Nat.lt_or_ge m (2 ^ 53) with hlt | hge
      · have hone : (k * 2 ^ 52 + m) / 2 ^ 52 = k + 1 := by omega
        have hrest : (k * 2 ^ 52 + m) % 2 ^ 52 + 2 ^ 52 = m := by omega
        rw [hone, if_neg (by omega), if_neg (by omega), hrest]
        congr 2
        omega
      · obtain rfl : m = 2 ^ 53 := by omega
        have htwo : (k * 2 ^ 52 + 2 ^ 53) / 2 ^ 52 = k + 2 := by omega
        have hrest : (k * 2 ^ 52 + 2 ^ 53) % 2 ^ 52 + 2 ^ 52 = 2 ^ 52 := by omega
        have hexponent : ((k + 2 : Nat) : Int) - 1075 = k - 1074 + 1 := by omega
        rw [htwo, if_neg (by omega), if_neg (by omega), hrest, hexponent, zpow_add₀ two_ne_zero]
        push_cast
        ring

/-- A finite ratio is rounded to a multiple of its last place. -/
theorem magnitude_ofRatio {num den : Nat} (hnum : num ≠ 0) (hden : 0 < den) {negative : Bool}
    (hfinite : (ofRatio negative num den).isFinite = true) :
    (ofRatio negative num den).magnitude =
      nearest (num * 2 ^ (-lastPlace num den).toNat) (den * 2 ^ (lastPlace num den).toNat) *
        2 ^ lastPlace num den := by
  obtain ⟨hhigh, hlow, hmin⟩ := lastPlace_spec hnum hden
  unfold ofRatio at hfinite ⊢
  rw [if_neg hnum] at hfinite ⊢
  simp only at hfinite ⊢
  generalize lastPlace num den = e at hhigh hlow hmin hfinite ⊢
  obtain ⟨hm, hnormal⟩ := nearest_bounds hden hhigh hlow
  generalize nearest (num * 2 ^ (-e).toNat) (den * 2 ^ e.toNat) = m at hm hnormal hfinite ⊢
  rcases Nat.lt_or_ge ((e + 1074).toNat * 2 ^ 52 + m) infinityMagnitude with hlt | hge
  · rw [Nat.min_eq_left hlt.le]
    exact (ofMagnitude_spec hmin hm hnormal hlt negative).2
  · rw [Nat.min_eq_right hge] at hfinite
    cases negative <;> cases hfinite

theorem isFinite_ofRatio_of_lt {num den : Nat} (hnum : num ≠ 0) (hden : 0 < den)
    (hmax : (num : ℚ) / den < (2 ^ 53 - 1 / 2) * 2 ^ (971 : Int)) (negative : Bool) :
    (ofRatio negative num den).isFinite = true := by
  obtain ⟨hhigh, hlow, hmin⟩ := lastPlace_spec hnum hden
  have htop := lastPlace_le hnum hden hmax
  unfold ofRatio
  rw [if_neg hnum]
  simp only
  generalize lastPlace num den = e at hhigh hlow hmin htop ⊢
  have hunit : (0 : ℚ) < 2 ^ e := by positivity
  obtain ⟨hm, hnormal⟩ := nearest_bounds hden hhigh hlow
  have hround := @nearest_le (num * 2 ^ (-e).toNat) (den * 2 ^ e.toNat)
    (Nat.mul_pos hden (by positivity))
  rw [div_toNat_eq two_ne_zero num den e] at hround
  generalize nearest (num * 2 ^ (-e).toNat) (den * 2 ^ e.toNat) = m at hround hm hnormal ⊢
  have hfinite : (e + 1074).toNat * 2 ^ 52 + m < infinityMagnitude := by
    rw [infinityMagnitude]
    rcases htop.lt_or_eq with hlt | rfl
    · omega
    · -- At the largest exponent there is no room for a carry.
      have hdiv := (div_lt_iff₀ hunit).2 hmax
      have hlt : (m : ℚ) < (2 ^ 53 : Nat) := by
        push_cast
        linarith
      have hlt := Nat.cast_lt.1 hlt
      omega
  rw [Nat.min_eq_left hfinite.le]
  exact (ofMagnitude_spec hmin hm hnormal hfinite negative).1

/-- A finite ratio is rounded by at most half a unit of its last place. -/
theorem abs_magnitude_ofRatio_sub_le {num den : Nat} (hnum : num ≠ 0) (hden : 0 < den)
    {negative : Bool} (hfinite : (ofRatio negative num den).isFinite = true) :
    |(ofRatio negative num den).magnitude - num / den| ≤ 2 ^ lastPlace num den / 2 := by
  rw [magnitude_ofRatio hnum hden hfinite]
  generalize lastPlace num den = e
  have hunit : (0 : ℚ) < 2 ^ e := by positivity
  have hround := @abs_nearest_sub_le (num * 2 ^ (-e).toNat) (den * 2 ^ e.toNat)
    (Nat.mul_pos hden (by positivity))
  rw [div_toNat_eq two_ne_zero num den e] at hround
  generalize (nearest (num * 2 ^ (-e).toNat) (den * 2 ^ e.toNat) : ℚ) = m at hround ⊢
  calc |m * 2 ^ e - num / den| = |m - num / den / 2 ^ e| * 2 ^ e := by
        rw [← abs_of_pos hunit, ← abs_mul, abs_of_pos hunit, sub_mul, div_mul_cancel₀ _ hunit.ne']
    _ ≤ 1 / 2 * 2 ^ e := mul_le_mul_of_nonneg_right hround hunit.le
    _ = 2 ^ e / 2 := by ring

/-- A ratio below the largest finite number and half a unit of it is rounded to a finite number, by
at most half a unit. -/
theorem ofRatio_spec {num den : Nat} (hnum : num ≠ 0) (hden : 0 < den)
    (hmax : (num : ℚ) / den < (2 ^ 53 - 1 / 2) * 2 ^ (971 : Int)) (negative : Bool) :
    (ofRatio negative num den).isFinite = true ∧
      (ofRatio negative num den).magnitude ≤ num / den + 2 ^ lastPlace num den / 2 := by
  have hfinite := isFinite_ofRatio_of_lt hnum hden hmax negative
  have hround := abs_le.1 (abs_magnitude_ofRatio_sub_le hnum hden hfinite)
  exact ⟨hfinite, by linarith [hround.2]⟩

/-- A number that is not small is rounded by less than one part in 2^53. -/
theorem ofRatio_le {num den : Nat} (hone : 1 ≤ (num : ℚ) / den)
    (hmax : (num : ℚ) / den < (2 ^ 53 - 1 / 2) * 2 ^ (971 : Int)) (negative : Bool) :
    (ofRatio negative num den).magnitude ≤ num / den * (1 + 1 / 2 ^ 53) := by
  have hnum : num ≠ 0 := by
    rintro rfl
    norm_num at hone
  have hden : den ≠ 0 := by
    rintro rfl
    norm_num at hone
  have hden := Nat.pos_of_ne_zero hden
  refine (ofRatio_spec hnum hden hmax negative).2.trans ?_
  have hunit : (2 : ℚ) ^ lastPlace num den * 2 ^ 52 ≤ num / den := by
    rw [← zpow_natCast, ← zpow_add₀ two_ne_zero]
    rcases (lastPlace_spec hnum hden).2.1 with hmin | hlow
    · rw [hmin]
      exact (zpow_le_one_of_nonpos₀ one_le_two (by decide)).trans hone
    · exact hlow
  linarith

end ConfigTree.Binary64
