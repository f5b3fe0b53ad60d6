import ConfigTree.Binary64.Decimal
import ConfigTree.Proofs.Binary64.Rounding
import ConfigTree.Proofs.Text.Digits

/-! How near the decimal text of a number comes to it.  The decimal that is found has at most 18
digits and is not more than half a unit of the last place away from the number. -/

namespace ConfigTree.Binary64

def Decimal.value (d : Decimal) : ℚ := d.digits * 10 ^ d.exponent

/-! ## Numerators and denominators -/

theorem significand_lt (x : Binary64) : x.significand < 2 ^ 53 := by
  have hfraction : x.fractionField < 2 ^ 52 := Nat.mod_lt _ (by decide)
  unfold significand
  split <;> omega

theorem numerator_pos {x : Binary64} (hx : x.significand ≠ 0) : 0 < x.numerator := by
  rw [numerator]
  exact Nat.mul_pos (Nat.pos_of_ne_zero hx) (by positivity)

theorem grid_pos (x : Binary64) (e : Int) : 0 < x.denominator * 10 ^ e.toNat :=
  Nat.mul_pos x.denominator_pos (by positivity)

theorem grid_eq (x : Binary64) (e : Int) :
    ((x.numerator * 10 ^ (-e).toNat : Nat) : ℚ) / (x.denominator * 10 ^ e.toNat : Nat) =
      x.magnitude / 10 ^ e := by
  rw [← numerator_div_denominator]
  exact_mod_cast div_toNat_eq (b := 10) (by decide) x.numerator x.denominator e

theorem grid_lt_iff (x : Binary64) (e : Int) (n : Nat) :
    x.numerator * 10 ^ (-e).toNat < n * (x.denominator * 10 ^ e.toNat) ↔
      x.magnitude < n * 10 ^ e := by
  have hden : (0 : ℚ) < (x.denominator * 10 ^ e.toNat : Nat) := by exact_mod_cast x.grid_pos e
  rw [← div_lt_iff₀ (by positivity), ← grid_eq, div_lt_iff₀ hden]
  exact_mod_cast Iff.rfl

/-! ## The leading digit -/

theorem zpow_length_le_div {num den : Nat} (hden : 0 < den) (hle : den ≤ num) :
    (10 : ℚ) ^ (((Text.ofNat (num / den)).length : Int) - 1) ≤ num / den ∧
      (num : ℚ) / den < 10 ^ ((Text.ofNat (num / den)).length : Int) := by
  have hden' : (0 : ℚ) < den := by exact_mod_cast hden
  have hpos := List.length_pos_iff.2 (Text.ofNat_ne_nil (num / den))
  obtain ⟨hhigh, hlow⟩ := Text.pow_length_ofNat (num / den)
  have hlow := hlow (Nat.div_ne_zero_iff.2 ⟨hden.ne', hle⟩)
  generalize (Text.ofNat (num / den)).length = j at *
  rw [Nat.le_div_iff_mul_le hden] at hlow
  rw [Nat.div_lt_iff_lt_mul hden] at hhigh
  rw [show (j : Int) - 1 = (j - 1 : Nat) by omega, zpow_natCast, zpow_natCast, le_div_iff₀ hden',
    div_lt_iff₀ hden']
  exact ⟨by exact_mod_cast hlow, by exact_mod_cast hhigh⟩

theorem leadingPlace_spec {num den : Nat} (hnum : 0 < num) (hden : 0 < den) :
    (10 : ℚ) ^ (leadingPlace num den - 1) ≤ num / den ∧
      (num : ℚ) / den < 10 ^ leadingPlace num den := by
  have hnum' : (0 : ℚ) < num := by exact_mod_cast hnum
  have hden' : (0 : ℚ) < den := by exact_mod_cast hden
  unfold leadingPlace
  split
  · next hle => exact zpow_length_le_div hden hle
  · next hlt =>
    -- The reciprocal has a leading digit before the point.
    obtain ⟨hlow, hhigh⟩ := zpow_length_le_div hnum (not_le.1 hlt).le
    have hpos := List.length_pos_iff.2 (Text.ofNat_ne_nil (den / num))
    simp only
    generalize (Text.ofNat (den / num)).length = j at *
    have hpower : (den ≤ num * 10 ^ (j - 1)) ↔ (10 : ℚ) ^ (1 - (j : Int)) ≤ num / den := by
      rw [show 1 - (j : Int) = -(j - 1 : Nat) by omega, zpow_neg, zpow_natCast,
        inv_le_iff_one_le_mul₀ (by positivity), div_mul_eq_mul_div, one_le_div hden']
      exact_mod_cast Iff.rfl
    have hbelow : (num : ℚ) / den ≤ 10 ^ (1 - (j : Int)) := by
      rw [← inv_div, show 1 - (j : Int) = -((j : Int) - 1) by omega, zpow_neg]
      exact inv_anti₀ (by positivity) hlow
    have habove : (10 : ℚ) ^ (-(j : Int)) < num / den := by
      rw [← inv_div (den : ℚ), zpow_neg]
      exact inv_strictAnti₀ (by positivity) hhigh
    split
    · next h =>
      rw [show 2 - (j : Int) - 1 = 1 - j by omega]
      exact ⟨hpower.1 h, hbelow.trans_lt (zpow_lt_zpow_right₀ (by norm_num) (by omega))⟩
    · next h =>
      rw [show 1 - (j : Int) - 1 = -j by omega]
      exact ⟨habove.le, not_le.1 (mt hpower.2 h)⟩

/-! ## Decimals on a grid -/

/-- A decimal number close enough to `x`, with at most 18 digits. -/
structure Decimal.Near (x : Binary64) (d : Decimal) : Prop where
  digits_ne_zero : d.digits ≠ 0
  digits_le : d.digits ≤ 10 ^ 17
  le_value : (x.significand - 1 / 2) * 2 ^ x.exponent ≤ d.value
  value_le : d.value ≤ (x.significand + 1 / 2) * 2 ^ x.exponent

section

variable {x : Binary64} {digits : Nat} {e : Int}

theorem bounds_of_readsBack (h : x.readsBack digits e = true) :
    let q := x.exponent - 2
    let unit := 2 ^ q.toNat * 10 ^ (-e).toNat
    let candidate := digits * 10 ^ e.toNat * 2 ^ (-q).toNat
    (4 * x.significand - 2) * unit ≤ candidate ∧ candidate ≤ (4 * x.significand + 2) * unit := by
  unfold readsBack at h
  simp only at h ⊢
  generalize 2 ^ (x.exponent - 2).toNat * 10 ^ (-e).toNat = unit at *
  have hlow : (4 * x.significand - 2) * unit ≤
      (4 * x.significand - if x.significand = 2 ^ 52 ∧ -1074 < x.exponent then 1 else 2) * unit :=
    Nat.mul_le_mul_right _ (by split <;> omega)
  split at h
  · rw [Bool.and_eq_true, decide_eq_true_eq, decide_eq_true_eq] at h
    exact ⟨hlow.trans h.1, h.2⟩
  · rw [Bool.and_eq_true, decide_eq_true_eq, decide_eq_true_eq] at h
    exact ⟨hlow.trans h.1.le, h.2.le⟩

/-- What is compared, in quarters of a unit of the last place. -/
theorem candidate_eq (x : Binary64) (digits : Nat) (e : Int) :
    let q := x.exponent - 2
    ((digits * 10 ^ e.toNat * 2 ^ (-q).toNat : Nat) : ℚ) * 2 ^ x.exponent =
      digits * 10 ^ e * (4 * (2 ^ q.toNat * 10 ^ (-e).toNat : Nat)) := by
  intro q
  have hquarter : (2 : ℚ) ^ (-q).toNat * 2 ^ x.exponent = 4 * 2 ^ q.toNat := by
    have h := zpow_toNat_div 2 q
    rw [zpow_sub₀ two_ne_zero, div_eq_div_iff (by positivity) (by positivity)] at h
    rw [mul_comm, ← h]
    norm_num [mul_comm]
  push_cast
  rw [mul_assoc, hquarter, ← zpow_toNat_div 10 e]
  field_simp

theorem near_of_readsBack (hx : x.significand ≠ 0) (hdigits : digits ≤ 10 ^ 17)
    (h : x.readsBack digits e = true) : Decimal.Near x ⟨digits, e⟩ := by
  obtain ⟨hlow, hhigh⟩ := bounds_of_readsBack h
  have hvalue := candidate_eq x digits e
  have hplace : (0 : ℚ) < 2 ^ x.exponent := by positivity
  have hunit : 0 < 2 ^ (x.exponent - 2).toNat * 10 ^ (-e).toNat := by positivity
  have hne : digits ≠ 0 := by
    rintro rfl
    rw [Nat.zero_mul, Nat.zero_mul] at hlow
    have hpos := Nat.mul_pos (show 0 < 4 * x.significand - 2 by omega) hunit
    omega
  simp only at hvalue hlow hhigh
  generalize 2 ^ (x.exponent - 2).toNat * 10 ^ (-e).toNat = unit at *
  generalize digits * 10 ^ e.toNat * 2 ^ (-(x.exponent - 2)).toNat = candidate at *
  have hlow : (4 * x.significand - 2 : ℚ) * unit ≤ candidate := by
    have hcast : ((4 * x.significand - 2 : Nat) : ℚ) = 4 * x.significand - 2 := by
      rw [Nat.cast_sub (by omega)]
      push_cast
      ring
    rw [← hcast]
    exact_mod_cast hlow
  have hhigh : (candidate : ℚ) ≤ (4 * x.significand + 2) * unit := by exact_mod_cast hhigh
  have hlow := mul_le_mul_of_nonneg_right hlow hplace.le
  have hhigh := mul_le_mul_of_nonneg_right hhigh hplace.le
  rw [hvalue] at hlow hhigh
  have hpos : (0 : ℚ) < 4 * unit := by positivity
  exact ⟨hne, hdigits, le_of_mul_le_mul_right (by rw [Decimal.value]; linarith) hpos,
    le_of_mul_le_mul_right (by rw [Decimal.value]; linarith) hpos⟩

theorem near_of_onGrid? {d : Decimal} (hx : x.significand ≠ 0)
    (he : x.magnitude < 10 ^ (e + 17)) (h : x.onGrid? e = some d) : d.Near x ∧ d.exponent = e := by
  have hden := x.grid_pos e
  have hratio := (x.grid_lt_iff e (10 ^ 17)).2 (by
    rwa [Nat.cast_pow, Nat.cast_ofNat, ← zpow_natCast, mul_comm, ← zpow_add₀ (by norm_num)])
  have hnear := nearest_le_of_le hden hratio.le
  have hbelow := (Nat.div_lt_iff_lt_mul hden).2 hratio
  have hfound {digits : Nat} (hle : digits ≤ 10 ^ 17) (hback : x.readsBack digits e = true) :
      Decimal.Near x ⟨digits, e⟩ ∧ e = e :=
    ⟨near_of_readsBack hx hle hback, rfl⟩
  unfold onGrid? at h
  simp only at h
  split at h
  · next hback =>
    cases h
    exact hfound hnear hback
  · split at h
    · next hback =>
      cases h
      exact hfound hbelow.le hback
    · split at h
      · next hback =>
        cases h
        exact hfound hbelow hback
      · cases h

end

/-! ## The shortest decimal -/

/-- Where no shorter decimal reads back, 17 digits come close enough. -/
theorem near_of_leadingPlace {x : Binary64} {k : Int} (hlow : (10 : ℚ) ^ (k - 1) ≤ x.magnitude)
    (hhigh : x.magnitude < 10 ^ k) :
    Decimal.Near x
      ⟨nearest (x.numerator * 10 ^ (17 - k).toNat) (x.denominator * 10 ^ (k - 17).toNat),
        k - 17⟩ := by
  obtain ⟨e, rfl⟩ : ∃ e, k = e + 17 := ⟨k - 17, by omega⟩
  rw [show 17 - (e + 17) = -e by omega, show e + 17 - 17 = e by omega]
  rw [show e + 17 - 1 = e + (16 : Nat) by omega, zpow_add₀ (by norm_num), zpow_natCast] at hlow
  rw [show e + 17 = e + (17 : Nat) by omega, zpow_add₀ (by norm_num), zpow_natCast] at hhigh
  have hten : (0 : ℚ) < 10 ^ e := by positivity
  have hunit : (0 : ℚ) < 2 ^ x.exponent := by positivity
  have hne : nearest (x.numerator * 10 ^ (-e).toNat) (x.denominator * 10 ^ e.toNat) ≠ 0 := by
    have hmany := mt (x.grid_lt_iff e 1).1 (by rw [Nat.cast_one]; linarith)
    have hfloor := (Nat.le_div_iff_mul_le (x.grid_pos e)).2 (not_lt.1 hmany)
    exact (Nat.lt_of_lt_of_le Nat.one_pos (hfloor.trans div_le_nearest)).ne'
  have hle : nearest (x.numerator * 10 ^ (-e).toNat) (x.denominator * 10 ^ e.toNat) ≤ 10 ^ 17 := by
    refine nearest_le_of_le (x.grid_pos e) ((x.grid_lt_iff e (10 ^ 17)).2 ?_).le
    rwa [Nat.cast_pow, Nat.cast_ofNat, mul_comm]
  -- A unit of the 17th digit is not more than one of the last place.
  have hlast : (10 : ℚ) ^ e ≤ 2 ^ x.exponent := by
    have hsignificand : (x.significand : ℚ) ≤ 10 ^ 16 := by
      have := x.significand_lt
      exact_mod_cast (by omega : x.significand ≤ 10 ^ 16)
    have hle := hlow.trans (mul_le_mul_of_nonneg_right hsignificand hunit.le)
    linarith
  have hnearest := @abs_nearest_sub_le (x.numerator * 10 ^ (-e).toNat) _ (x.grid_pos e)
  rw [grid_eq] at hnearest
  obtain ⟨hbelow, habove⟩ := abs_le.1 hnearest
  have hscaled : x.magnitude / 10 ^ e * 10 ^ e = x.significand * 2 ^ x.exponent :=
    div_mul_cancel₀ _ hten.ne'
  have hbelow := mul_le_mul_of_nonneg_right hbelow hten.le
  have habove := mul_le_mul_of_nonneg_right habove hten.le
  rw [sub_mul, hscaled] at hbelow habove
  exact ⟨hne, hle, by rw [Decimal.value]; linarith, by rw [Decimal.value]; linarith⟩

theorem Decimal.Near.trimmed {x : Binary64} (fuel : Nat) {d : Decimal} (h : d.Near x) :
    (d.trimmed fuel).Near x ∧ d.exponent ≤ (d.trimmed fuel).exponent ∧
      (d.trimmed fuel).exponent ≤ d.exponent + fuel := by
  induction fuel generalizing d with
  | zero => exact ⟨h, le_rfl, by simp [Decimal.trimmed]⟩
  | succ fuel ih =>
    unfold Decimal.trimmed
    split
    · next hd =>
      have hdigits : d.digits = 10 * (d.digits / 10) := by omega
      have hvalue : Decimal.value ⟨d.digits / 10, d.exponent + 1⟩ = d.value := by
        have hcast : (d.digits : ℚ) = 10 * (d.digits / 10 : Nat) := by exact_mod_cast hdigits
        rw [Decimal.value, Decimal.value, hcast, zpow_add₀ (by norm_num), zpow_one]
        ring
      have hnext : Decimal.Near x ⟨d.digits / 10, d.exponent + 1⟩ :=
        ⟨by have := hd.2; simp only; omega, by have := h.digits_le; simp only; omega,
          hvalue ▸ h.le_value, hvalue ▸ h.value_le⟩
      obtain ⟨hnear, hlow, hhigh⟩ := ih hnext
      simp only at hlow hhigh
      exact ⟨hnear, by omega, by push_cast; omega⟩
    · exact ⟨h, le_rfl, by omega⟩

theorem shortest_spec {x : Binary64} (hx : x.significand ≠ 0) :
    x.shortest.Near x ∧
      leadingPlace x.numerator x.denominator - 17 ≤ x.shortest.exponent ∧
      x.shortest.exponent ≤ leadingPlace x.numerator x.denominator + 16 := by
  obtain ⟨hlow, hhigh⟩ := leadingPlace_spec (numerator_pos hx) x.denominator_pos
  rw [numerator_div_denominator] at hlow hhigh
  unfold shortest
  rw [if_neg hx]
  simp only
  generalize leadingPlace x.numerator x.denominator = k at hlow hhigh ⊢
  cases hfound : (List.range 17).findSome? fun n : Nat => x.onGrid? (k - 1 - n) with
  | none =>
    obtain ⟨hnear, hle, hge⟩ := (near_of_leadingPlace hlow hhigh).trimmed 17
    simp only at hle hge
    exact ⟨hnear, hle, by rw [Option.getD_none]; omega⟩
  | some d =>
    obtain ⟨n, hn, hgrid⟩ := List.exists_of_findSome?_eq_some hfound
    have hn := List.mem_range.1 hn
    obtain ⟨hnear, hexponent⟩ := near_of_onGrid? hx
      (hhigh.trans_le (zpow_le_zpow_right₀ (by norm_num) (by omega))) hgrid
    obtain ⟨hnear, hle, hge⟩ := hnear.trimmed 17
    rw [Option.getD_some]
    exact ⟨hnear, by omega, by push_cast at hge; omega⟩

/-! ## The range of the exponent -/

theorem exponent_bounds {x : Binary64} (hfinite : x.isFinite = true) :
    -1074 ≤ x.exponent ∧ x.exponent ≤ 971 := by
  have hlt : x.exponentField < 2 ^ 11 := Nat.mod_lt _ (by decide)
  have hne : x.exponentField ≠ 2047 := by simpa [isFinite] using hfinite
  rw [exponent]
  split <;> omega

/-- The leading digit does not stand further from the point in ten digits than in two. -/
theorem leadingPlace_bounds {x : Binary64} (hx : x.significand ≠ 0) :
    min x.exponent 0 < leadingPlace x.numerator x.denominator ∧
      leadingPlace x.numerator x.denominator ≤ max (x.exponent + 53) 0 := by
  obtain ⟨hlow, hhigh⟩ := leadingPlace_spec (numerator_pos hx) x.denominator_pos
  rw [numerator_div_denominator, magnitude] at hlow hhigh
  generalize leadingPlace x.numerator x.denominator = k at hlow hhigh ⊢
  have hunit : (0 : ℚ) < 2 ^ x.exponent := by positivity
  constructor
  · by_contra hk
    obtain ⟨n, rfl⟩ : ∃ n : Nat, k = -n := ⟨k.natAbs, by omega⟩
    have hone : (1 : ℚ) ≤ x.significand := by exact_mod_cast Nat.pos_of_ne_zero hx
    have hle : (10 : ℚ) ^ (-n : Int) ≤ 2 ^ x.exponent :=
      calc (10 : ℚ) ^ (-n : Int) ≤ 2 ^ (-n : Int) := by
            rw [zpow_neg, zpow_neg, zpow_natCast, zpow_natCast]
            exact inv_anti₀ (by positivity) (pow_le_pow_left₀ (by norm_num) (by norm_num) n)
        _ ≤ 2 ^ x.exponent := zpow_le_zpow_right₀ one_le_two (by omega)
    exact absurd hhigh (not_lt.2 (hle.trans (le_mul_of_one_le_left hunit.le hone)))
  · by_contra hk
    obtain ⟨n, rfl⟩ : ∃ n : Nat, k = n + 1 := ⟨(k - 1).toNat, by omega⟩
    rw [add_sub_cancel_right, zpow_natCast] at hlow
    have hsignificand : (x.significand : ℚ) < 2 ^ 53 := by exact_mod_cast x.significand_lt
    have hlt : (x.significand : ℚ) * 2 ^ x.exponent < 10 ^ n :=
      calc (x.significand : ℚ) * 2 ^ x.exponent < 2 ^ (53 : Int) * 2 ^ x.exponent :=
            mul_lt_mul_of_pos_right (by exact_mod_cast hsignificand) hunit
        _ = 2 ^ (53 + x.exponent) := (zpow_add₀ two_ne_zero ..).symm
        _ ≤ 2 ^ (n : Int) := zpow_le_zpow_right₀ one_le_two (by omega)
        _ ≤ 10 ^ n := by
            rw [zpow_natCast]
            exact pow_le_pow_left₀ (by norm_num) (by norm_num) n
    exact absurd hlow (not_le.2 hlt)

end ConfigTree.Binary64
