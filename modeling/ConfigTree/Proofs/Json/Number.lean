import ConfigTree.Json.Printer
import ConfigTree.Proofs.Binary64.Shortest
import ConfigTree.Proofs.Json.Line
import Mathlib.Data.Nat.Cast.Order.Field

/-! Every finite number is written as a JSON number that is in range when it is read.  Reading
rounds three times, so it need not give the number back.  Four units below the top of the range the
roundings do not add up to infinity, and for the three numbers above that they are carried out. -/

namespace ConfigTree.Json

open Binary64

/-! ## Scaling -/

/-- The top of the range stands between two powers of ten. -/
theorem top_bounds : 2 * 10 ^ 308 < (2 ^ 54 - 1) * 2 ^ 971 ∧ 2 ^ 53 * 2 ^ 971 < 10 ^ 308 * 10 := by
  decide +kernel

theorem pow_ten_lt {k : Nat} (hk : k ≤ 308) : 2 * 10 ^ k < (2 ^ 54 - 1) * 2 ^ 971 := by
  have hmono (n : Nat) (h : k ≤ n) : 2 * 10 ^ k ≤ 2 * 10 ^ n :=
    Nat.mul_le_mul_left 2 (Nat.pow_le_pow_right (by decide) h)
  exact (hmono 308 hk).trans_lt top_bounds.1

theorem zpow_eq_cast : (2 : ℚ) ^ (971 : Int) = (2 ^ 971 : Nat) := by
  rw [Nat.cast_pow, Nat.cast_ofNat]
  exact zpow_natCast 2 971

/-- What is below the largest finite number and half a unit of it, in whole numbers. -/
theorem cast_lt_top {n : Nat} (h : 2 * n < (2 ^ 54 - 1) * 2 ^ 971) :
    (n : ℚ) < (2 ^ 53 - 1 / 2) * 2 ^ (971 : Int) := by
  rw [zpow_eq_cast]
  generalize 2 ^ 971 = t at h ⊢
  have hcast : ((2 * n : Nat) : ℚ) < ((2 ^ 54 - 1) * t : Nat) := Nat.cast_lt.2 h
  push_cast at hcast
  linarith

theorem powerOfTen_le {k : Nat} (hk : k ≤ 308) :
    (powerOfTen k : ℚ) ≤ 10 ^ k * (1 + 1 / 2 ^ 53) := by
  have hone : (1 : ℚ) ≤ ((10 ^ k : Nat) : ℚ) / (1 : Nat) := by
    rw [Nat.cast_one, div_one, Nat.one_le_cast]
    exact Nat.one_le_pow _ _ (by decide)
  have hmax : ((10 ^ k : Nat) : ℚ) / (1 : Nat) < (2 ^ 53 - 1 / 2) * 2 ^ (971 : Int) := by
    rw [Nat.cast_one, div_one]
    exact cast_lt_top (pow_ten_lt hk)
  have hround := ofRatio_le hone hmax false
  rw [Nat.cast_one, div_one, Nat.cast_pow, Nat.cast_ofNat] at hround
  rw [powerOfTen, ofInt]
  refine le_trans ?_ hround
  rw [← numerator_div_denominator]
  exact Nat.cast_div_le

/-- The numbers next to the largest are written as decimals in range. -/
theorem scaled?_of_top : ∀ i < 3, ∀ negative, ∀ sign,
    (scaled? negative (ofMagnitude sign (infinityMagnitude - 1 - i)).shortest.digits
      (ofMagnitude sign (infinityMagnitude - 1 - i)).shortest.exponent).isSome = true := by
  decide +kernel

theorem eq_ofMagnitude (x : Binary64) :
    x = ofMagnitude x.isNegative (x.exponentField * 2 ^ 52 + x.fractionField) := by
  obtain ⟨bits⟩ := x
  have hlt := bits.toNat_lt
  simp only [isNegative, exponentField, fractionField, ofMagnitude, Binary64.mk.injEq,
    decide_eq_true_eq]
  refine UInt64.toNat.inj ?_
  rw [UInt64.toNat_ofNat_of_lt']
  · split <;> omega
  · simp only [UInt64.size]
    split <;> omega

theorem isFinite_ofRatio {num den : Nat} (hden : 0 < den)
    (hmax : (num : ℚ) / den < (2 ^ 53 - 1 / 2) * 2 ^ (971 : Int)) (negative : Bool) :
    (ofRatio negative num den).isFinite = true := by
  by_cases hnum : num = 0
  · rw [ofRatio, if_pos hnum]
    cases negative <;> rfl
  · exact (ofRatio_spec hnum hden hmax negative).1

theorem top_lt_pow_ten {k : Nat} (hk : 308 < k) :
    (2 ^ 53 - 7 / 2) * 2 ^ (971 : Int) < (10 : ℚ) ^ k := by
  have hmono (n : Nat) (h : n < k) : 10 ^ n * 10 ≤ 10 ^ k :=
    Nat.pow_le_pow_right (n := 10) (by decide) h
  have hcast : ((2 ^ 53 * 2 ^ 971 : Nat) : ℚ) < (10 ^ k : Nat) :=
    Nat.cast_lt.2 (lt_of_lt_of_le top_bounds.2 (hmono 308 hk))
  rw [zpow_eq_cast]
  generalize 2 ^ 971 = t at hcast ⊢
  push_cast at hcast
  have ht : (0 : ℚ) ≤ t := Nat.cast_nonneg t
  linarith

/-- Two roundings up do not make up for three and a half units. -/
theorem isFinite_scale {x : Binary64} {n k : Nat} (hfinite : x.isFinite = true)
    (hround : x.magnitude ≤ n * (1 + 1 / 2 ^ 53)) (hk : k ≤ 308)
    (hle : (n : ℚ) * 10 ^ k ≤ (2 ^ 53 - 7 / 2) * 2 ^ (971 : Int)) :
    (x.scale (powerOfTen k) 1).isFinite = true := by
  rw [scale, if_pos hfinite]
  refine isFinite_ofRatio (by simpa using x.denominator_pos) ?_ _
  rw [Nat.mul_one, Nat.cast_mul, mul_div_right_comm, numerator_div_denominator]
  have hpos : (0 : ℚ) < 2 ^ (971 : Int) := by positivity
  calc x.magnitude * powerOfTen k
      ≤ n * (1 + 1 / 2 ^ 53) * (10 ^ k * (1 + 1 / 2 ^ 53)) :=
        mul_le_mul hround (powerOfTen_le hk) (Nat.cast_nonneg _)
          (mul_nonneg (Nat.cast_nonneg n) (by norm_num))
    _ = n * 10 ^ k * (1 + 1 / 2 ^ 53) ^ 2 := by ring
    _ ≤ (2 ^ 53 - 7 / 2) * 2 ^ (971 : Int) * (1 + 1 / 2 ^ 53) ^ 2 :=
      mul_le_mul_of_nonneg_right hle (by positivity)
    _ < (2 ^ 53 - 1 / 2) * 2 ^ (971 : Int) := by
      generalize (2 : ℚ) ^ (971 : Int) = t at hpos ⊢
      linarith

/-- A decimal that is three and a half units short of the top is in range. -/
theorem scaled?_of_value_le {d : Decimal} (hpos : d.digits ≠ 0) (hdigits : d.digits ≤ 10 ^ 17)
    (hle : d.value ≤ (2 ^ 53 - 7 / 2) * 2 ^ (971 : Int)) (negative : Bool) :
    (scaled? negative d.digits d.exponent).isSome = true := by
  obtain ⟨n, e⟩ := d
  simp only at hpos hdigits ⊢
  unfold scaled?
  simp only
  split
  · rfl
  · next hsign =>
    obtain ⟨k, rfl⟩ := Int.eq_ofNat_of_zero_le (not_lt.1 hsign)
    rw [Decimal.value, zpow_natCast] at hle
    have hone : (1 : ℚ) ≤ n := by exact_mod_cast Nat.pos_of_ne_zero hpos
    have hk : k ≤ 308 := by
      by_contra hk
      have hten := (top_lt_pow_ten (not_le.1 hk)).trans_le
        (le_mul_of_one_le_left (by positivity) hone)
      exact absurd hle (not_le.2 hten)
    have hword : (n : ℚ) / (1 : Nat) < (2 ^ 53 - 1 / 2) * 2 ^ (971 : Int) := by
      rw [Nat.cast_one, div_one]
      exact cast_lt_top ((Nat.mul_le_mul_left 2 hdigits).trans_lt (pow_ten_lt (by decide)))
    have hround := ofRatio_le (by simpa using hone) hword negative
    rw [Nat.cast_one, div_one] at hround
    have hscaled := isFinite_scale (isFinite_ofRatio Nat.one_pos hword negative) hround hk hle
    rw [if_neg (by omega), Int.toNat_natCast, Option.filter_some, if_pos hscaled]
    rfl

/-- All numbers but the three largest are four units short of the top. -/
theorem significand_add_half_le {x : Binary64} (hfield : x.exponentField < 2047)
    (htop : ¬ (x.exponentField = 2046 ∧ 2 ^ 52 - 3 ≤ x.fractionField)) :
    (x.significand + 1 / 2 : ℚ) * 2 ^ x.exponent ≤ (2 ^ 53 - 7 / 2) * 2 ^ (971 : Int) := by
  by_cases hlast : x.exponentField = 2046
  · have hsignificand : x.significand + 4 ≤ 2 ^ 53 := by
      rw [significand, if_neg (by omega)]
      omega
    have hexponent : x.exponent = 971 := by
      rw [Binary64.exponent, if_neg (by omega), hlast]
      rfl
    have hcast : (x.significand : ℚ) + 4 ≤ 2 ^ 53 := by exact_mod_cast hsignificand
    rw [hexponent]
    exact mul_le_mul_of_nonneg_right (by linarith) (by positivity)
  · have hexponent : x.exponent ≤ 970 := by
      rw [Binary64.exponent]
      split <;> omega
    have hcast : (x.significand : ℚ) + 1 ≤ 2 ^ 53 := by exact_mod_cast x.significand_lt
    have hunit : (0 : ℚ) < 2 ^ (970 : Int) := by positivity
    calc (x.significand + 1 / 2 : ℚ) * 2 ^ x.exponent ≤ 2 ^ 53 * 2 ^ (970 : Int) :=
          mul_le_mul (by linarith) (zpow_le_zpow_right₀ one_le_two hexponent) (by positivity)
            (by positivity)
      _ ≤ (2 ^ 53 - 7 / 2) * 2 ^ ((1 : Int) + 970) := by
        rw [zpow_add₀ two_ne_zero, zpow_one]
        generalize (2 : ℚ) ^ (970 : Int) = t at hunit ⊢
        linarith

theorem scaled?_shortest {x : Binary64} (hfinite : x.isFinite = true) (hx : x.significand ≠ 0)
    (negative : Bool) :
    (scaled? negative x.shortest.digits x.shortest.exponent).isSome = true := by
  have hnear := (shortest_spec hx).1
  have hfield : x.exponentField < 2047 := by
    have hlt : x.exponentField < 2 ^ 11 := Nat.mod_lt _ (by decide)
    have hne : x.exponentField ≠ 2047 := by simpa [isFinite] using hfinite
    omega
  have hfraction : x.fractionField < 2 ^ 52 := Nat.mod_lt _ (by decide)
  by_cases htop : x.exponentField = 2046 ∧ 2 ^ 52 - 3 ≤ x.fractionField
  · have heq : x = ofMagnitude x.isNegative
        (infinityMagnitude - 1 - (2 ^ 52 - 1 - x.fractionField)) := by
      rw [infinityMagnitude]
      refine (eq_ofMagnitude x).trans (congrArg _ ?_)
      omega
    rw [heq]
    exact scaled?_of_top _ (by omega) negative x.isNegative
  · exact scaled?_of_value_le hnear.digits_ne_zero hnear.digits_le
      (hnear.value_le.trans (significand_add_half_le hfield htop)) negative

/-! ## Digits, a point and an exponent -/

section

variable {s rest : List Char} {n : Nat} {negative : Bool} {shift : Int}

theorem IsWhole.take (h : IsWhole s) {k : Nat} (hk : 0 < k) : IsWhole (s.take k) where
  digits c hc := h.digits c (List.mem_of_mem_take hc)
  ne_nil := by simp [h.ne_nil, hk.ne']
  leading c t hs hc := by
    obtain ⟨k, rfl⟩ := Nat.exists_eq_succ_of_ne_zero hk.ne'
    cases s with
    | nil => exact absurd rfl h.ne_nil
    | cons a s =>
      obtain ⟨rfl, rfl⟩ := List.cons.inj hs
      rw [h.leading a s rfl hc, List.take_nil]

theorem fraction_append (hs : ∀ c ∈ s, c.isDigit = true) (hne : s ≠ []) (hr : Stops rest)
    (hn : Nat.ofDigitChars 10 s n < 2 ^ 64) :
    fraction negative n shift (s ++ rest) =
      afterDigits negative (Nat.ofDigitChars 10 s n) (shift - s.length) rest := by
  cases s with
  | nil => exact absurd rfl hne
  | cons c s =>
    rw [List.cons_append, fraction, if_pos (hs c List.mem_cons_self), ← List.cons_append,
      gather_append hs hr _ _ hn]
    simp only
    rw [hr.dropWhile_isDigit, Nat.zero_add]

theorem number_point {t : List Char} (hs : IsWhole s) (ht : ∀ c ∈ t, c.isDigit = true)
    (hne : t ≠ []) (hr : Stops rest) (hn : Nat.ofDigitChars 10 (s ++ t) 0 < 2 ^ 64) :
    number negative (s ++ '.' :: (t ++ rest)) =
      afterDigits negative (Nat.ofDigitChars 10 (s ++ t) 0) (-t.length) rest := by
  rw [Nat.ofDigitChars_append] at hn ⊢
  rw [number_append hs (stops_cons_iff.2 (by decide)) negative
    (Nat.lt_of_le_of_lt (le_ofDigitChars t _) hn), afterWhole, fraction_append ht hne hr hn,
    Int.zero_sub]

theorem afterDigits_of_ends (hr : Ends rest) :
    afterDigits negative n shift rest = finish negative n shift rest := by
  cases rest with
  | nil => rfl
  | cons c rest => rw [afterDigits, (ends_cons_iff.1 hr).2.2, if_neg Bool.false_ne_true]

theorem exponentDigits_append (hs : ∀ c ∈ s, c.isDigit = true) (hr : Stops rest)
    (hn : Nat.ofDigitChars 10 s n < 2 ^ 31) :
    exponentDigits n (s ++ rest) = (some (Nat.ofDigitChars 10 s n), rest) := by
  induction s generalizing n with
  | nil =>
    cases rest with
    | nil => rfl
    | cons c rest => simp [exponentDigits, Text.digit?_ten_eq_none (stops_cons_iff.1 hr)]
  | cons c s ih =>
    have hle := le_ofDigitChars s (n * 10 + (c.toNat - '0'.toNat))
    rw [Nat.ofDigitChars_cons, Nat.mul_comm 10 n] at hn ⊢
    rw [List.cons_append, exponentDigits, Text.digit?_ten_of_isDigit (hs c List.mem_cons_self)]
    simp only
    rw [if_pos (Nat.lt_of_le_of_lt hle hn), ih (fun c hc => hs c (List.mem_cons_of_mem _ hc)) hn]

theorem exponent_sign {k : Nat} (hk : k < 2 ^ 31) (hr : Stops rest) :
    exponent negative n shift ('+' :: (Text.ofNat k ++ rest)) = finish negative n (shift + k) rest ∧
      exponent negative n shift ('-' :: (Text.ofNat k ++ rest)) =
        finish negative n (shift - k) rest := by
  have hdigits (c : Char) (hc : c ∈ Text.ofNat k) := Text.isDigit_of_mem_ofNat hc
  have hvalue : Nat.ofDigitChars 10 (Text.ofNat k) 0 = k := Nat.ofDigitChars_ten_toDigits
  cases h : Text.ofNat k with
  | nil => exact absurd h (Text.ofNat_ne_nil k)
  | cons c s =>
    rw [h] at hdigits hvalue
    rw [Nat.ofDigitChars_cons, Nat.mul_zero, Nat.zero_add] at hvalue
    have hread : exponentDigits (c.toNat - '0'.toNat) (s ++ rest) = (some k, rest) := by
      have h := exponentDigits_append (fun c hc => hdigits c (List.mem_cons_of_mem _ hc)) hr
        (hvalue.symm ▸ hk)
      rwa [hvalue] at h
    constructor <;>
    · rw [List.cons_append, exponent]
      rw [Text.digit?_ten_of_isDigit (hdigits c List.mem_cons_self)]
      simp only
      rw [hread]
      simp

theorem afterDigits_exponent {e : Int} (he : e.natAbs < 2 ^ 31) (hr : Stops rest) :
    afterDigits negative n shift
        ('e' :: ((if e < 0 then [] else numberStyle.plus) ++ (Text.ofInt e ++ rest))) =
      finish negative n (shift + e) rest := by
  rw [afterDigits, if_pos (by decide)]
  cases e with
  | ofNat k =>
    rw [if_neg (by simp), Text.ofInt]
    exact (exponent_sign he hr).1
  | negSucc k =>
    rw [if_pos (Int.negSucc_lt_zero k), Text.ofInt]
    exact (exponent_sign he hr).2

end

/-! ## Magnitudes -/

/-- The text of a magnitude: with a sign in front or without, it is read as a number in range
wherever it ends. -/
structure IsMagnitude (s : List Char) : Prop where
  head : ∃ c t, s = c :: t ∧ c.isDigit = true
  read : ∃ n e, ∀ negative, (scaled? negative n e).isSome = true ∧
    ∀ rest, Ends rest → number negative (s ++ rest) = finish negative n e rest

theorem IsWhole.head_append {s : List Char} (h : IsWhole s) (t : List Char) :
    ∃ c u, s ++ t = c :: u ∧ c.isDigit = true := by
  cases s with
  | nil => exact absurd rfl h.ne_nil
  | cons c s => exact ⟨c, s ++ t, rfl, h.digits c List.mem_cons_self⟩

theorem isMagnitude_point {s t : List Char} (hs : IsWhole s) (ht : ∀ c ∈ t, c.isDigit = true)
    (hne : t ≠ []) (hn : Nat.ofDigitChars 10 (s ++ t) 0 < 2 ^ 64) :
    IsMagnitude (s ++ '.' :: t) where
  head := hs.head_append _
  read := by
    refine ⟨Nat.ofDigitChars 10 (s ++ t) 0, -t.length, fun negative => ⟨?_, fun rest hr => ?_⟩⟩
    · have hpos := List.length_pos_iff.2 hne
      rw [scaled?, if_pos (by omega)]
      rfl
    · rw [List.append_assoc, List.cons_append, number_point hs ht hne hr.stops hn,
        afterDigits_of_ends hr]

theorem isMagnitude_exponent {s t : List Char} {e : Int} (hs : IsWhole s)
    (ht : ∀ c ∈ t, c.isDigit = true) (hn : Nat.ofDigitChars 10 (s ++ t) 0 < 2 ^ 64)
    (he : e.natAbs < 2 ^ 31)
    (hrange : ∀ negative,
      (scaled? negative (Nat.ofDigitChars 10 (s ++ t) 0) (e - t.length)).isSome = true) :
    IsMagnitude (s ++ (if t = [] then [] else '.' :: t) ++
      'e' :: (if e < 0 then [] else numberStyle.plus) ++ Text.ofInt e) where
  head := by
    rw [List.append_assoc, List.append_assoc]
    exact hs.head_append _
  read := by
    refine ⟨_, _, fun negative => ⟨hrange negative, fun rest hr => ?_⟩⟩
    rw [List.append_assoc, List.append_assoc, List.append_assoc, List.cons_append]
    split
    · next hnil =>
      subst hnil
      rw [List.append_nil] at hn ⊢
      rw [List.nil_append, number_append hs (stops_cons_iff.2 (by decide)) negative hn, afterWhole]
      · rw [if_pos (by simp [isExponentMark]), afterDigits_exponent he hr.stops]
        simp
      · simp
    · next hne =>
      rw [List.cons_append, number_point hs ht hne (stops_cons_iff.2 (by decide)) hn,
        afterDigits_exponent he hr.stops, Int.add_comm, Int.sub_eq_add_neg]

/-! ## Layouts -/

section

variable {n : Nat}

theorem ofDigitChars_ofNat (n : Nat) : Nat.ofDigitChars 10 (Text.ofNat n) 0 = n :=
  Nat.ofDigitChars_ten_toDigits

theorem isMagnitude_whole {k : Nat} (hzero : n = 0 → k = 0) (hfew : n * 10 ^ k < 10 ^ 16) :
    IsMagnitude (Text.ofNat n ++ List.replicate k '0' ++ ['.', '0']) := by
  have hdigits : Text.ofNat n ++ List.replicate k '0' = Text.ofNat (n * 10 ^ k) := by
    rcases Nat.eq_zero_or_pos n with hn | hn
    · rw [hzero hn]
      simp
    · exact (Text.ofNat_mul_pow hn k).symm
  have hzeros : ∀ c ∈ ['0'], c.isDigit = true := fun c hc => by
    rw [List.mem_singleton.1 hc]
    rfl
  rw [hdigits]
  refine isMagnitude_point (isWhole_ofNat _) hzeros (List.cons_ne_nil _ _) ?_
  rw [Nat.ofDigitChars_append, ofDigitChars_ofNat, Nat.ofDigitChars_cons, Nat.ofDigitChars_nil]
  omega

theorem isMagnitude_between (hn : n < 2 ^ 64) {k : Nat} (hpos : 0 < k)
    (hlt : k < (Text.ofNat n).length) :
    IsMagnitude ((Text.ofNat n).take k ++ '.' :: (Text.ofNat n).drop k) := by
  refine isMagnitude_point ((isWhole_ofNat n).take hpos) (fun c hc => ?_) ?_ ?_
  · exact Text.isDigit_of_mem_ofNat (List.mem_of_mem_drop hc)
  · rwa [Ne, List.drop_eq_nil_iff, not_le]
  · rwa [List.take_append_drop, ofDigitChars_ofNat]

theorem isMagnitude_below (hn : n < 2 ^ 64) (k : Nat) :
    IsMagnitude ('0' :: '.' :: List.replicate k '0' ++ Text.ofNat n) := by
  change IsMagnitude (['0'] ++ '.' :: (List.replicate k '0' ++ Text.ofNat n))
  refine isMagnitude_point (isWhole_ofNat 0) (fun c hc => ?_) ?_ ?_
  · rcases List.mem_append.1 hc with hc | hc
    · rw [List.eq_of_mem_replicate hc]
      decide
    · exact Text.isDigit_of_mem_ofNat hc
  · exact List.append_ne_nil_of_right_ne_nil _ (Text.ofNat_ne_nil n)
  · rw [Nat.ofDigitChars_append, Nat.ofDigitChars_append, Nat.ofDigitChars_cons,
      Nat.ofDigitChars_nil, Nat.ofDigitChars_replicate_zero]
    simpa [ofDigitChars_ofNat] using hn

theorem isMagnitude_scientific (hn : n < 2 ^ 64) {e : Int} (he : e.natAbs < 2 ^ 31)
    (hrange : ∀ negative,
      (scaled? negative n (e - ((Text.ofNat n).drop 1).length)).isSome = true) :
    IsMagnitude ((Text.ofNat n).take 1 ++
      (if (Text.ofNat n).length = 1 then [] else '.' :: (Text.ofNat n).drop 1) ++
      'e' :: (if e < 0 then [] else numberStyle.plus) ++ Text.ofInt e) := by
  have hpos := List.length_pos_iff.2 (Text.ofNat_ne_nil n)
  have hone : (Text.ofNat n).drop 1 = [] ↔ (Text.ofNat n).length = 1 := by
    rw [List.drop_eq_nil_iff]
    omega
  have hsplit : Nat.ofDigitChars 10 ((Text.ofNat n).take 1 ++ (Text.ofNat n).drop 1) 0 = n := by
    rw [List.take_append_drop, ofDigitChars_ofNat]
  have hmagnitude := isMagnitude_exponent (e := e) ((isWhole_ofNat n).take Nat.one_pos)
    (fun c hc => Text.isDigit_of_mem_ofNat (List.mem_of_mem_drop hc)) (by rwa [hsplit]) he
    (by rwa [hsplit])
  simpa only [hone] using hmagnitude

end

theorem isMagnitude_layout {d : Decimal} (hzero : d.digits = 0 → d.exponent = 0)
    (hdigits : d.digits ≤ 10 ^ 17) (hexponent : d.exponent.natAbs < 2 ^ 30)
    (hrange : ∀ negative, (scaled? negative d.digits d.exponent).isSome = true) :
    IsMagnitude (d.layout numberStyle) := by
  obtain ⟨n, e⟩ := d
  simp only at hzero hdigits hexponent hrange
  have hword : n < 2 ^ 64 := Nat.lt_of_le_of_lt hdigits (by decide)
  have hpos := List.length_pos_iff.2 (Text.ofNat_ne_nil n)
  have hlength : (Text.ofNat n).length ≤ 18 :=
    Text.length_ofNat_le (by decide) (Nat.lt_of_le_of_lt hdigits (by decide))
  unfold Decimal.layout
  simp only
  split
  · next hpositional =>
    split
    -- The zeros that follow a whole number bring it to at most 16 digits.
    · next he =>
      obtain ⟨k, rfl⟩ := Int.eq_ofNat_of_zero_le he
      have hbelow : ((Text.ofNat n).length : Int) + k - 1 < 16 := by
        simp only [Style.isPositional, numberStyle, Option.all_some, Bool.and_eq_true,
          decide_eq_true_eq] at hpositional
        exact hpositional.2
      rw [if_pos (show _ < numberStyle.pointBelow from hbelow), Int.toNat_natCast]
      refine isMagnitude_whole (fun hn => by exact_mod_cast hzero hn) ?_
      calc n * 10 ^ k < 10 ^ (Text.ofNat n).length * 10 ^ k :=
            Nat.mul_lt_mul_of_pos_right (Text.pow_length_ofNat n).1 (by positivity)
        _ = 10 ^ ((Text.ofNat n).length + k) := (Nat.pow_add ..).symm
        _ ≤ 10 ^ 16 := Nat.pow_le_pow_right (by decide) (by omega)
    · next he =>
      split
      · exact isMagnitude_between hword (by omega) (by omega)
      · exact isMagnitude_below hword _
  · refine isMagnitude_scientific hword (by omega) fun negative => ?_
    rw [List.length_drop, show ((Text.ofNat n).length : Int) + e - 1 -
      ((Text.ofNat n).length - 1 : Nat) = e by omega]
    exact hrange negative

theorem isMagnitude_shortest {x : Binary64} (hfinite : x.isFinite = true) :
    IsMagnitude (x.shortest.layout numberStyle) := by
  by_cases hx : x.significand = 0
  · have hshortest : x.shortest = ⟨0, 0⟩ := by rw [shortest, if_pos hx]
    rw [hshortest]
    exact isMagnitude_layout (fun _ => rfl) (by decide) (by decide) fun _ => rfl
  · obtain ⟨hnear, hlow, hhigh⟩ := shortest_spec hx
    have hexponent := exponent_bounds hfinite
    have hplace := leadingPlace_bounds hx
    refine isMagnitude_layout (fun h => absurd h hnear.digits_ne_zero) hnear.digits_le ?_
      (scaled?_shortest hfinite hx)
    omega

theorem IsMagnitude.isToken {s : List Char} (h : IsMagnitude s) (hlast : '\n' ∉ s)
    (negative : Bool) : ∃ x, IsToken (.float x) ((if negative then ['-'] else []) ++ s) := by
  obtain ⟨⟨c, t, hs, hc⟩, n, e, hread⟩ := h
  obtain ⟨hrange, hread⟩ := hread negative
  obtain ⟨x, hx⟩ := Option.isSome_iff_exists.1 hrange
  have hnumber (rest : List Char) (hr : Ends rest) :
      number negative (s ++ rest) = .ok (.float x, rest) := by
    rw [hread rest hr, finish, hx]
  refine ⟨x, ?_⟩
  cases negative with
  | false =>
    refine ⟨⟨c, t, hs, isBlank_of_isDigit hc, ?_⟩, fun h => hlast (List.mem_of_getLast? h),
      fun fuel levels rest hr => ?_⟩
    · rintro rfl
      exact absurd hc (by decide)
    · rw [if_neg Bool.false_ne_true, List.nil_append]
      have hvalue := hnumber rest hr
      rw [hs, List.cons_append] at hvalue ⊢
      rw [value_digit hc, hvalue]
  | true =>
    refine ⟨⟨'-', s, rfl, by decide⟩, ?_, fun fuel levels rest hr => ?_⟩
    · intro h
      have hmem := List.mem_of_getLast? h
      simp [hlast] at hmem
    · rw [if_pos rfl, List.append_assoc, List.singleton_append, value, skipBlank_cons (by decide)]
      exact hnumber rest hr

/-- What is written for a number is read as a scalar. -/
theorem exists_isToken_format (x : Binary64) :
    ∃ v : Value, v.depth = 0 ∧ IsToken v (x.format numberStyle) := by
  unfold format
  split
  · exact ⟨.null, rfl, isToken_null⟩
  · split
    · refine ⟨.null, rfl, ?_⟩
      split <;> exact isToken_null
    · next hfinite =>
      have hfinite : x.isFinite = true := by simpa using hfinite
      have hlast := newline_not_mem_layout numberStyle (by decide) x.shortest
      obtain ⟨y, hy⟩ := (isMagnitude_shortest hfinite).isToken hlast x.isNegative
      exact ⟨.float y, rfl, hy⟩

end ConfigTree.Json
