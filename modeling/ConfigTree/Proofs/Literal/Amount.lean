import ConfigTree.Literal
import ConfigTree.Proofs.Binary64.Product
import ConfigTree.Proofs.Text.Numeral
import Mathlib.Data.List.TakeWhile

/-! Amounts: a decimal number with a unit of size behind it.  The number is read in floating point
and multiplied there, so that an integer that comes out stands for the exact product as nearly as
two roundings allow. -/

namespace ConfigTree.Literal

open Text Binary64

/-- Decimal digits, with a point among them or without, and the number that they stand for. -/
inductive Fraction : List Char → ℚ → Prop
  | whole {s : List Char} {n : Int} (h : Denotes 10 s n) : Fraction s n
  | point {s t : List Char} {n : Int} (h : Denotes 10 (s ++ t) n) :
    Fraction (s ++ '.' :: t) (n / 10 ^ t.length)

/-- The units of size in small letters, with what they multiply by. -/
def sizes : List (String × Nat) :=
  [("k", 10 ^ 3), ("kb", 2 ^ 10), ("m", 10 ^ 6), ("mb", 2 ^ 20), ("g", 10 ^ 9), ("gb", 2 ^ 30)]

/-- A decimal number and a unit of size in letters of either case. -/
inductive Amount : List Char → Int → Prop
  | mk {s t : List Char} {x : ℚ} {factor : Nat} {n : Int} (hs : Fraction s x)
    (ht : (String.ofList (t.map Char.toLower), factor) ∈ sizes)
    (hn : Approximates n (x * factor)) : Amount (s ++ t) n

/-! ## Characters -/

/-- The letters of the units. -/
def unitLetters : List Char := ['k', 'm', 'g', 'b']

/-- The characters of amounts. -/
def isAmountChar (c : Char) : Bool := c.isDigit || c == '.' || unitLetters.contains c.toLower

theorem isAlpha_of_toLower {c : Char} (h : c.toLower.isAlpha = true) : c.isAlpha = true := by
  unfold Char.toLower at h
  split at h
  · next hupper => exact Bool.or_eq_true_iff.2 (.inl (decide_eq_true hupper))
  · exact h

theorem isAmountChar_of_toLower {c : Char} (h : c.toLower ∈ unitLetters) :
    isAmountChar c = true := by
  rw [isAmountChar, List.contains_eq_mem, decide_eq_true h, Bool.or_true]

theorem Fraction.forall_mem {s : List Char} {r : ℚ} (h : Fraction s r) :
    ∀ c ∈ s, isAmountChar c = true := by
  have hdigits {t : List Char} {n : Int} (ht : Denotes 10 t n) : ∀ c ∈ t, isAmountChar c = true :=
    ht.forall_mem (by decide)
  cases h with
  | whole h => exact hdigits h
  | point h =>
    have hall := List.forall_mem_append.1 (hdigits h)
    exact List.forall_mem_append.2 ⟨hall.1, List.forall_mem_cons.2 ⟨rfl, hall.2⟩⟩

theorem forall_mem_suffix {t : List Char} {factor : Nat}
    (h : (String.ofList (t.map Char.toLower), factor) ∈ sizes) :
    t ≠ [] ∧ ∀ c ∈ t, c.toLower ∈ unitLetters := by
  have hsizes : ∀ p ∈ sizes, p.1.toList ≠ [] ∧ p.1.toList ⊆ unitLetters := by decide +kernel
  obtain ⟨hne, hall⟩ := hsizes _ h
  rw [String.toList_ofList] at hne hall
  exact ⟨fun ht => hne (by rw [ht, List.map_nil]), fun c hc => hall (List.mem_map_of_mem hc)⟩

theorem Amount.forall_mem {s : List Char} {n : Int} (h : Amount s n) :
    ∀ c ∈ s, isAmountChar c = true := by
  cases h with
  | mk hs ht =>
    exact List.forall_mem_append.2
      ⟨hs.forall_mem, fun c hc => isAmountChar_of_toLower ((forall_mem_suffix ht).2 c hc)⟩

theorem Amount.exists_isAlpha {s : List Char} {n : Int} (h : Amount s n) :
    ∃ c ∈ s, c.isAlpha = true := by
  have hletters : unitLetters.all Char.isAlpha = true := by decide
  cases h with
  | mk hs ht =>
    obtain ⟨hne, hall⟩ := forall_mem_suffix ht
    obtain ⟨c, hc⟩ := List.exists_mem_of_ne_nil _ hne
    exact ⟨c, List.mem_append_right _ hc, isAlpha_of_toLower (List.all_eq_true.1 hletters _ (hall c hc))⟩

/-! ## The number -/

variable {s : List Char} {x : Binary64} {negative : Bool}

theorem Fraction.nonneg {r : ℚ} (h : Fraction s r) : 0 ≤ r := by
  cases h with
  | whole h => exact Int.cast_nonneg h.nonneg
  | point h => exact div_nonneg (Int.cast_nonneg h.nonneg) (by positivity)

theorem exponentPart?_of_forall_not_isAlpha (hs : ∀ c ∈ s, c.isAlpha = false) {e : Int}
    (h : exponentPart? s = some e) : s = [] ∧ e = 0 := by
  cases s with
  | nil => exact ⟨rfl, (Option.some.inj h).symm⟩
  | cons c s =>
    have hc := hs c List.mem_cons_self
    rw [exponentPart?] at h
    split at h
    · next he => rcases he with rfl | rfl <;> cases hc
    · cases h

theorem fraction_whole {n : Nat} (h : natural? 10 s = some n) : Fraction s n := by
  have hfraction := Fraction.whole (denotes_of_natural? (by decide) h)
  rwa [Int.cast_natCast] at hfraction

theorem fraction_point {t : List Char} {n : Nat} (h : natural? 10 (s ++ t) = some n) :
    Fraction (s ++ '.' :: t) (n / 10 ^ t.length) := by
  have hfraction := Fraction.point (denotes_of_natural? (by decide) h)
  rwa [Int.cast_natCast] at hfraction

theorem lt_pow_of_natural? {n : Nat} (h : natural? 10 s = some n) : n < 10 ^ s.length := by
  exact_mod_cast (denotes_of_natural? (by decide) h).lt_pow

/-- A number without a letter is a fraction, as it has no exponent. -/
theorem exists_fraction_of_magnitude? (hs : ∀ c ∈ s, c.isAlpha = false)
    (h : magnitude? negative s = some x) :
    ∃ n width k : Nat, Fraction s (n / 10 ^ k) ∧ n < 10 ^ width ∧
      x = ofDecimal negative n width (-(k : Int)) := by
  have hparts := List.takeWhile_append_dropWhile (p := Char.isDigit) (l := s)
  have hrest {rest : List Char} {e : Int} (hsub : rest ⊆ s.dropWhile Char.isDigit)
      (he : exponentPart? rest = some e) : rest = [] ∧ e = 0 :=
    exponentPart?_of_forall_not_isAlpha
      (fun c hc => hs c ((List.dropWhile_sublist _).mem (hsub hc))) he
  unfold magnitude? at h
  split at h
  next fraction rest hsplit =>
    obtain ⟨n, hn, h⟩ := Option.bind_eq_some_iff.1 h
    obtain ⟨e, he, rfl⟩ := Option.map_eq_some_iff.1 h
    have hlt := lt_pow_of_natural? hn
    split at hsplit
    · next t hdrop =>
      cases hsplit
      have hsub : t.dropWhile Char.isDigit ⊆ s.dropWhile Char.isDigit := by
        rw [hdrop]
        exact fun c hc => List.mem_cons_of_mem _ ((List.dropWhile_sublist _).mem hc)
      obtain ⟨ht, rfl⟩ := hrest hsub he
      have htail := List.takeWhile_append_dropWhile (p := Char.isDigit) (l := t)
      rw [ht, List.append_nil] at htail
      rw [htail] at hn hlt ⊢
      rw [hdrop] at hparts
      refine ⟨n, _, t.length, ?_, hlt, by rw [zero_sub]⟩
      rw [← hparts]
      exact fraction_point hn
    · cases hsplit
      obtain ⟨ht, rfl⟩ := hrest (fun _ => id) he
      rw [ht, List.append_nil] at hparts
      rw [List.append_nil, hparts] at hn
      refine ⟨n, _, 0, ?_, hlt, rfl⟩
      rw [pow_zero, div_one]
      exact fraction_whole hn

/-- The floating-point number is what the fraction rounds to, with the sign. -/
structure Rounds (negative : Bool) (r : ℚ) (x : Binary64) : Prop where
  sign : x.isNegative = negative
  near : x.isFinite = true → |x.magnitude - r| ≤ r / 2 ^ 53 + halfLeast

theorem magnitude?_rounds (hs : ∀ c ∈ s, c.isAlpha = false) (h : magnitude? negative s = some x) :
    ∃ r, Fraction s r ∧ Rounds negative r x := by
  obtain ⟨n, width, k, hfraction, hn, rfl⟩ := exists_fraction_of_magnitude? hs h
  exact ⟨_, hfraction, isNegative_ofDecimal _ _ _ _, abs_ofDecimal_sub_le hn⟩

/-! ## The product -/

/-- The integer that comes out of a number and a unit. -/
theorem Rounds.approximates {r : ℚ} {factor : Nat} {n : Int} (h : Rounds negative r x)
    (hr : 0 ≤ r) (hfactor : factor ≤ 2 ^ 30) (hn : (x.scale factor 1).toInt? = some n) :
    Approximates n.natAbs (r * factor) ∧ n = if negative then -(n.natAbs : Int) else n.natAbs := by
  obtain ⟨hscaled, hmagnitude, hsign⟩ := toInt?_spec hn
  rw [isNegative_scale, h.sign] at hsign
  refine ⟨approximates_of_near ?_, hsign⟩
  have hfinite : x.isFinite = true := by
    by_contra hx
    rw [scale, if_neg hx] at hscaled
    exact hx hscaled
  have hproduct := abs_scale_sub_le hfinite hscaled
  rw [hmagnitude] at hproduct
  rw [Int.cast_natCast]
  exact near_of_two_roundings hr (Nat.cast_nonneg _) (by exact_mod_cast hfactor) (h.near hfinite)
    hproduct

theorem mem_sizes_of_ofSuffix? {suffix : String} {factor : Nat}
    (h : Scale.ofSuffix? suffix = some (.amount factor)) : (suffix, factor) ∈ sizes := by
  unfold Scale.ofSuffix? at h
  split at h <;> cases h <;> decide

theorem le_of_mem_sizes {suffix : String} {factor : Nat} (h : (suffix, factor) ∈ sizes) :
    factor ≤ 2 ^ 30 := by
  have hall : ∀ p ∈ sizes, p.2 ≤ 2 ^ 30 := by decide
  exact hall _ h

theorem eq_amount_of_apply {scale : Scale} {i : Int64} (h : scale.apply x = .int i) :
    ∃ factor, scale = .amount factor ∧ (x.scale factor 1).toInt? = some i.toInt := by
  cases scale with
  | duration num den => cases h
  | amount factor =>
    simp only [Scale.apply] at h
    split at h
    · next n hn =>
      split at h
      · next hlt =>
        cases h
        have hfits : Fits n := ⟨by omega, by omega⟩
        rw [hfits.toInt_ofInt]
        exact ⟨factor, rfl, hn⟩
      · cases h
    · cases h

theorem signed_of_decimal? {p : List Char → Int → Prop} {n : Int} {t : List Char}
    (h : decimal? s = some x)
    (hp : ∀ (negative : Bool) (u : List Char), u <:+ s → magnitude? negative u = some x →
      p (u ++ t) n.natAbs ∧ n = if negative then -(n.natAbs : Int) else n.natAbs) :
    Signed p (s ++ t) n := by
  unfold decimal? at h
  split at h
  · obtain ⟨hn, hsign⟩ := hp true _ (List.suffix_cons _ _) h
    rw [hsign, if_pos rfl]
    exact .marked (.minus hn)
  · obtain ⟨hn, hsign⟩ := hp false _ (List.suffix_cons _ _) h
    rw [hsign]
    exact .marked (.plus hn)
  · obtain ⟨hn, hsign⟩ := hp false s List.suffix_rfl h
    rw [hsign]
    exact .bare hn

/-- An integer that is read with a suffix is an amount. -/
theorem signed_amount_of_suffixed? {i : Int64} (h : suffixed? s = some (.int i)) :
    Signed Amount s i.toInt := by
  obtain ⟨scale, hscale, h⟩ := Option.bind_eq_some_iff.1 h
  obtain ⟨x, hx, h⟩ := Option.map_eq_some_iff.1 h
  obtain ⟨factor, rfl, hn⟩ := eq_amount_of_apply h
  have hsize := mem_sizes_of_ofSuffix? hscale
  rw [← List.takeWhile_append_dropWhile (p := fun c => !c.isAlpha) (l := s)]
  refine signed_of_decimal? hx fun negative u hu hmagnitude => ?_
  have hletters (c : Char) (hc : c ∈ u) : c.isAlpha = false := by
    have := List.mem_takeWhile_imp (hu.mem hc)
    simpa using this
  obtain ⟨r, hfraction, hrounds⟩ := magnitude?_rounds hletters hmagnitude
  obtain ⟨happrox, hsign⟩ := hrounds.approximates hfraction.nonneg (le_of_mem_sizes hsize) hn
  exact ⟨.mk hfraction hsize happrox, hsign⟩

end ConfigTree.Literal
