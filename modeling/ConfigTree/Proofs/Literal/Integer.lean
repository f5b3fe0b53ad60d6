import ConfigTree.Proofs.Json.Scalar
import ConfigTree.Proofs.Literal.Amount

/-! Which literals are integers.  Digits and hexadecimal digits denote the integer exactly, and are
no integer where it does not fit a word; an amount is the only other integer there is. -/

namespace ConfigTree.Literal

open Text

/-- `0x` and hexadecimal digits. -/
inductive Hexadecimal : List Char → Int → Prop
  | mk {x : Char} {s : List Char} {n : Int} (hx : x = 'x' ∨ x = 'X') (h : Denotes 16 s n) :
    Hexadecimal ('0' :: x :: s) n

variable {s : List Char} {n : Int} {i : Int64}

/-! ## Hexadecimal digits -/

theorem Hexadecimal.nonneg (h : Hexadecimal s n) : 0 ≤ n := by
  cases h with
  | mk _ h => exact h.nonneg

theorem Hexadecimal.not_mem_sign (h : Hexadecimal s n) : '-' ∉ s ∧ '+' ∉ s := by
  cases h with
  | mk hx h => rcases hx with rfl | rfl <;> simpa using h.not_mem_sign (by decide)

theorem unmarked_hexadecimal : Unmarked Hexadecimal :=
  unmarked_of_not_mem_sign fun _ _ => Hexadecimal.not_mem_sign

theorem Hexadecimal.exists_mem (h : Hexadecimal s n) : ∃ c ∈ s, c = 'x' ∨ c = 'X' := by
  cases h with
  | mk hx h => exact ⟨_, List.mem_cons_of_mem _ List.mem_cons_self, hx⟩

theorem Hexadecimal.unique {m : Int} (hm : Hexadecimal s m) (hn : Hexadecimal s n) : m = n := by
  cases hm with
  | mk _ hm =>
    cases hn with
    | mk _ hn => exact hm.unique (by decide) hn

theorem word?_eq_some_iff :
    ((natural? 16 s).bind fun n => if n < 2 ^ 63 then some (Int64.ofNat n) else none) = some i ↔
      Denotes 16 s i.toInt := by
  rw [← natural?_eq_some_iff (by decide), Option.bind_eq_some_iff, Option.map_eq_some_iff]
  refine exists_congr fun n => and_congr_right fun _ => ?_
  split
  · next hn =>
    have hfits : Fits (n : Int) := ⟨by omega, by omega⟩
    rw [Option.some_inj, ← Int64.toInt_inj, ← Int64.ofInt_eq_ofNat, hfits.toInt_ofInt]
    rfl
  · next hn =>
    have hi := i.toInt_lt
    refine iff_of_false (by simp) fun hni => hn ?_
    rw [← hni] at hi
    exact Int.ofNat_lt.1 hi

theorem hexadecimal?_eq_some_iff : hexadecimal? s = some i ↔ Hexadecimal s i.toInt := by
  unfold hexadecimal?
  split
  · rw [word?_eq_some_iff]
    exact ⟨.mk (.inl rfl), fun | .mk _ h => h⟩
  · rw [word?_eq_some_iff]
    exact ⟨.mk (.inr rfl), fun | .mk _ h => h⟩
  · next hsmall hcapital =>
    refine iff_of_false (by simp) ?_
    rintro ⟨rfl | rfl, h⟩
    · exact hsmall _ rfl
    · exact hcapital _ rfl

theorem signedHexadecimal?_eq_some_iff :
    signedHexadecimal? s = some i ↔ Signed Hexadecimal s i.toInt ∧ |i.toInt| < 2 ^ 63 := by
  have habs {t : List Char} {j : Int64} (h : Hexadecimal t j.toInt) : |j.toInt| < 2 ^ 63 := by
    rw [abs_of_nonneg h.nonneg]
    exact j.toInt_lt
  unfold signedHexadecimal?
  split
  · rw [unmarked_hexadecimal.signed_minus_iff, Option.map_eq_some_iff]
    constructor
    · rintro ⟨j, hj, rfl⟩
      rw [hexadecimal?_eq_some_iff] at hj
      rw [toInt_neg_of_nonneg hj.nonneg, Int.neg_neg, abs_neg]
      exact ⟨hj, habs hj⟩
    · rintro ⟨hi, hlt⟩
      obtain ⟨hlow, hhigh⟩ := abs_lt.1 hlt
      refine ⟨-i, hexadecimal?_eq_some_iff.2 ?_, Int64.neg_neg⟩
      rwa [toInt_neg_of_fits ⟨by omega, by omega⟩]
  · rw [unmarked_hexadecimal.signed_plus_iff, hexadecimal?_eq_some_iff]
    exact ⟨fun h => ⟨h, habs h⟩, And.left⟩
  · next hminus hplus =>
    rw [signed_bare_iff hminus hplus, hexadecimal?_eq_some_iff]
    exact ⟨fun h => ⟨h, habs h⟩, And.left⟩

/-! ## Readings -/

theorem quoted?_ne_int : quoted? s ≠ some (.int i) := by
  intro h
  unfold quoted? at h
  split at h
  · obtain ⟨t, -, ht⟩ := Option.map_eq_some_iff.1 h
    cases ht
  · split at h <;> cases h
  · cases h

theorem keyword?_ne_int : keyword? s ≠ some (.int i) := by
  intro h
  unfold keyword? ofKeyword? at h
  split at h <;> cases h

theorem reading?_eq_int (h : reading? s = some (.int i)) :
    int64? 10 s = some i ∨ signedHexadecimal? s = some i ∨ suffixed? s = some (.int i) := by
  unfold reading? at h
  simp only [Option.orElse_eq_orElse, Option.orElse_eq_or, Option.or_eq_some_iff] at h
  rcases h with h | ⟨-, h | ⟨-, h | ⟨-, h | ⟨-, h | ⟨-, h⟩⟩⟩⟩⟩
  · exact absurd h quoted?_ne_int
  · exact absurd h keyword?_ne_int
  · obtain ⟨j, hj, hij⟩ := Option.map_eq_some_iff.1 h
    cases hij
    exact .inl hj
  · obtain ⟨j, hj, hij⟩ := Option.map_eq_some_iff.1 h
    cases hij
    exact .inr (.inl hj)
  · obtain ⟨x, -, hx⟩ := Option.map_eq_some_iff.1 h
    cases hx
  · exact .inr (.inr h)

/-- A literal that is an integer is written in one of three ways. -/
theorem signed_of_parse {text : String} (h : parse text = .int i) :
    Signed (Denotes 10) (trim text.toList) i.toInt ∨
      (Signed Hexadecimal (trim text.toList) i.toInt ∧ |i.toInt| < 2 ^ 63) ∨
      Signed Amount (trim text.toList) i.toInt := by
  unfold parse at h
  cases hread : reading? (trim text.toList) with
  | none =>
    rw [hread] at h
    cases h
  | some n =>
    rw [hread, Option.getD_some] at h
    rw [h] at hread
    rcases reading?_eq_int hread with hread | hread | hread
    · exact .inl ((int64?_eq_some_iff (by decide)).1 hread)
    · exact .inr (.inl (signedHexadecimal?_eq_some_iff.1 hread))
    · exact .inr (.inr (signed_amount_of_suffixed? hread))

/-! ## Numerals are read -/

theorem exists_isPlain_of_decimal (h : Signed (Denotes 10) s n) :
    ∃ c t, s = c :: t ∧ IsPlain c := by
  cases s with
  | nil =>
    rcases h with h | ⟨⟨⟩⟩
    exact absurd rfl h.ne_nil
  | cons c t =>
    have hall := h.forall_mem (q := IsPlain) (by decide) fun _ _ ht => ht.forall_mem (by decide)
    exact ⟨c, t, rfl, hall c List.mem_cons_self⟩

theorem exists_isPlain_of_hexadecimal (h : Signed Hexadecimal s n) :
    ∃ c t, s = c :: t ∧ IsPlain c := by
  rcases h with ⟨_, _⟩ | ⟨⟨_, _⟩ | ⟨_, _⟩⟩
  all_goals exact ⟨_, _, rfl, by decide⟩

theorem not_decimal_of_hexadecimal (h : Signed Hexadecimal s n) {m : Int} :
    ¬ Signed (Denotes 10) s m :=
  h.apart (r := fun c => c = 'x' ∨ c = 'X') (by decide) (fun _ _ => Hexadecimal.exists_mem)
    fun _ _ ht => ht.forall_mem (by decide)

theorem not_decimal_of_amount (h : Signed Amount s n) {m : Int} : ¬ Signed (Denotes 10) s m :=
  h.apart (r := fun c => c.isAlpha = true) (by decide) (fun _ _ => Amount.exists_isAlpha)
    fun _ _ ht => ht.forall_mem (by decide)

theorem not_amount_of_hexadecimal (h : Signed Hexadecimal s n) {m : Int} : ¬ Signed Amount s m := by
  refine h.apart (r := fun c => c = 'x' ∨ c = 'X') (by decide) (fun _ _ => Hexadecimal.exists_mem) ?_
  rintro t k ht c hc (rfl | rfl)
  all_goals exact absurd (ht.forall_mem _ hc) (by decide)

/-- Decimal digits are the integer that they denote, and none where that does not fit. -/
theorem parse_of_decimal {text : String} (h : Signed (Denotes 10) (trim text.toList) n) :
    (Fits n → parse text = .int (.ofInt n)) ∧ (¬ Fits n → ∀ i, parse text ≠ .int i) := by
  constructor
  · intro hfits
    obtain ⟨c, t, hs, hc⟩ := exists_isPlain_of_decimal h
    rw [← hfits.toInt_ofInt] at h
    have hword := (int64?_eq_some_iff (by decide)).2 h
    apply parse_eq_of_reading?
    rw [hs] at hword ⊢
    rw [reading?_of_isPlain hc, hword]
    rfl
  · intro hfits i hi
    rcases signed_of_parse hi with hi | hi | hi
    · rw [h.unique (unmarked_denotes (by decide)) (Denotes.unique (by decide)) hi] at hfits
      exact hfits (fits_toInt i)
    · exact not_decimal_of_hexadecimal hi.1 h
    · exact not_decimal_of_amount hi h

/-- Hexadecimal digits are the integer that they denote, and none where its magnitude is too
large. -/
theorem parse_of_hexadecimal {text : String} (h : Signed Hexadecimal (trim text.toList) n) :
    (|n| < 2 ^ 63 → parse text = .int (.ofInt n)) ∧ (¬ |n| < 2 ^ 63 → ∀ i, parse text ≠ .int i) := by
  constructor
  · intro hlt
    obtain ⟨hlow, hhigh⟩ := abs_lt.1 hlt
    have hfits : Fits n := ⟨hlow.le, hhigh⟩
    obtain ⟨c, t, hs, hc⟩ := exists_isPlain_of_hexadecimal h
    have hdecimal : int64? 10 (trim text.toList) = none := by
      rw [Option.eq_none_iff_forall_ne_some]
      intro i hi
      exact not_decimal_of_hexadecimal h ((int64?_eq_some_iff (by decide)).1 hi)
    rw [← hfits.toInt_ofInt] at h hlt
    have hword := signedHexadecimal?_eq_some_iff.2 ⟨h, hlt⟩
    apply parse_eq_of_reading?
    rw [hs] at hdecimal hword ⊢
    rw [reading?_of_isPlain hc, hdecimal, hword]
    rfl
  · intro hlt i hi
    rcases signed_of_parse hi with hi | ⟨hi, hilt⟩ | hi
    · exact not_decimal_of_hexadecimal h hi
    · rw [hi.unique unmarked_hexadecimal Hexadecimal.unique h] at hilt
      exact hlt hilt
    · exact not_amount_of_hexadecimal h hi

/-- Integers are inferred exactly.  What is read as an integer is decimal digits, hexadecimal digits
or an amount, and the digits denote it.  Digits that denote a number in the range of the words are
read as that number, others never as an integer. -/
theorem integers_are_inferred_exactly (text : String) :
    (∀ i, parse text = .int i →
      Signed (Denotes 10) (trim text.toList) i.toInt ∨
      Signed Hexadecimal (trim text.toList) i.toInt ∨ Signed Amount (trim text.toList) i.toInt) ∧
    (∀ n, Signed (Denotes 10) (trim text.toList) n →
      (Fits n → parse text = .int (.ofInt n)) ∧ (¬ Fits n → ∀ i, parse text ≠ .int i)) ∧
    (∀ n, Signed Hexadecimal (trim text.toList) n →
      (|n| < 2 ^ 63 → parse text = .int (.ofInt n)) ∧
      (¬ |n| < 2 ^ 63 → ∀ i, parse text ≠ .int i)) ∧
    ∀ i : Int64, parse (String.ofList (ofInt i.toInt)) = .int i := by
  refine ⟨fun i hi => ?_, fun n hn => ?_, fun n hn => ?_, fun i => ?_⟩
  · rcases signed_of_parse hi with hdecimal | ⟨hhexadecimal, -⟩ | hamount
    · exact .inl hdecimal
    · exact .inr (.inl hhexadecimal)
    · exact .inr (.inr hamount)
  · exact parse_of_decimal hn
  · exact parse_of_hexadecimal hn
  · exact parse_ofInt i

theorem integers_are_inferred_exactly_at_limits :
    parse " -9223372036854775808 " = .int (.ofInt (-2 ^ 63)) ∧
      (∀ i, parse "9223372036854775808" ≠ .int i) ∧ parse "0X1f" = .int 31 ∧
      ∀ i, parse "-0x8000000000000000" ≠ .int i := by
  have hlow : Signed (Denotes 10) (trim " -9223372036854775808 ".toList) (-2 ^ 63) :=
    (integer?_eq_some_iff (by decide)).1 (by decide +kernel)
  have hhigh : Signed (Denotes 10) (trim "9223372036854775808".toList) (2 ^ 63) :=
    (integer?_eq_some_iff (by decide)).1 (by decide +kernel)
  have hsmall : Signed Hexadecimal (trim "0X1f".toList) 31 :=
    .bare (.mk (.inr rfl) ((natural?_eq_some_iff (by decide)).1 (by decide +kernel)))
  have hlarge : Signed Hexadecimal (trim "-0x8000000000000000".toList) (-2 ^ 63) :=
    .marked (.minus (.mk (.inl rfl) ((natural?_eq_some_iff (by decide)).1 (by decide +kernel))))
  exact ⟨((integers_are_inferred_exactly _).2.1 _ hlow).1 ⟨by decide, by decide⟩,
    ((integers_are_inferred_exactly _).2.1 _ hhigh).2 fun h => absurd h.2 (by decide),
    ((integers_are_inferred_exactly _).2.2.1 _ hsmall).1 (by decide),
    ((integers_are_inferred_exactly _).2.2.1 _ hlarge).2 (by decide)⟩

end ConfigTree.Literal
