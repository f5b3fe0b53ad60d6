import ConfigTree.Proofs.Text.Digits
import Mathlib.Data.List.Induction

/-! Numerals as they are written: digits with the number that they denote in a radix, and a sign in
front.  A reader of numerals accepts just what is written so, and gives what it denotes. -/

namespace ConfigTree.Text

/-- The character is the digit worth `k`, a letter of either case from ten on. -/
def IsDigit (radix : Nat) (c : Char) (k : Nat) : Prop :=
  k < radix ∧ (c = k.digitChar ∨ c = k.digitChar.toUpper)

/-- Digits and the number that they denote. -/
inductive Denotes (radix : Nat) : List Char → Int → Prop
  | digit {c : Char} {k : Nat} (h : IsDigit radix c k) : Denotes radix [c] k
  | snoc {s : List Char} {n : Int} {c : Char} {k : Nat} (hs : Denotes radix s n)
    (hc : IsDigit radix c k) : Denotes radix (s ++ [c]) (n * radix + k)

/-- A text with a sign in front of it. -/
inductive Marked (p : List Char → Int → Prop) : List Char → Int → Prop
  | plus {s : List Char} {n : Int} (h : p s n) : Marked p ('+' :: s) n
  | minus {s : List Char} {n : Int} (h : p s n) : Marked p ('-' :: s) (-n)

/-- A text with at most one sign in front of it. -/
inductive Signed (p : List Char → Int → Prop) : List Char → Int → Prop
  | bare {s : List Char} {n : Int} (h : p s n) : Signed p s n
  | marked {s : List Char} {n : Int} (h : Marked p s n) : Signed p s n

/-! ## Digits -/

section

variable {radix k : Nat} {c : Char}

theorem digit?_eq_filter (h : radix ≤ 16) (c : Char) :
    digit? radix c = (digit? 16 c).filter (· < radix) := by
  simp only [digit?, Option.filter_filter]
  congr 1
  funext k
  rw [Bool.eq_iff_iff, Bool.and_eq_true, decide_eq_true_eq, decide_eq_true_eq]
  exact ⟨fun hk => ⟨Nat.lt_of_lt_of_le hk h, hk⟩, fun hk => hk.2⟩

theorem eq_digitChar_of_digit? (h : digit? 16 c = some k) :
    k < 16 ∧ (c = k.digitChar ∨ c = k.digitChar.toUpper) := by
  have hdecimal : ∀ k < 16, k < 10 → Char.ofNat (k + 48) = k.digitChar := by decide
  have hsmall : ∀ k < 16, 10 ≤ k → Char.ofNat (k + 87) = k.digitChar := by decide
  have hcapital : ∀ k < 16, 10 ≤ k → Char.ofNat (k + 55) = k.digitChar.toUpper := by decide
  have hchar {m : Nat} (hm : c.toNat = m) : c = Char.ofNat m := by rw [← hm, Char.ofNat_toNat]
  simp only [digit?, Option.filter_eq_some_iff, decide_eq_true_eq] at h
  obtain ⟨h, hk⟩ := h
  refine ⟨hk, ?_⟩
  split at h
  · next hc =>
    have hlow : 48 ≤ c.toNat := hc.1
    have hhigh : c.toNat ≤ 57 := hc.2
    have hvalue : c.toNat - 48 = k := Option.some.inj h
    exact .inl ((hchar (by omega)).trans (hdecimal k hk (by omega)))
  · split at h
    · next hc =>
      have hlow : 97 ≤ c.toNat := hc.1
      have hvalue : c.toNat - 97 + 10 = k := Option.some.inj h
      exact .inl ((hchar (by omega)).trans (hsmall k hk (by omega)))
    · split at h
      · next hc =>
        have hlow : 65 ≤ c.toNat := hc.1
        have hvalue : c.toNat - 65 + 10 = k := Option.some.inj h
        exact .inr ((hchar (by omega)).trans (hcapital k hk (by omega)))
      · cases h

theorem digit?_eq_some_iff (h : radix ≤ 16) : digit? radix c = some k ↔ IsDigit radix c k := by
  have hdigits : ∀ k < 16, digit? 16 k.digitChar = some k ∧
      digit? 16 k.digitChar.toUpper = some k := by decide
  rw [digit?_eq_filter h, Option.filter_eq_some_iff, decide_eq_true_eq, IsDigit]
  constructor
  · exact fun ⟨hdigit, hk⟩ => ⟨hk, (eq_digitChar_of_digit? hdigit).2⟩
  · rintro ⟨hk, rfl | rfl⟩
    · exact ⟨(hdigits k (Nat.lt_of_lt_of_le hk h)).1, hk⟩
    · exact ⟨(hdigits k (Nat.lt_of_lt_of_le hk h)).2, hk⟩

/-- What holds of the digits holds of every character of a numeral. -/
theorem Denotes.forall_mem {s : List Char} {n : Int} (h : Denotes radix s n) {p : Char → Prop}
    (hp : ∀ k < radix, p k.digitChar ∧ p k.digitChar.toUpper) : ∀ c ∈ s, p c := by
  have hdigit {c : Char} {k : Nat} (hc : IsDigit radix c k) : p c := by
    obtain ⟨hk, rfl | rfl⟩ := hc
    · exact (hp k hk).1
    · exact (hp k hk).2
  induction h with
  | digit hc =>
    intro c hmem
    rw [List.mem_singleton.1 hmem]
    exact hdigit hc
  | snoc _ hc ih =>
    intro c hmem
    rcases List.mem_append.1 hmem with hmem | hmem
    · exact ih c hmem
    · rw [List.mem_singleton.1 hmem]
      exact hdigit hc

theorem Denotes.ne_nil {s : List Char} {n : Int} (h : Denotes radix s n) : s ≠ [] := by
  cases h <;> simp

theorem Denotes.nonneg {s : List Char} {n : Int} (h : Denotes radix s n) : 0 ≤ n := by
  induction h with
  | digit => exact Int.natCast_nonneg _
  | snoc _ _ ih =>
    exact Int.add_nonneg (Int.mul_nonneg ih (Int.natCast_nonneg _)) (Int.natCast_nonneg _)

theorem Denotes.lt_pow {s : List Char} {n : Int} (h : Denotes radix s n) :
    n < (radix : Int) ^ s.length := by
  induction h with
  | digit hc =>
    rw [List.length_singleton, Int.pow_succ, Int.pow_zero, Int.one_mul]
    exact Int.ofNat_lt.2 hc.1
  | @snoc s n c k _ hc ih =>
    have hk : (k : Int) < radix := Int.ofNat_lt.2 hc.1
    rw [List.length_append, List.length_singleton, Int.pow_succ]
    calc n * radix + k < n * radix + radix := Int.add_lt_add_left hk _
      _ = (n + 1) * radix := by rw [Int.add_mul, Int.one_mul]
      _ ≤ (radix : Int) ^ s.length * radix :=
        Int.mul_le_mul_of_nonneg_right ih (Int.natCast_nonneg _)

end

/-! ## Numerals without a sign -/

section

variable {radix : Nat} {s : List Char} {n : Int}

theorem accumulate?_append (n : Nat) (s t : List Char) :
    accumulate? radix n (s ++ t) = (accumulate? radix n s).bind (accumulate? radix · t) := by
  induction s generalizing n with
  | nil => rfl
  | cons c s ih =>
    rw [List.cons_append, accumulate?, accumulate?, Option.bind_assoc]
    exact Option.bind_congr fun d _ => ih _

theorem accumulate?_singleton (n : Nat) (c : Char) :
    accumulate? radix n [c] = (digit? radix c).map (n * radix + ·) := by
  rw [accumulate?]
  cases digit? radix c <;> rfl

theorem natural?_of_ne_nil (h : s ≠ []) : natural? radix s = accumulate? radix 0 s := by
  cases s with
  | nil => exact absurd rfl h
  | cons c s => rfl

theorem Denotes.natural?_eq (hradix : radix ≤ 16) (h : Denotes radix s n) :
    (natural? radix s).map Int.ofNat = some n := by
  induction h with
  | digit hc =>
    rw [natural?, accumulate?_singleton, (digit?_eq_some_iff hradix).2 hc, Option.map_some, Nat.zero_mul,
      Nat.zero_add]
    rfl
  | snoc hs hc ih =>
    obtain ⟨m, hm, rfl⟩ := Option.map_eq_some_iff.1 ih
    rw [natural?_of_ne_nil hs.ne_nil] at hm
    rw [natural?_of_ne_nil (by simp), accumulate?_append, hm, Option.bind_some,
      accumulate?_singleton, (digit?_eq_some_iff hradix).2 hc]
    simp

theorem denotes_of_natural? (hradix : radix ≤ 16) {m : Nat} (h : natural? radix s = some m) :
    Denotes radix s m := by
  induction s using List.reverseRecOn generalizing m with
  | nil => cases h
  | append_singleton s c ih =>
    by_cases hs : s = []
    · rw [hs, List.nil_append, natural?, accumulate?_singleton] at h
      obtain ⟨k, hk, rfl⟩ := Option.map_eq_some_iff.1 h
      rw [hs, Nat.zero_mul, Nat.zero_add]
      exact .digit ((digit?_eq_some_iff hradix).1 hk)
    · rw [natural?_of_ne_nil (by simp), accumulate?_append, ← natural?_of_ne_nil hs] at h
      obtain ⟨l, hl, hc⟩ := Option.bind_eq_some_iff.1 h
      rw [accumulate?_singleton] at hc
      obtain ⟨k, hk, rfl⟩ := Option.map_eq_some_iff.1 hc
      rw [Int.natCast_add, Int.natCast_mul]
      exact .snoc (ih hl) ((digit?_eq_some_iff hradix).1 hk)

theorem natural?_eq_some_iff (hradix : radix ≤ 16) :
    (natural? radix s).map Int.ofNat = some n ↔ Denotes radix s n := by
  refine ⟨fun h => ?_, Denotes.natural?_eq hradix⟩
  obtain ⟨m, hm, rfl⟩ := Option.map_eq_some_iff.1 h
  exact denotes_of_natural? hradix hm

/-- What digits denote is settled. -/
theorem Denotes.unique (hradix : radix ≤ 16) {m : Int} (hm : Denotes radix s m)
    (hn : Denotes radix s n) : m = n :=
  Option.some.inj ((hm.natural?_eq hradix).symm.trans (hn.natural?_eq hradix))

/-- In decimal, octal digits denote no less; the last of them is below eight there too. -/
theorem Denotes.octal_le_decimal {k : Int} (h : Denotes 8 s k) :
    ∃ n, Denotes 10 s n ∧ k ≤ n ∧ n % 10 < 8 := by
  have hdigit {c : Char} {k : Nat} (hc : IsDigit 8 c k) : IsDigit 10 c k :=
    ⟨Nat.lt_of_lt_of_le hc.1 (by decide), hc.2⟩
  induction h with
  | @digit c k hc =>
    have hk := hc.1
    exact ⟨k, .digit (hdigit hc), Int.le_refl _, by omega⟩
  | @snoc s n c k hs hc ih =>
    obtain ⟨m, hm, hle, -⟩ := ih
    have hk := hc.1
    have hnonneg := hs.nonneg
    exact ⟨_, .snoc hm (hdigit hc), by omega, by omega⟩

/-- A zero in front changes nothing. -/
theorem Denotes.zero_cons (h : Denotes 10 s n) : Denotes 10 ('0' :: s) n := by
  have hzero : Denotes 10 ['0'] 0 := .digit (k := 0) ⟨by decide, .inl rfl⟩
  induction h with
  | digit hc => simpa using Denotes.snoc hzero hc
  | snoc _ hc ih => exact .snoc ih hc

/-- A decimal numeral is the number as it is written, with zeros in front of it. -/
theorem Denotes.exists_zeros (h : Denotes 10 s n) :
    ∃ (m zeros : Nat), n = m ∧ s = List.replicate zeros '0' ++ ofNat m := by
  have hdigit {c : Char} {k : Nat} (hc : IsDigit 10 c k) : [c] = ofNat k := by
    have hupper : ∀ k < 10, k.digitChar.toUpper = k.digitChar := by decide
    obtain ⟨hk, rfl | rfl⟩ := hc
    · rw [ofNat, Nat.toDigits_of_lt_base hk]
    · rw [ofNat, Nat.toDigits_of_lt_base hk, hupper k hk]
  induction h with
  | @digit c k hc => exact ⟨k, 0, rfl, hdigit hc⟩
  | @snoc s n c k _ hc ih =>
    obtain ⟨m, zeros, rfl, rfl⟩ := ih
    rw [List.append_assoc, hdigit hc]
    rcases Nat.eq_zero_or_pos m with rfl | hm
    · refine ⟨k, zeros + 1, by simp, ?_⟩
      rw [List.replicate_succ', List.append_assoc]
      rfl
    · refine ⟨10 * m + k, zeros, by push_cast; rw [Int.mul_comm], ?_⟩
      rw [ofNat, ofNat, Nat.toDigits_append_toDigits (by decide) hm hc.1, ofNat]

theorem natural?_zero_cons (h : s ≠ []) : natural? 10 ('0' :: s) = natural? 10 s := by
  rw [natural?_of_ne_nil h]
  rfl

theorem natural?_ten_eq_some_iff {m : Nat} :
    natural? 10 s = some m ↔ ∃ zeros, s = List.replicate zeros '0' ++ ofNat m := by
  constructor
  · intro h
    obtain ⟨k, zeros, hk, hs⟩ := (denotes_of_natural? (by decide) h).exists_zeros
    exact ⟨zeros, Int.ofNat.inj hk ▸ hs⟩
  · rintro ⟨zeros, rfl⟩
    induction zeros with
    | zero => exact natural?_ofNat m
    | succ zeros ih =>
      rw [List.replicate_succ, List.cons_append, natural?_zero_cons (by simp [ofNat_ne_nil]), ih]

theorem isDigit_of_mem_zeros {m zeros : Nat} {c : Char}
    (h : c ∈ List.replicate zeros '0' ++ ofNat m) : c.isDigit = true := by
  rcases List.mem_append.1 h with h | h
  · rw [List.eq_of_mem_replicate h]
    rfl
  · exact isDigit_of_mem_ofNat h

theorem unsigned?_ten_eq_some_iff {bits m : Nat} :
    unsigned? bits 10 s = some m ↔ m < 2 ^ bits ∧ ∃ sign zeros,
      (sign = [] ∨ sign = ['+']) ∧ s = sign ++ (List.replicate zeros '0' ++ ofNat m) := by
  have hplus {t : List Char} {zeros : Nat} : '+' :: t ≠ List.replicate zeros '0' ++ ofNat m := by
    intro ht
    exact absurd (isDigit_of_mem_zeros (ht ▸ List.mem_cons_self)) (by decide)
  have hdigits (t : List Char) : (natural? 10 t).filter (· < 2 ^ bits) = some m ↔
      m < 2 ^ bits ∧ ∃ zeros, t = List.replicate zeros '0' ++ ofNat m := by
    rw [Option.filter_eq_some_iff, decide_eq_true_iff, natural?_ten_eq_some_iff, and_comm]
  unfold unsigned?
  split
  · next t =>
    refine (hdigits t).trans (and_congr_right fun _ => ⟨?_, ?_⟩)
    · exact fun ⟨zeros, ht⟩ => ⟨['+'], zeros, .inr rfl, congrArg ('+' :: ·) ht⟩
    · rintro ⟨sign, zeros, rfl | rfl, ht⟩
      · exact absurd ht hplus
      · exact ⟨zeros, (List.cons.inj ht).2⟩
  · next hsign =>
    refine (hdigits s).trans (and_congr_right fun _ => ⟨?_, ?_⟩)
    · exact fun ⟨zeros, hs⟩ => ⟨[], zeros, .inl rfl, hs⟩
    · rintro ⟨sign, zeros, rfl | rfl, hs⟩
      · exact ⟨zeros, hs⟩
      · exact absurd hs (hsign _)
/-! ## Numerals with a sign -/

section

variable {p : List Char → Int → Prop}

theorem Signed.forall_mem (h : Signed p s n) {q : Char → Prop} (hsign : q '-' ∧ q '+')
    (hp : ∀ t m, p t m → ∀ c ∈ t, q c) : ∀ c ∈ s, q c := by
  rcases h with h | ⟨h | h⟩
  · exact hp _ _ h
  · exact List.forall_mem_cons.2 ⟨hsign.2, hp _ _ h⟩
  · exact List.forall_mem_cons.2 ⟨hsign.1, hp _ _ h⟩

theorem Marked.exists_sign (h : Marked p s n) :
    ∃ c t, s = c :: t ∧ (c = '-' ∨ c = '+') := by
  cases h with
  | plus => exact ⟨_, _, rfl, .inr rfl⟩
  | minus => exact ⟨_, _, rfl, .inl rfl⟩

theorem Signed.imp (h : Signed p s n) {q : List Char → Int → Prop}
    (hpq : ∀ t m, p t m → q t m) : Signed q s n := by
  rcases h with h | ⟨h | h⟩
  · exact .bare (hpq _ _ h)
  · exact .marked (.plus (hpq _ _ h))
  · exact .marked (.minus (hpq _ _ h))

theorem Signed.exists_mem (h : Signed p s n) {q : Char → Prop}
    (hp : ∀ t m, p t m → ∃ c ∈ t, q c) : ∃ c ∈ s, q c := by
  rcases h with h | ⟨h | h⟩
  · exact hp _ _ h
  all_goals
    obtain ⟨c, hc, hq⟩ := hp _ _ h
    exact ⟨c, List.mem_cons_of_mem _ hc, hq⟩

/-- Two kinds of numerals are apart if one of them has a character that the other has not. -/
theorem Signed.apart (h : Signed p s n) {q : List Char → Int → Prop} {r : Char → Prop}
    (hsign : ¬ r '-' ∧ ¬ r '+') (hp : ∀ t m, p t m → ∃ c ∈ t, r c)
    (hq : ∀ t m, q t m → ∀ c ∈ t, ¬ r c) {m : Int} : ¬ Signed q s m := by
  intro hs
  obtain ⟨c, hc, hr⟩ := h.exists_mem hp
  exact hs.forall_mem hsign hq c hc hr

end

/-- No text starts with a sign. -/
def Unmarked (p : List Char → Int → Prop) : Prop :=
  ∀ s n, p s n → s.head? ≠ some '-' ∧ s.head? ≠ some '+'

section

variable {p : List Char → Int → Prop} (hp : Unmarked p) {t : List Char}

include hp

theorem Unmarked.signed_minus_iff : Signed p ('-' :: t) n ↔ p t (-n) := by
  constructor
  · rintro (h | ⟨⟨⟩ | h⟩)
    · exact absurd rfl (hp _ _ h).1
    · rwa [Int.neg_neg]
  · intro h
    have hmarked := Marked.minus h
    rw [Int.neg_neg] at hmarked
    exact .marked hmarked

theorem Unmarked.signed_plus_iff : Signed p ('+' :: t) n ↔ p t n := by
  constructor
  · rintro (h | ⟨h | ⟨⟩⟩)
    · exact absurd rfl (hp _ _ h).2
    · exact h
  · exact fun h => .marked (.plus h)

end

theorem signed_bare_iff {p : List Char → Int → Prop} (hminus : ∀ t, s ≠ '-' :: t)
    (hplus : ∀ t, s ≠ '+' :: t) : Signed p s n ↔ p s n := by
  constructor
  · rintro (h | ⟨h | h⟩)
    · exact h
    · exact absurd rfl (hplus _)
    · exact absurd rfl (hminus _)
  · exact .bare

/-- What is written behind a sign is settled where it is settled without. -/
theorem Signed.unique {p : List Char → Int → Prop} (hp : Unmarked p)
    (hunique : ∀ {s m n}, p s m → p s n → m = n) {m : Int} (hm : Signed p s m)
    (hn : Signed p s n) : m = n := by
  rcases hm with hm | ⟨hm | hm⟩
  · refine hunique hm ((signed_bare_iff ?_ ?_).1 hn)
    · rintro t rfl
      exact (hp _ _ hm).1 rfl
    · rintro t rfl
      exact (hp _ _ hm).2 rfl
  · exact hunique hm (hp.signed_plus_iff.1 hn)
  · rw [hunique hm (hp.signed_minus_iff.1 hn), Int.neg_neg]

theorem Denotes.not_mem_sign (hradix : radix ≤ 16) (h : Denotes radix s n) :
    '-' ∉ s ∧ '+' ∉ s := by
  have hdigits : ∀ k < 16, (k.digitChar ≠ '-' ∧ k.digitChar ≠ '+') ∧
      k.digitChar.toUpper ≠ '-' ∧ k.digitChar.toUpper ≠ '+' := by decide
  have hall := h.forall_mem (p := fun c => c ≠ '-' ∧ c ≠ '+') fun k hk =>
    hdigits k (Nat.lt_of_lt_of_le hk hradix)
  exact ⟨fun hmem => (hall _ hmem).1 rfl, fun hmem => (hall _ hmem).2 rfl⟩

theorem unmarked_of_not_mem_sign {p : List Char → Int → Prop}
    (hp : ∀ s n, p s n → '-' ∉ s ∧ '+' ∉ s) : Unmarked p := fun _ _ h =>
  ⟨fun hhead => (hp _ _ h).1 (List.mem_of_head? hhead),
    fun hhead => (hp _ _ h).2 (List.mem_of_head? hhead)⟩

theorem unmarked_denotes (hradix : radix ≤ 16) : Unmarked (Denotes radix) :=
  unmarked_of_not_mem_sign fun _ _ h => h.not_mem_sign hradix

theorem integer?_eq_some_iff (hradix : radix ≤ 16) :
    integer? radix s = some n ↔ Signed (Denotes radix) s n := by
  unfold integer?
  split
  · rw [(unmarked_denotes hradix).signed_minus_iff, ← natural?_eq_some_iff hradix]
    simp only [Option.bind_eq_bind, Option.pure_def, Option.map_eq_some_iff, Option.bind_eq_some_iff,
      Option.some.injEq, Int.ofNat_eq_natCast]
    constructor
    · rintro ⟨_, ⟨m, hm, rfl⟩, rfl⟩
      exact ⟨m, hm, (Int.neg_neg _).symm⟩
    · rintro ⟨m, hm, hn⟩
      exact ⟨m, ⟨m, hm, rfl⟩, by omega⟩
  · rw [(unmarked_denotes hradix).signed_plus_iff, natural?_eq_some_iff hradix]
  · next hminus hplus => rw [signed_bare_iff hminus hplus, natural?_eq_some_iff hradix]

/-- The range of a signed word of 64 bits. -/
def Fits (n : Int) : Prop := -2 ^ 63 ≤ n ∧ n < 2 ^ 63

theorem fits_toInt (n : Int64) : Fits n.toInt := ⟨n.le_toInt, n.toInt_lt⟩

theorem Fits.toInt_ofInt (h : Fits n) : (Int64.ofInt n).toInt = n := Int64.toInt_ofInt_of_le h.1 h.2

theorem toInt_neg_of_fits {i : Int64} (h : Fits (-i.toInt)) : (-i).toInt = -i.toInt := by
  rw [← h.toInt_ofInt, Int64.ofInt_neg, Int64.ofInt_toInt]

theorem toInt_neg_of_nonneg {i : Int64} (h : 0 ≤ i.toInt) : (-i).toInt = -i.toInt := by
  have hlt := i.toInt_lt
  exact toInt_neg_of_fits ⟨by omega, by omega⟩

theorem int64?_eq_some_iff (hradix : radix ≤ 16) {i : Int64} :
    int64? radix s = some i ↔ Signed (Denotes radix) s i.toInt := by
  rw [int64?, signed?, ← integer?_eq_some_iff hradix]
  simp only [Option.map_eq_some_iff, Option.filter_eq_some_iff, decide_eq_true_eq]
  constructor
  · rintro ⟨n, ⟨hn, hfits⟩, rfl⟩
    rw [hn, Fits.toInt_ofInt hfits]
  · exact fun h => ⟨_, ⟨h, fits_toInt i⟩, Int64.ofInt_toInt i⟩

end

end ConfigTree.Text
