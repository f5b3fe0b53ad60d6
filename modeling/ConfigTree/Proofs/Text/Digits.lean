import ConfigTree.Text.Digits

/-! Decimal numerals read back as the number they were written for. -/

namespace ConfigTree.Text

theorem digit?_ten_of_isDigit {c : Char} (h : c.isDigit = true) :
    digit? 10 c = some (c.toNat - '0'.toNat) := by
  have hc : '0' ≤ c ∧ c ≤ '9' := by
    simpa [Char.isDigit, Char.le_def] using h
  have hlt : c.toNat - '0'.toNat < 10 := by
    have h₉ : c.toNat ≤ 57 := hc.2
    simp only [Char.reduceToNat]
    omega
  simp only [digit?, if_pos hc, Option.filter_some, decide_eq_true hlt, if_true]

theorem digit?_ten_eq_none {c : Char} (h : c.isDigit = false) : digit? 10 c = none := by
  have hc : ¬ ('0' ≤ c ∧ c ≤ '9') := by
    simpa [Char.isDigit, Char.le_def] using h
  have hlarge (n : Nat) : (some (n + 10)).filter (· < 10) = none := by
    simp [Option.filter_some]
  simp only [digit?, if_neg hc]
  split
  · exact hlarge _
  · split
    · exact hlarge _
    · rfl

theorem isDigit_of_mem_ofNat {n : Nat} {c : Char} (h : c ∈ ofNat n) : c.isDigit = true :=
  Nat.isDigit_of_mem_toDigits (by decide) (by decide) h

theorem ofNat_ne_nil (n : Nat) : ofNat n ≠ [] := Nat.toDigits_ne_nil

/-- The number of digits tells between which powers of ten a number lies. -/
theorem pow_length_ofNat (n : Nat) :
    n < 10 ^ (ofNat n).length ∧ (n ≠ 0 → 10 ^ ((ofNat n).length - 1) ≤ n) := by
  induction n using Nat.strongRecOn with
  | ind n ih =>
    rw [ofNat, Nat.toDigits_eq_if (by decide)]
    split
    · next hlt => exact ⟨by simpa using hlt, fun h => Nat.pos_of_ne_zero h⟩
    · next hge =>
      obtain ⟨hhigh, hlow⟩ := ih (n / 10) (by omega)
      rw [ofNat] at hhigh hlow
      have hlow := hlow (by omega)
      have hlength : 0 < (Nat.toDigits 10 (n / 10)).length :=
        List.length_pos_iff.2 Nat.toDigits_ne_nil
      obtain ⟨k, hk⟩ : ∃ k, (Nat.toDigits 10 (n / 10)).length = k + 1 :=
        ⟨_, (Nat.sub_add_cancel hlength).symm⟩
      rw [hk] at hhigh hlow
      rw [List.length_append, List.length_singleton, hk, Nat.pow_succ]
      rw [Nat.add_sub_cancel] at hlow ⊢
      rw [Nat.pow_succ] at hhigh ⊢
      exact ⟨by omega, fun _ => by omega⟩

theorem length_ofNat_le {n k : Nat} (hk : 0 < k) (h : n < 10 ^ k) : (ofNat n).length ≤ k := by
  by_cases hn : n = 0
  · rw [hn, ofNat, Nat.toDigits_zero]
    exact hk
  · have hlt := (Nat.pow_lt_pow_iff_right (by decide)).1
      (Nat.lt_of_le_of_lt ((pow_length_ofNat n).2 hn) h)
    omega

/-- Only zero is written with a zero in front. -/
theorem head?_ofNat_ne_zero {n : Nat} (h : 0 < n) : (ofNat n).head? ≠ some '0' := by
  induction n using Nat.strongRecOn with
  | ind n ih =>
    rw [ofNat, Nat.toDigits_eq_if (by decide)]
    split
    · simp only [List.head?_cons, ne_eq, Option.some.injEq, Nat.digitChar_eq_zero]
      omega
    · have hhead := ih (n / 10) (by omega) (by omega)
      cases hs : Nat.toDigits 10 (n / 10) with
      | nil => exact absurd hs Nat.toDigits_ne_nil
      | cons c s => simpa [ofNat, hs] using hhead

/-- Zeros behind a numeral multiply it by a power of ten. -/
theorem ofNat_mul_pow {n : Nat} (h : 0 < n) (k : Nat) :
    ofNat (n * 10 ^ k) = ofNat n ++ List.replicate k '0' := by
  induction k with
  | zero => simp
  | succ k ih =>
    have hpos : 0 < n * 10 ^ k := Nat.mul_pos h (Nat.pow_pos (by decide))
    have hdiv : n * 10 ^ (k + 1) / 10 = n * 10 ^ k := by
      rw [Nat.pow_succ, ← Nat.mul_assoc, Nat.mul_div_cancel _ (by decide)]
    have hmod : n * 10 ^ (k + 1) % 10 = 0 := by
      rw [Nat.pow_succ, ← Nat.mul_assoc, Nat.mul_mod_left]
    rw [ofNat, Nat.toDigits_eq_if (by decide), if_neg (by omega), hdiv, hmod, ← ofNat, ih,
      List.append_assoc, List.replicate_succ']
    rfl

/-- A numeral whose first digit is worth nothing is that digit. -/
theorem eq_nil_of_ofNat_eq_cons {n : Nat} {c : Char} {s : List Char} (h : ofNat n = c :: s)
    (hc : c.toNat - '0'.toNat = 0) : s = [] := by
  have hle : '0'.toNat ≤ c.toNat :=
    (Char.isDigit_iff_toNat.1 (isDigit_of_mem_ofNat (h ▸ List.mem_cons_self))).1
  have hzero : c = '0' := Char.toNat_inj.1 (Nat.le_antisymm (Nat.sub_eq_zero_iff_le.1 hc) hle)
  rcases Nat.eq_zero_or_pos n with rfl | hn
  · rw [ofNat, Nat.toDigits_zero] at h
    exact (List.cons.inj h).2.symm
  · refine absurd ?_ (head?_ofNat_ne_zero hn)
    rw [h, hzero]
    rfl

theorem accumulate?_ten {s : List Char} (h : ∀ c ∈ s, c.isDigit = true) (n : Nat) :
    accumulate? 10 n s = some (Nat.ofDigitChars 10 s n) := by
  induction s generalizing n with
  | nil => simp [accumulate?]
  | cons c s ih =>
    rw [accumulate?, digit?_ten_of_isDigit (h c List.mem_cons_self), Option.bind_some,
      ih (fun c hc => h c (List.mem_cons_of_mem _ hc)), Nat.ofDigitChars_cons, Nat.mul_comm n]

theorem natural?_ofNat (n : Nat) : natural? 10 (ofNat n) = some n := by
  cases h : ofNat n with
  | nil => exact absurd h (ofNat_ne_nil n)
  | cons c s =>
    rw [natural?, ← h, accumulate?_ten fun c => isDigit_of_mem_ofNat, ofNat,
      Nat.ofDigitChars_ten_toDigits]

theorem unsigned?_ofNat {bits n : Nat} (h : n < 2 ^ bits) :
    unsigned? bits 10 (ofNat n) = some n := by
  rw [unsigned?, natural?_ofNat, Option.filter_some, if_pos (decide_eq_true h)]
  intro s hs
  exact absurd (isDigit_of_mem_ofNat (hs ▸ List.mem_cons_self)) (by decide)

theorem integer?_ofInt (n : Int) : integer? 10 (ofInt n) = some n := by
  cases n with
  | ofNat n =>
    have hdigit (c : Char) (h : c ∈ ofNat n) := isDigit_of_mem_ofNat h
    rw [ofInt]
    unfold integer?
    split
    · next s hs => exact absurd (hdigit '-' (by simp [hs])) (by decide)
    · next s hs => exact absurd (hdigit '+' (by simp [hs])) (by decide)
    · rw [natural?_ofNat]
      rfl
  | negSucc n =>
    rw [ofInt, integer?, natural?_ofNat]
    rfl

theorem ofInt_injective {a b : Int} (h : ofInt a = ofInt b) : a = b := by
  have hread := integer?_ofInt a
  rw [h, integer?_ofInt] at hread
  exact (Option.some.inj hread).symm

theorem ofInt_signed {n : Nat} (h : 0 < n) (negative : Bool) :
    ofInt (if negative then -n else n) = (if negative then ['-'] else []) ++ ofNat n := by
  obtain ⟨n, rfl⟩ := Nat.exists_eq_succ_of_ne_zero (Nat.ne_of_gt h)
  cases negative <;> rfl

/-- The characters of an integer. -/
def isIntegerChar (c : Char) : Bool := c.isDigit || c == '-'

theorem isIntegerChar_of_mem_ofInt {n : Int} {c : Char} (h : c ∈ ofInt n) :
    isIntegerChar c = true := by
  cases n with
  | ofNat n => rw [isIntegerChar, isDigit_of_mem_ofNat h, Bool.true_or]
  | negSucc n =>
    rcases List.mem_cons.1 h with rfl | h
    · rfl
    · rw [isIntegerChar, isDigit_of_mem_ofNat h, Bool.true_or]

theorem not_mem_ofInt {c : Char} (h : isIntegerChar c = false) (n : Int) : c ∉ ofInt n := by
  intro hc
  rw [isIntegerChar_of_mem_ofInt hc] at h
  cases h

theorem ofInt_ne_nil (n : Int) : ofInt n ≠ [] := by
  cases n with
  | ofNat n => exact ofNat_ne_nil n
  | negSucc n => exact List.cons_ne_nil _ _

def integerChars : List Char := ['0', '1', '2', '3', '4', '5', '6', '7', '8', '9', '-']

/-- What holds of the eleven characters of integers holds of every character of one. -/
theorem forall_isIntegerChar {p : Char → Prop} [DecidablePred p]
    (h : integerChars.all (fun c => p c) = true) {c : Char} (hc : isIntegerChar c = true) :
    p c := by
  have hdigits : ∀ n < 58, 48 ≤ n → Char.ofNat n ∈ integerChars := by decide
  rw [List.all_eq_true] at h
  refine of_decide_eq_true (h c ?_)
  simp only [isIntegerChar, Bool.or_eq_true, Char.isDigit_iff_toNat, beq_iff_eq] at hc
  rcases hc with ⟨hlow, hhigh⟩ | rfl
  · rw [← Char.ofNat_toNat c]
    exact hdigits c.toNat (Nat.lt_succ_of_le hhigh) hlow
  · decide

theorem int64?_ofInt (n : Int64) : int64? 10 (ofInt n.toInt) = some n := by
  have hle : -(2 ^ (64 - 1) : Int) ≤ n.toInt ∧ n.toInt < 2 ^ (64 - 1) := ⟨n.le_toInt, n.toInt_lt⟩
  rw [int64?, signed?, integer?_ofInt, Option.filter_some, if_pos (decide_eq_true hle)]
  simp

end ConfigTree.Text
