import ConfigTree.Json.Printer
import ConfigTree.Json.Reader
import ConfigTree.Proofs.Text.Digits

/-! Scalars of a JSON text.  What is written for a string, a word or a whole number is read back as
that, and reading stops right after it. -/

namespace ConfigTree.Json

/-! ## Strings -/

theorem digit?_hexDigit : ∀ k < 16, Text.digit? 16 (hexDigit k) = some k := by
  decide

/-- Four hexadecimal digits below the surrogates stand for one character. -/
theorem stringBody_digits {d₁ d₂ : Nat} (h₁ : d₁ < 16) (h₂ : d₂ < 16) (s : List Char) :
    stringBody .nothing ('\\' :: 'u' :: '0' :: '0' :: hexDigit d₁ :: hexDigit d₂ :: s) =
      consChar (Char.ofNat (d₁ * 16 + d₂)) (stringBody .nothing s) := by
  have hzero : Text.digit? 16 '0' = some 0 := by decide
  have hlow : ¬ 0xDC00 ≤ d₁ * 16 + d₂ := by omega
  have hhigh : ¬ 0xD800 ≤ d₁ * 16 + d₂ := by omega
  simp [stringBody, hzero, digit?_hexDigit d₁ h₁, digit?_hexDigit d₂ h₂, hlow, hhigh]

theorem stringBody_escape (c : Char) (s : List Char) :
    stringBody .nothing (escape c ++ s) = consChar c (stringBody .nothing s) := by
  unfold escape
  split
  case h_8 hquote hbackslash _ _ _ _ _ =>
    split
    · next hc =>
      have hsum : c.toNat / 16 * 16 + c.toNat % 16 = c.toNat := Nat.div_add_mod' ..
      rw [List.cons_append, List.cons_append, List.cons_append, List.cons_append, List.cons_append,
        List.cons_append, List.nil_append, stringBody_digits (by omega) (by omega), hsum,
        Char.ofNat_toNat]
    · next hc =>
      rw [List.cons_append, List.nil_append, stringBody, if_neg hquote, if_neg hbackslash,
        if_neg hc]
  all_goals rfl

theorem stringBody_quoted (s rest : List Char) :
    stringBody .nothing (s.flatMap escape ++ '"' :: rest) = .ok (s, rest) := by
  induction s with
  | nil => rfl
  | cons c s ih =>
    rw [List.flatMap_cons, List.append_assoc, stringBody_escape, ih]
    rfl

theorem string_quoted (s rest : List Char) :
    string (s.flatMap escape ++ '"' :: rest) = .ok (String.ofList s, rest) := by
  rw [string, stringBody_quoted]
  rfl

theorem key_quoted (s rest : List Char) :
    key (s.flatMap escape ++ '"' :: ':' :: rest) = .ok (String.ofList s, rest) := by
  rw [key, string_quoted]
  rfl

theorem unquote?_quote (s : List Char) : unquote? (quote s) = some s := by
  rw [quote, List.cons_append, unquote?, stringBody_quoted]

/-! ## Numbers -/

/-- No number goes on with the text. -/
def Ends (s : List Char) : Prop :=
  ∀ c, s.head? = some c → c.isDigit = false ∧ c ≠ '.' ∧ isExponentMark c = false

theorem ends_nil : Ends [] := nofun

theorem ends_cons_iff {c : Char} {s : List Char} :
    Ends (c :: s) ↔ c.isDigit = false ∧ c ≠ '.' ∧ isExponentMark c = false := by
  simp [Ends]

/-- No digit goes on with the text. -/
def Stops (s : List Char) : Prop := ∀ c, s.head? = some c → c.isDigit = false

theorem Ends.stops {s : List Char} (h : Ends s) : Stops s := fun c hc => (h c hc).1

theorem stops_cons_iff {c : Char} {s : List Char} : Stops (c :: s) ↔ c.isDigit = false := by
  simp [Stops]

theorem Stops.dropWhile_isDigit {s : List Char} (h : Stops s) : s.dropWhile Char.isDigit = s := by
  cases s with
  | nil => rfl
  | cons c s => simp [stops_cons_iff.1 h]

theorem Stops.takeWhile_isDigit {s : List Char} (h : Stops s) : s.takeWhile Char.isDigit = [] := by
  cases s with
  | nil => rfl
  | cons c s => simp [stops_cons_iff.1 h]

theorem le_ofDigitChars (s : List Char) (n : Nat) : n ≤ Nat.ofDigitChars 10 s n := by
  induction s generalizing n with
  | nil => simp
  | cons c s ih =>
    rw [Nat.ofDigitChars_cons]
    have := ih (10 * n + (c.toNat - '0'.toNat))
    omega

theorem gather_append {s rest : List Char} (hs : ∀ c ∈ s, c.isDigit = true) (hr : Stops rest)
    (count n : Nat) (hn : Nat.ofDigitChars 10 s n < 2 ^ 64) :
    gather count n (s ++ rest) = (count + s.length, Nat.ofDigitChars 10 s n, rest) := by
  induction s generalizing count n with
  | nil =>
    cases rest with
    | nil => simp [gather]
    | cons c rest => simp [gather, Text.digit?_ten_eq_none (stops_cons_iff.1 hr)]
  | cons c s ih =>
    have hle := le_ofDigitChars s (n * 10 + (c.toNat - '0'.toNat))
    rw [Nat.ofDigitChars_cons, Nat.mul_comm 10 n] at hn ⊢
    rw [List.cons_append, gather, Text.digit?_ten_of_isDigit (hs c List.mem_cons_self)]
    simp only
    rw [if_pos (Nat.lt_of_le_of_lt hle hn), ih (fun c hc => hs c (List.mem_cons_of_mem _ hc)) _ _
      hn, List.length_cons]
    congr 1
    omega

/-- The digits of a whole number: no zero stands in front of others. -/
structure IsWhole (s : List Char) : Prop where
  digits : ∀ c ∈ s, c.isDigit = true
  ne_nil : s ≠ []
  leading : ∀ c t, s = c :: t → c.toNat - '0'.toNat = 0 → t = []

theorem isWhole_ofNat (n : Nat) : IsWhole (Text.ofNat n) where
  digits _ := Text.isDigit_of_mem_ofNat
  ne_nil := Text.ofNat_ne_nil n
  leading _ _ := Text.eq_nil_of_ofNat_eq_cons

/-- After digits that fit a word. -/
def afterWhole (negative : Bool) (n : Nat) : List Char → Result Value
  | '.' :: s => fraction negative n 0 s
  | s => if s.head?.any isExponentMark then afterDigits negative n 0 s else .ok (whole negative n, s)

theorem number_append {s rest : List Char} (h : IsWhole s) (hr : Stops rest) (negative : Bool)
    (hn : Nat.ofDigitChars 10 s 0 < 2 ^ 64) :
    number negative (s ++ rest) = afterWhole negative (Nat.ofDigitChars 10 s 0) rest := by
  obtain ⟨hdigits, hne, hleading⟩ := h
  cases s with
  | nil => exact absurd rfl hne
  | cons c s =>
    have hzero : ¬ (c.toNat - '0'.toNat = 0 ∧ (s ++ rest).head?.any Char.isDigit = true) := by
      intro ⟨hc, hnext⟩
      rw [hleading c s rfl hc, List.nil_append] at hnext
      obtain ⟨d, hd, hdigit⟩ := (Option.any_eq_true _ _).1 hnext
      rw [hr d hd] at hdigit
      cases hdigit
    rw [Nat.ofDigitChars_cons, Nat.mul_zero, Nat.zero_add] at hn ⊢
    rw [List.cons_append, number, Text.digit?_ten_of_isDigit (hdigits c List.mem_cons_self)]
    simp only
    rw [if_neg hzero, gather_append (fun c hc => hdigits c (List.mem_cons_of_mem _ hc)) hr _ _ hn]
    simp only
    rw [hr.dropWhile_isDigit, hr.takeWhile_isDigit, List.length_nil]
    unfold afterWhole
    split
    · rfl
    · by_cases hmark : rest.head?.any isExponentMark = true <;> simp [hmark]

/-- The digits of a number that fits a word are all there is to it. -/
theorem number_ofNat {rest : List Char} (hr : Ends rest) (negative : Bool) {n : Nat}
    (hn : n < 2 ^ 64) : number negative (Text.ofNat n ++ rest) = .ok (whole negative n, rest) := by
  have hvalue : Nat.ofDigitChars 10 (Text.ofNat n) 0 = n := Nat.ofDigitChars_ten_toDigits
  rw [number_append (isWhole_ofNat n) hr.stops negative (hvalue.symm ▸ hn), hvalue]
  unfold afterWhole
  split
  · next u => exact absurd rfl (ends_cons_iff.1 hr).2.1
  · rw [if_neg]
    intro h
    obtain ⟨c, hc, hmark⟩ := (Option.any_eq_true _ _).1 h
    rw [(hr c hc).2.2] at hmark
    cases hmark

theorem whole_of_lt {n : Nat} (h : n < 2 ^ 63) : whole false n = .int (.ofInt n) := by
  simp only [whole, Bool.false_eq_true, if_false, if_pos h]

theorem whole_of_le {n : Nat} (h₀ : 0 < n) (h : n ≤ 2 ^ 63) :
    whole true n = .int (.ofInt (-(n : Int))) := by
  simp only [whole, if_true, if_pos (And.intro h₀ h)]

/-! ## Values -/

theorem skipBlank_cons {c : Char} (h : isBlank c = false) (s : List Char) :
    skipBlank (c :: s) = c :: s := by
  simp [skipBlank, h]

theorem word_append (v : Value) (s rest : List Char) : word v s (s ++ rest) = .ok (v, rest) := by
  induction s with
  | nil => rfl
  | cons c s ih => rw [List.cons_append, word, if_pos rfl, ih]

theorem isBlank_of_isDigit {c : Char} (h : c.isDigit = true) : isBlank c = false := by
  cases hb : isBlank c with
  | false => rfl
  | true =>
    simp only [isBlank, Bool.or_eq_true, beq_iff_eq] at hb
    rcases hb with ((rfl | rfl) | rfl) | rfl <;> exact absurd h (by decide)

theorem value_digit {c : Char} (h : c.isDigit = true) (fuel levels : Nat) (s : List Char) :
    value (fuel + 1) levels (c :: s) = number false (c :: s) := by
  rw [value, skipBlank_cons (isBlank_of_isDigit h)]
  simp only
  split <;> first | exact absurd h (by decide) | exact if_pos h

/-- The text of a scalar: it starts with neither a blank nor a closing bracket, ends with no
newline, and is read as the value wherever it ends. -/
structure IsToken (v : Value) (s : List Char) : Prop where
  head : ∃ c t, s = c :: t ∧ isBlank c = false ∧ c ≠ ']'
  last : s.getLast? ≠ some '\n'
  read : ∀ fuel levels rest, Ends rest → value (fuel + 1) levels (s ++ rest) = .ok (v, rest)

theorem isToken_null : IsToken .null "null".toList where
  head := ⟨'n', _, rfl, by decide⟩
  last := by decide
  read fuel levels rest _ := by
    have hs : "null".toList ++ rest = 'n' :: (['u', 'l', 'l'] ++ rest) := rfl
    rw [hs, value, skipBlank_cons (by decide)]
    exact word_append _ _ rest

theorem isToken_bool (b : Bool) : IsToken (.bool b) (boolean b) where
  head := by cases b <;> exact ⟨_, _, rfl, by decide⟩
  last := by cases b <;> decide
  read fuel levels rest _ := by
    cases b with
    | false =>
      have hs : boolean false ++ rest = 'f' :: (['a', 'l', 's', 'e'] ++ rest) := rfl
      rw [hs, value, skipBlank_cons (by decide)]
      exact word_append _ _ rest
    | true =>
      have hs : boolean true ++ rest = 't' :: (['r', 'u', 'e'] ++ rest) := rfl
      rw [hs, value, skipBlank_cons (by decide)]
      exact word_append _ _ rest

theorem isToken_str (s : String) : IsToken (.str s) (quote s.toList) where
  head := ⟨'"', _, rfl, by decide⟩
  last := by rw [quote, List.getLast?_concat]; decide
  read fuel levels rest _ := by
    rw [quote, List.cons_append, List.cons_append, value, skipBlank_cons (by decide),
      List.append_assoc, List.singleton_append]
    simp only
    rw [string_quoted, String.ofList_toList]
    rfl

theorem isToken_int (n : Int64) : IsToken (.int n) (Text.ofInt n.toInt) := by
  have hlast : (Text.ofInt n.toInt).getLast? ≠ some '\n' := fun h =>
    absurd (Text.isIntegerChar_of_mem_ofInt (List.mem_of_getLast? h)) (by decide)
  have hlow : -2 ^ 63 ≤ n.toInt := n.le_toInt
  have hhigh : n.toInt < 2 ^ 63 := n.toInt_lt
  have hword : Int64.ofInt n.toInt = n := Int64.ofInt_toInt n
  cases h : n.toInt with
  | ofNat m =>
    rw [h, Int.ofNat_eq_natCast] at hhigh hword
    rw [h, Text.ofInt] at hlast
    have hlt : m < 2 ^ 63 := by omega
    rw [Text.ofInt]
    cases hs : Text.ofNat m with
    | nil => exact absurd hs (Text.ofNat_ne_nil m)
    | cons c s =>
      have hc : c.isDigit = true := Text.isDigit_of_mem_ofNat (hs ▸ List.mem_cons_self)
      refine ⟨⟨c, s, rfl, isBlank_of_isDigit hc, ?_⟩, hs ▸ hlast, fun fuel levels rest hr => ?_⟩
      · rintro rfl
        exact absurd hc (by decide)
      · rw [List.cons_append, value_digit hc, ← List.cons_append, ← hs,
          number_ofNat hr false (by omega), whole_of_lt hlt, hword]
  | negSucc m =>
    rw [h] at hlow hword hlast
    have hle : m + 1 ≤ 2 ^ 63 := by omega
    refine ⟨⟨'-', _, rfl, by decide⟩, hlast, fun fuel levels rest hr => ?_⟩
    rw [Text.ofInt, List.cons_append, value, skipBlank_cons (by decide)]
    simp only
    rw [number_ofNat hr true (by omega), whole_of_le (Nat.succ_pos m) hle]
    exact congrArg (fun i => Except.ok (Value.int i, rest)) hword

end ConfigTree.Json
