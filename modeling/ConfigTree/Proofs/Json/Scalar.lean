import ConfigTree.Proofs.Inline
import ConfigTree.Proofs.Json.Token
import ConfigTree.Proofs.Node.Canonical
import ConfigTree.Proofs.Text.Word

/-! The JSON text of a scalar looks like no document, and as a literal it stands for the scalar. -/

namespace ConfigTree

namespace Json

theorem le_toNat_of_mem_escape {c d : Char} (h : d ∈ escape c) : 0x20 ≤ d.toNat := by
  have hhex : ∀ k < 16, 0x20 ≤ (hexDigit k).toNat := by decide
  unfold escape at h
  split at h
  case h_8 =>
    split at h
    · next hc =>
      have h₁ := hhex (c.toNat / 16) (by omega)
      have h₂ := hhex (c.toNat % 16) (by omega)
      simp only [List.mem_cons, List.not_mem_nil, or_false] at h
      rcases h with rfl | rfl | rfl | rfl | rfl | rfl <;> first | assumption | decide
    · next hc =>
      rw [List.mem_singleton.1 h]
      omega
  all_goals
    simp only [List.mem_cons, List.not_mem_nil, or_false] at h
    rcases h with rfl | rfl <;> decide

theorem newline_not_mem_quote (s : List Char) : '\n' ∉ quote s := by
  intro h
  simp only [quote, List.cons_append, List.mem_cons, List.mem_append, List.not_mem_nil, or_false,
    List.mem_flatMap] at h
  rcases h with h | ⟨c, -, h⟩ | h
  · cases h
  · exact absurd (le_toNat_of_mem_escape h) (by decide)
  · cases h

end Json

namespace Literal

theorem isAlpha_of_ofKeyword? {s : String} {n : Node} (h : ofKeyword? s = some n) :
    s.toList.head?.any Char.isAlpha = true := by
  unfold ofKeyword? at h
  split at h <;> first | cases h; rfl | cases h

/-- A keyword starts with a letter. -/
theorem keyword?_eq_none {c : Char} {s : List Char} (h : c.toLower.isAlpha = false) :
    keyword? (c :: s) = none := by
  cases hk : keyword? (c :: s) with
  | none => rfl
  | some n =>
    have hletter := isAlpha_of_ofKeyword? hk
    rw [String.toList_ofList, List.map_cons, List.head?_cons, Option.any_some, h] at hletter
    cases hletter

/-- The character starts no quotation and no keyword. -/
def IsPlain (c : Char) : Prop := c ≠ '"' ∧ c ≠ '\'' ∧ c.toLower.isAlpha = false

instance (c : Char) : Decidable (IsPlain c) := inferInstanceAs (Decidable (_ ∧ _ ∧ _))

theorem reading?_of_isPlain {c : Char} {s : List Char} (hc : IsPlain c) :
    reading? (c :: s) = ((Text.int64? 10 (c :: s)).map .int <|>
      (signedHexadecimal? (c :: s)).map .int <|> (decimal? (c :: s)).map .float <|>
      suffixed? (c :: s)) := by
  have hquoted : quoted? (c :: s) = none := by
    unfold quoted?
    split
    · next heq => exact absurd (List.cons.inj heq).1 hc.1
    · next heq => exact absurd (List.cons.inj heq).1 hc.2.1
    · rfl
  rw [reading?, hquoted, keyword?_eq_none hc.2.2]
  rfl

theorem parse_eq_of_reading? {text : String} {n : Node}
    (h : reading? (Text.trim text.toList) = some n) : parse text = n := by
  rw [parse, h, Option.getD_some]

theorem parse_of_reading? {s : List Char} {n : Node} (htrim : Text.trim s = s)
    (h : reading? s = some n) : parse (String.ofList s) = n :=
  parse_eq_of_reading? (by rwa [String.toList_ofList, htrim])

theorem trim_quote (s : List Char) : Text.trim (Json.quote s) = Json.quote s := by
  refine Text.trim_eq_self (fun c hc => ?_) fun c hc => ?_
  · cases hc
    rfl
  · rw [Json.quote, List.getLast?_append] at hc
    cases hc
    rfl

theorem parse_quote (s : String) : parse (String.ofList (Json.quote s.toList)) = .str s := by
  have hquoted : quoted? (Json.quote s.toList) = some (.str s) := by
    have hunquote := Json.unquote?_quote s.toList
    rw [Json.quote, List.cons_append] at hunquote ⊢
    rw [quoted?, hunquote, Option.map_some, String.ofList_toList]
  refine parse_of_reading? (trim_quote s.toList) ?_
  rw [reading?, hquoted]
  rfl

theorem trim_ofInt (n : Int) : Text.trim (Text.ofInt n) = Text.ofInt n := by
  have hnone (c : Char) (h : c ∈ Text.ofInt n) : Text.isBlank c = false :=
    Text.forall_isIntegerChar (p := fun c => Text.isBlank c = false) (by decide)
      (Text.isIntegerChar_of_mem_ofInt h)
  exact Text.trim_eq_self (fun c hc => hnone c (List.mem_of_head? hc))
    fun c hc => hnone c (List.mem_of_getLast? hc)

theorem parse_ofInt (n : Int64) : parse (String.ofList (Text.ofInt n.toInt)) = .int n := by
  refine parse_of_reading? (trim_ofInt n.toInt) ?_
  have hint := Text.int64?_ofInt n
  cases hs : Text.ofInt n.toInt with
  | nil => exact absurd hs (Text.ofInt_ne_nil _)
  | cons c s =>
    have hc : Text.isIntegerChar c = true :=
      Text.isIntegerChar_of_mem_ofInt (hs ▸ List.mem_cons_self)
    have hplain : IsPlain c := Text.forall_isIntegerChar (by decide) hc
    rw [reading?_of_isPlain hplain, ← hs, hint]
    rfl

end Literal

namespace Inline

theorem parse_of_not_isStructured {text : String} (h : isStructured text = false)
    (options : ReadOptions) : parse text options = .ok (Literal.parse text) := by
  rw [parse, h]
  rfl

theorem isKeyChar_quote : isKeyChar '"' = false := by
  have hword : Text.isWord '"' = false :=
    Bool.eq_false_iff.2 fun h => absurd (Text.le_toNat_of_isWord h) (by decide)
  rw [isKeyChar, hword]
  rfl

/-- A text on one line that opens no bracket, and whose first word is not a key. -/
theorem isStructured_eq_false {c : Char} {s : List Char} (hblank : Text.isBlank c = false)
    (hbracket : c ≠ '{' ∧ c ≠ '[') (hline : '\n' ∉ c :: s)
    (hkey : isKeyChar c = false ∨ ':' ∉ c :: s) :
    isStructured (String.ofList (c :: s)) = false := by
  have hopen : Dialect.opensJson (String.ofList (c :: s)) = false := by
    rw [Dialect.opensJson, String.toList_ofList, Text.trimStart_cons_of_not_blank hblank]
    split
    · next heq => exact absurd (List.cons.inj heq).1 hbracket.1
    · next heq => exact absurd (List.cons.inj heq).1 hbracket.2
    · rfl
  have hlines : (Text.trim (c :: s)).contains '\n' = false := by
    rw [List.contains_eq_mem, decide_eq_false_iff_not]
    exact fun h => hline (Text.mem_of_mem_trim h)
  have hmapping : startsMapping (c :: s) = false := by
    rw [startsMapping, Text.trimStart_cons_of_not_blank hblank]
    split
    · next d t rest htake hdrop =>
      rcases hkey with hkey | hcolon
      · simp [hkey] at htake
      · refine absurd ((List.dropWhile_sublist isKeyChar).mem ?_) hcolon
        rw [hdrop]
        exact List.mem_cons_self
    · rfl
  rw [isStructured, hopen, String.toList_ofList, hlines, hmapping]
  rfl

theorem parse_quote (s : String) (options : ReadOptions) :
    parse (String.ofList (Json.quote s.toList)) options = .ok (.str s) := by
  rw [parse_of_not_isStructured, Literal.parse_quote]
  exact isStructured_eq_false rfl (by decide) (Json.newline_not_mem_quote s.toList)
    (.inl isKeyChar_quote)

theorem parse_ofInt (n : Int64) (options : ReadOptions) :
    parse (String.ofList (Text.ofInt n.toInt)) options = .ok (.int n) := by
  rw [parse_of_not_isStructured, Literal.parse_ofInt]
  cases hs : Text.ofInt n.toInt with
  | nil => exact absurd hs (Text.ofInt_ne_nil _)
  | cons c s =>
    have hall (d : Char) (hd : d ∈ c :: s) :
        Text.isBlank d = false ∧ (d ≠ '{' ∧ d ≠ '[') ∧ d ≠ '\n' ∧ d ≠ ':' :=
      Text.forall_isIntegerChar
        (p := fun d => Text.isBlank d = false ∧ (d ≠ '{' ∧ d ≠ '[') ∧ d ≠ '\n' ∧ d ≠ ':')
        (by decide) (Text.isIntegerChar_of_mem_ofInt (hs ▸ hd))
    obtain ⟨hblank, hbracket, -⟩ := hall c List.mem_cons_self
    exact isStructured_eq_false hblank hbracket (fun h => (hall _ h).2.2.1 rfl)
      (.inr fun h => (hall _ h).2.2.2 rfl)

/-- The text of a scalar stands for the scalar, given inline. -/
theorem parse_print {v : Value} (hv : v.FloatFree) (hscalar : v.depth = 0) (options : ReadOptions) :
    parse (Json.print v) options = .ok (v.toNode options) := by
  cases v with
  | null =>
    have hs : isStructured (Json.print .null) = false :=
      isStructured_eq_false rfl (by decide) (by decide) (.inr (by decide))
    rw [parse_of_not_isStructured hs]
    rfl
  | bool b =>
    have hs : isStructured (Json.print (.bool b)) = false := by
      cases b <;> exact isStructured_eq_false rfl (by decide) (by decide) (.inr (by decide))
    rw [parse_of_not_isStructured hs]
    cases b <;> rfl
  | int n => exact parse_ofInt n options
  | float x => exact Bool.noConfusion hv.here
  | str s => exact parse_quote s options
  | seq items =>
    rw [Value.depth] at hscalar
    omega
  | map pairs =>
    rw [Value.depth] at hscalar
    omega

end Inline

end ConfigTree
