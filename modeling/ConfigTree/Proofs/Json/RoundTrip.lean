import ConfigTree.Proofs.Json.Reread
import ConfigTree.Proofs.Json.Scalar

/-! Reading back what is written in JSON.  A tree is read back as its canonical tree, from both
layouts as a document and from one line as a value given inline. -/

namespace ConfigTree

namespace Json

/-- The text starts with an opening bracket. -/
def Opens (s : List Char) : Prop := ∃ c t, s = c :: t ∧ (c = '[' ∨ c = '{')

theorem opens_compact {v : Value} (h : 0 < v.depth) : Opens (compact v) := by
  cases v with
  | seq items => cases items <;> exact ⟨'[', _, rfl, .inl rfl⟩
  | map pairs => cases pairs <;> exact ⟨'{', _, rfl, .inr rfl⟩
  | _ => cases h

theorem opens_pretty (level : Nat) {v : Value} (h : 0 < v.depth) : Opens (pretty level v) := by
  cases v with
  | seq items => cases items <;> exact ⟨'[', _, rfl, .inl rfl⟩
  | map pairs => cases pairs <;> exact ⟨'{', _, rfl, .inr rfl⟩
  | _ => cases h

theorem Opens.trimStart {s : List Char} (h : Opens s) : Text.trimStart s = s := by
  obtain ⟨c, t, rfl, rfl | rfl⟩ := h <;> exact Text.trimStart_cons_of_not_blank (by decide)

theorem Opens.opensJson {s : List Char} (h : Opens s) :
    Dialect.opensJson (String.ofList s) = true := by
  rw [Dialect.opensJson, String.toList_ofList, h.trimStart]
  obtain ⟨c, t, rfl, rfl | rfl⟩ := h <;> rfl

theorem Opens.not_blank {s : List Char} (h : Opens s) : (Text.trim s).isEmpty = false := by
  rw [List.isEmpty_eq_false_iff, Ne, Text.trim_eq_nil_iff, h.trimStart]
  obtain ⟨c, t, rfl, -⟩ := h
  exact List.cons_ne_nil c t

theorem Opens.append {s : List Char} (h : Opens s) (g : List Char) : Opens (s ++ g) := by
  obtain ⟨c, t, rfl, hc⟩ := h
  exact ⟨c, t ++ g, rfl, hc⟩

end Json

section

variable {s : List Char} {options : ReadOptions}

/-- A text that opens a bracket is read as JSON. -/
theorem Document.parse_opens (h : Json.Opens s) (source : String) :
    parse (String.ofList s) source options = match Json.readAll s with
      | .error fault => .error (.parse source (fault.message s))
      | .ok v =>
        if options.maxDepth < (v.toNode options).depth then .error (.tooDeep options.maxDepth)
        else .ok ⟨v.toNode options, .json⟩ := by
  have hdialect : Dialect.detect (String.ofList s) = .json := by
    rw [Dialect.detect, h.opensJson, if_pos rfl]
  rw [parse, hdialect, String.toList_ofList, h.not_blank]
  simp only [Bool.false_eq_true, if_false, Dialect.read, Json.read, String.toList_ofList]
  cases Json.readAll s <;> rfl

/-- The text of an array or object, blanks after it included, is read as its node unless that is too
deep. -/
theorem Document.parse_of_spells {v : Value} {g : List Char} (h : Json.Spells (.value v) s)
    (hopen : Json.Opens s) (hdepth : v.depth ≤ Json.maxLevels) (hg : Json.Gap g) (source : String) :
    parse (String.ofList (s ++ g)) source options =
      if options.maxDepth < (v.toNode options).depth then .error (.tooDeep options.maxDepth)
      else .ok ⟨v.toNode options, .json⟩ := by
  rw [parse_opens (hopen.append g), h.readAll_append hdepth hg]

/-- Given inline, such a text is a document, or a literal if it is malformed. -/
theorem Inline.parse_opens (h : Json.Opens s) :
    parse (String.ofList s) options = match Document.parse (String.ofList s) "value" options with
      | .ok document => .ok document.root
      | .error (.parse _ _) => .ok (Literal.parse (String.ofList s))
      | .error e => .error e := by
  rw [parse, isStructured, h.opensJson, Bool.true_or, Bool.true_or]
  rfl

end

namespace Node

variable {n : Node} {options : ReadOptions}

theorem depth_canon_pos_iff : 0 < n.canon.depth ↔ n.isCompound = true := by
  rw [depth_pos_iff]
  cases n <;> rfl

/-- A tree whose JSON text says all there is to it, and is not nested too deep to be read. -/
structure Printable (n : Node) : Prop where
  keysDistinct : n.Everywhere KeysDistinct
  free_float : n.Free .float
  free_time : n.Free .time
  levels : n.canon.depth ≤ Json.maxLevels

namespace Printable

theorem floatFree (h : n.Printable) : n.toValue.FloatFree :=
  floatFree_toValue h.free_float h.free_time

theorem parse_of_spells (h : n.Printable) (hcase : options.foldCase = false) {s g : List Char}
    (hs : Json.Spells (.value n.toValue) s) (hopen : Json.Opens s) (hg : Json.Gap g)
    (source : String) :
    Document.parse (String.ofList (s ++ g)) source options =
      if options.maxDepth < n.canon.depth then .error (.tooDeep options.maxDepth)
      else .ok ⟨n.canon, .json⟩ := by
  have hparse := @Document.parse_of_spells s options n.toValue g hs hopen
    (depth_toValue n ▸ h.levels) hg source
  rwa [toNode_toValue hcase h.keysDistinct] at hparse

theorem opens_compact (hc : n.isCompound = true) : Json.Opens (Json.compact n.toValue) :=
  Json.opens_compact (depth_toValue n ▸ depth_canon_pos_iff.2 hc)

theorem opens_pretty (hc : n.isCompound = true) : Json.Opens (Json.pretty 0 n.toValue) :=
  Json.opens_pretty 0 (depth_toValue n ▸ depth_canon_pos_iff.2 hc)

theorem parse_print (h : n.Printable) (hcase : options.foldCase = false) (hc : n.isCompound = true)
    (source : String) : Document.parse (Json.print n.toValue) source options =
      if options.maxDepth < n.canon.depth then .error (.tooDeep options.maxDepth)
      else .ok ⟨n.canon, .json⟩ := by
  have hparse := h.parse_of_spells hcase (Json.spells_compact n.toValue h.floatFree)
    (opens_compact hc) Json.gap_nil source
  rwa [List.append_nil] at hparse

theorem parse_printPretty (h : n.Printable) (hcase : options.foldCase = false)
    (hc : n.isCompound = true) (source : String) :
    Document.parse (Json.printPretty n.toValue) source options =
      if options.maxDepth < n.canon.depth then .error (.tooDeep options.maxDepth)
      else .ok ⟨n.canon, .json⟩ := by
  have hparse := h.parse_of_spells hcase (Json.spells_pretty 0 n.toValue h.floatFree)
    (opens_pretty hc) Json.gap_nil source
  rwa [List.append_nil] at hparse

/-- Scalars are never too deep. -/
theorem inlineParse_print (h : n.Printable) (hcase : options.foldCase = false) :
    Inline.parse (Json.print n.toValue) options =
      if options.maxDepth < n.canon.depth then .error (.tooDeep options.maxDepth)
      else .ok n.canon := by
  by_cases hc : n.isCompound = true
  · have hdocument := h.parse_print hcase hc "value"
    rw [Json.print, Inline.parse_opens (opens_compact hc), ← Json.print, hdocument]
    by_cases hdeep : options.maxDepth < n.canon.depth
    · rw [if_pos hdeep, if_pos hdeep]
    · rw [if_neg hdeep, if_neg hdeep]
  · have hzero : n.canon.depth = 0 := Nat.eq_zero_of_not_pos (mt depth_canon_pos_iff.1 hc)
    rw [Inline.parse_print h.floatFree ((depth_toValue n).trans hzero),
      toNode_toValue hcase h.keysDistinct, hzero, if_neg (Nat.not_lt_zero _)]

end Printable

end Node

/-- A tree without floating-point numbers and durations is read back from its JSON text as its
canonical tree. -/
theorem parse_print_eq_canon {n : Node} {options : ReadOptions}
    (hkeys : n.Everywhere Node.KeysDistinct) (hfloat : n.Free .float) (htime : n.Free .time)
    (hcase : options.foldCase = false) (hlevels : n.canon.depth ≤ 127)
    (hmax : n.canon.depth ≤ options.maxDepth) :
    Inline.parse (Json.print n.toValue) options = .ok n.canon ∧
      (n.isCompound = true → ∀ source,
        Document.parse (Json.print n.toValue) source options = .ok ⟨n.canon, .json⟩ ∧
        Document.parse (Json.printPretty n.toValue) source options = .ok ⟨n.canon, .json⟩) := by
  have h : n.Printable := ⟨hkeys, hfloat, htime, hlevels⟩
  have hmax : ¬ options.maxDepth < n.canon.depth := Nat.not_lt.2 hmax
  refine ⟨?_, fun hc source => ⟨?_, ?_⟩⟩
  · rw [h.inlineParse_print hcase, if_neg hmax]
  · rw [h.parse_print hcase hc, if_neg hmax]
  · rw [h.parse_printPretty hcase hc, if_neg hmax]

/-- A repeated key comes back as one key with an array, and opaque data as null. -/
theorem parse_print_eq_canon_of_repeated :
    let n : Node := .object ⟨[("a", .repeated [.int (-9223372036854775808), .str "\"\n\x01"]),
      ("b", .single (.userdata "handle"))]⟩
    let m : Node := .object
      ⟨[("a", .single (.array [.int (-9223372036854775808), .str "\"\n\x01"])), ("b", .single .null)]⟩
    Inline.parse (Json.print n.toValue) default = .ok m ∧
      Document.parse (Json.printPretty n.toValue) "file" default = .ok ⟨m, .json⟩ := by
  intro n m
  have hread := @parse_print_eq_canon n default (by decide +kernel) (by decide +kernel)
    (by decide +kernel) rfl (by decide) (by decide)
  exact ⟨hread.1, (hread.2 rfl "file").2⟩

end ConfigTree
