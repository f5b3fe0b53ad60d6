import ConfigTree.Inline
import ConfigTree.Proofs.Text.Blank
import ConfigTree.Proofs.Value

/-! What reading gives.  A literal is a scalar; a document is a well-formed tree within the depth
limit; nothing that is read is opaque, and a duration only stands alone. -/

namespace ConfigTree

/-! ## Literals -/

/-- What bare text can stand for. -/
def Node.IsLiteral (n : Node) : Prop := n.isCompound = false ∧ n.kind ≠ .userdata

namespace Literal

theorem isLiteral_ofKeyword? {s : String} {n : Node} (h : ofKeyword? s = some n) : n.IsLiteral := by
  unfold ofKeyword? at h
  split at h <;> cases h <;> exact ⟨rfl, nofun⟩

theorem isLiteral_quoted? {s : List Char} {n : Node} (h : quoted? s = some n) : n.IsLiteral := by
  unfold quoted? at h
  split at h
  · obtain ⟨t, -, rfl⟩ := Option.map_eq_some_iff.1 h
    exact ⟨rfl, nofun⟩
  · split at h <;> cases h
    exact ⟨rfl, nofun⟩
  · cases h

theorem Scale.isLiteral_apply (x : Binary64) (scale : Scale) : (scale.apply x).IsLiteral := by
  cases scale with
  | amount factor =>
    simp only [apply]
    split
    · split <;> exact ⟨rfl, nofun⟩
    · exact ⟨rfl, nofun⟩
  | duration num den => exact ⟨rfl, nofun⟩

theorem isLiteral_suffixed? {s : List Char} {n : Node} (h : suffixed? s = some n) :
    n.IsLiteral := by
  obtain ⟨scale, -, h⟩ := Option.bind_eq_some_iff.1 h
  obtain ⟨x, -, rfl⟩ := Option.map_eq_some_iff.1 h
  exact scale.isLiteral_apply x

theorem isLiteral_reading? {s : List Char} {n : Node} (h : reading? s = some n) : n.IsLiteral := by
  have hint (x : Option Int64) (h : x.map .int = some n) : n.IsLiteral := by
    obtain ⟨i, -, rfl⟩ := Option.map_eq_some_iff.1 h
    exact ⟨rfl, nofun⟩
  have hfloat (x : Option Binary64) (h : x.map .float = some n) : n.IsLiteral := by
    obtain ⟨f, -, rfl⟩ := Option.map_eq_some_iff.1 h
    exact ⟨rfl, nofun⟩
  simp only [reading?, Option.orElse_eq_orElse, Option.orElse_eq_or, Option.or_eq_some_iff] at h
  rcases h with h | ⟨-, h | ⟨-, h | ⟨-, h | ⟨-, h | ⟨-, h⟩⟩⟩⟩⟩
  · exact isLiteral_quoted? h
  · exact isLiteral_ofKeyword? h
  · exact hint _ h
  · exact hint _ h
  · exact hfloat _ h
  · exact isLiteral_suffixed? h

theorem isLiteral_parse (text : String) : (parse text).IsLiteral := by
  rw [parse]
  cases h : reading? (Text.trim text.toList) with
  | none => exact ⟨rfl, nofun⟩
  | some n => exact isLiteral_reading? h

end Literal

/-! ## Trees that are read -/

/-- A well-formed tree without anything opaque, in which a duration only stands alone. -/
structure Node.IsRead (n : Node) : Prop where
  wellFormed : n.WellFormed
  free_userdata : n.Free .userdata
  free_time : n.kind = .time ∨ n.Free .time

theorem Node.IsLiteral.isRead {n : Node} (h : n.IsLiteral) : n.IsRead where
  wellFormed := wellFormed_of_scalar h.1
  free_userdata := (everywhere_of_scalar h.1).2 h.2
  free_time := (Decidable.em (n.kind = .time)).imp_right (everywhere_of_scalar h.1).2

theorem Value.isRead_toNode (options : ReadOptions) (v : Value) : (v.toNode options).IsRead where
  wellFormed := wellFormed_toNode v
  free_userdata := free_userdata_toNode v
  free_time := .inr (free_time_toNode v)

namespace Document

variable {text source : String} {options : ReadOptions} {document : Document}

/-- A document is blank or has the node of some value, within the depth limit. -/
theorem root_of_parse (h : parse text source options = .ok document) :
    Text.trim text.toList = [] ∧ document.root = .object ∅ ∨
      document.root.depth ≤ options.maxDepth ∧
        ∃ v : Value, document.root = v.toNode options := by
  unfold parse at h
  simp only at h
  split at h
  · next hblank =>
    cases h
    exact .inl ⟨List.isEmpty_iff.1 hblank, rfl⟩
  · split at h
    · cases h
    · next v hv =>
      split at h
      · cases h
      · next hdepth =>
        cases h
        exact .inr ⟨Nat.le_of_not_lt hdepth, v, rfl⟩

theorem isRead_root (h : parse text source options = .ok document) : document.root.IsRead := by
  rcases root_of_parse h with ⟨-, hr⟩ | ⟨-, v, hr⟩
  · rw [hr]
    exact Value.isRead_toNode default (.map [])
  · rw [hr]
    exact v.isRead_toNode options

theorem free_time_root (h : parse text source options = .ok document) :
    document.root.Free .time := by
  rcases root_of_parse h with ⟨-, hr⟩ | ⟨-, v, hr⟩
  · rw [hr]
    exact @Value.free_time_toNode default (.map [])
  · rw [hr]
    exact v.free_time_toNode

end Document

namespace Inline

variable {text : String} {options : ReadOptions} {n : Node}

/-- A blank text looks like no document. -/
theorem not_isStructured_of_blank (h : Text.trim text.toList = []) : isStructured text = false := by
  have hs : Text.trimStart text.toList = [] := Text.trim_eq_nil_iff.1 h
  simp [isStructured, Dialect.opensJson, startsMapping, h, hs]

/-- A value given inline is a literal or the root of a document. -/
theorem parse_cases (h : parse text options = .ok n) :
    n.IsLiteral ∨ isStructured text = true ∧
      ∃ document, Document.parse text "value" options = .ok document ∧ n = document.root := by
  unfold parse at h
  split at h
  · next hs =>
    split at h
    · next document hd =>
      cases h
      exact .inr ⟨hs, document, hd, rfl⟩
    · cases h
      exact .inl (Literal.isLiteral_parse text)
    · cases h
  · cases h
    exact .inl (Literal.isLiteral_parse text)

theorem isRead_of_parse (h : parse text options = .ok n) : n.IsRead := by
  rcases parse_cases h with hn | ⟨-, document, hd, rfl⟩
  · exact hn.isRead
  · exact Document.isRead_root hd

theorem depth_le_of_parse (h : parse text options = .ok n) : n.depth ≤ options.maxDepth := by
  rcases parse_cases h with hn | ⟨hs, document, hd, rfl⟩
  · rw [Node.depth_of_scalar hn.1]
    exact Nat.zero_le _
  · rcases Document.root_of_parse hd with ⟨hblank, -⟩ | ⟨hdepth, -⟩
    · rw [not_isStructured_of_blank hblank] at hs
      cases hs
    · exact hdepth

theorem noRepeats_of_parse (hlast : options.keepRepeats = false) (h : parse text options = .ok n) :
    n.NoRepeats := by
  rcases parse_cases h with hn | ⟨-, document, hd, rfl⟩
  · refine (Node.everywhere_of_scalar hn.1).2 ?_
    cases n with
    | object o => cases hn.1
    | _ => trivial
  · rcases Document.root_of_parse hd with ⟨-, hr⟩ | ⟨-, v, hr⟩
    · rw [hr]
      decide
    · rw [hr]
      exact v.noRepeats_toNode hlast

theorem isLiteral_toFloat (h : n.IsLiteral) : (toFloat text n).IsLiteral := by
  unfold toFloat
  split
  · exact h
  · exact ⟨rfl, nofun⟩
  · cases Literal.float? text with
    | none => exact h
    | some x => exact ⟨rfl, nofun⟩

theorem isLiteral_toTime (h : n.IsLiteral) : (toTime text n).IsLiteral := by
  unfold toTime
  split
  · exact ⟨rfl, nofun⟩
  · exact ⟨rfl, nofun⟩
  · exact ⟨rfl, nofun⟩
  · cases Literal.float? text with
    | none => exact h
    | some x => exact ⟨rfl, nofun⟩

theorem isLiteral_toBool : (toBool text n).IsLiteral := by
  unfold toBool
  split <;> exact ⟨rfl, nofun⟩

theorem isRead_of_convert {kind : Kind} (h : convert text options kind = .ok n) : n.IsRead := by
  have hl := Literal.isLiteral_parse text
  cases kind <;> simp only [convert] at h
  case string => cases h; exact Node.IsLiteral.isRead ⟨rfl, nofun⟩
  case int =>
    cases h
    cases Literal.integer? text with
    | none => exact hl.isRead
    | some i => exact Node.IsLiteral.isRead ⟨rfl, nofun⟩
  case float => cases h; exact (isLiteral_toFloat hl).isRead
  case boolean => cases h; exact isLiteral_toBool.isRead
  case time => cases h; exact (isLiteral_toTime hl).isRead
  all_goals exact isRead_of_parse h

theorem isRead_of_parseAs {kind : Kind} (h : parseAs kind text options = .ok n) : n.IsRead := by
  cases hc : convert text options kind with
  | error e => simp [parseAs, hc, bind, Except.bind] at h
  | ok m =>
    simp only [parseAs, hc, bind, Except.bind] at h
    split at h <;> cases h
    exact isRead_of_convert hc

end Inline

end ConfigTree
