import ConfigTree.Yaml.Fault

/-! The tokens of a YAML text.  Indentation is spelled out: a block collection starts and ends
with a token of its own, and a key on one line has its token put in front of it. -/

namespace ConfigTree.Yaml

/-- The text of a tag, as the octets it spells. -/
abbrev TagText := List UInt8

inductive Token
  | streamEnd
  | version (major minor : Nat)
  | handle (name : String) (start : TagText)
  | documentStart
  | documentEnd
  | blockSequenceStart
  | blockMappingStart
  | blockEnd
  | flowSequenceStart
  | flowSequenceEnd
  | flowMappingStart
  | flowMappingEnd
  | blockEntry
  | flowEntry
  | key
  | value
  | reference (name : String)
  | anchor (name : String)
  /-- A tag after a handle; an empty handle marks a tag given in full. -/
  | tag (handle : String) (suffix : TagText)
  | scalar (plain : Bool) (text : String)
  deriving DecidableEq, Repr, Inhabited

structure MarkedToken where
  token : Token
  mark : Mark
  deriving DecidableEq, Repr, Inhabited

end ConfigTree.Yaml
