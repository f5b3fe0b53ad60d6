import ConfigTree.Yaml.Scalar
import ConfigTree.Yaml.Token.Lexer
import ConfigTree.Yaml.Tree.Grammar

/-! Reading YAML text.  Aliases are replaced by what their anchors stand for, scalars take the value
their spelling and tag give them, and collections may be nested 128 deep.  Only the tags of the core
schema have a meaning; any other is refused if it is local, and ignored if it is not. -/

namespace ConfigTree.Yaml

/-- Counts the aliases that were followed. -/
abbrev Resolution := StateT Nat (Except Problem)

def coreTag (name : String) : TagText := ("tag:yaml.org,2002:" ++ name).toUTF8.toList

/-- A local tag, which starts with an exclamation mark. -/
def isLocal : Option TagText → Bool
  | some (33 :: rest) => (String.fromUTF8? ⟨rest.toArray⟩).isSome
  | _ => false

/-- What a scalar stands for, by its tag and its spelling. -/
def resolveScalar (tag : Option TagText) (plain : Bool) (text : String) :
    Except Problem Scalar :=
  match tag with
  | none => .ok (if plain then .ofPlain text else .str)
  | some t =>
    let orMismatch (s : Option Scalar) : Except Problem Scalar :=
      match s with
      | some s => .ok s
      | none => .error .tagMismatch
    if isLocal tag then .error .unknownTag
    else if t = coreTag "bool" then orMismatch ((Scalar.bool? text).map .bool)
    else if t = coreTag "int" then orMismatch (Scalar.int? text.toList)
    else if t = coreTag "float" then orMismatch ((Scalar.float? text.toList).map .float)
    else if t = coreTag "null" then orMismatch (if Scalar.isNull text then some .null else none)
    else .ok (if t.head? = some 33 ∧ plain then .ofPlain text else .str)

namespace Document

/-- Events of a document: each alias may be followed a hundred times as often as there are events.
-/
def aliasLimit (d : Document) : Nat := 100 * d.root.weight

/-- The node an alias stands for. -/
def follow (d : Document) : Tree → Resolution Tree
  | .reference slot => do
    let count := (← get) + 1
    set count
    if d.aliasLimit < count then throw .tooManyAliases
    else match d.slot? slot with
      | some t => return t
      | none => throw .unknownAnchor
  | t => return t

def key (d : Document) (t : Tree) : Resolution String := do
  match ← d.follow t with
  | .scalar tag plain text =>
    match (← resolveScalar tag plain text).key? text with
    | some k => return k
    | none => throw .wideInteger
  | .sequence tag _ | .mapping tag _ =>
    throw (if isLocal tag then .unknownTag else .compoundKey)
  | .reference _ => throw .unknownAnchor

/-- The value of a node; `levels` collections may still be opened. -/
def value (d : Document) (levels : Nat) (t : Tree) : Resolution Value := do
  match ← d.follow t with
  | .scalar tag plain text =>
    match (← resolveScalar tag plain text).value? text with
    | some v => return v
    | none => throw .wideInteger
  | .sequence tag items =>
    if isLocal tag then throw .unknownTag
    else match levels with
      | 0 => throw .recursionLimit
      | levels + 1 => return .seq (← items.mapM (d.value levels))
  | .mapping tag pairs =>
    if isLocal tag then throw .unknownTag
    else match levels with
      | 0 => throw .recursionLimit
      | levels + 1 => return .map (← pairs.mapM fun (k, v) => do
        return (← d.key k, ← d.value levels v))
  | .reference _ => throw .unknownAnchor
termination_by structural levels

end Document

/-- Collections may be nested this deep. -/
def maxLevels : Nat := 128

/-- The value of a YAML text, or what is wrong with it. -/
def read (text : String) : Except String Value :=
  match (Token.scan text.toList).bind Document.ofTokens with
  | .error fault => .error fault.message
  | .ok d => match (d.value maxLevels d.root).run' 0 with
    | .ok v => .ok v
    | .error problem => .error problem.message

end ConfigTree.Yaml
