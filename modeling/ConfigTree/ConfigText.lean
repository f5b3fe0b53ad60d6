import ConfigTree.Binary64.Decimal
import ConfigTree.Json.Quoted
import ConfigTree.Node

/-! Config text: `key = scalar;` lines, `key {` and `key [` blocks, four spaces a level.  An
object at the top has no braces, and a repeated key is written once for each of its values. -/

namespace ConfigTree.ConfigText

/-- Whole numbers below 1e16 keep a point, so that they read back as floating-point numbers. -/
def numberStyle : Binary64.Style := { Binary64.plain with pointBelow := 16 }

def scalar : Node → List Char
  | .null | .userdata _ => "null".toList
  | .bool b => if b then "true".toList else "false".toList
  | .int n => Text.ofInt n.toInt
  | .float x | .time x => x.format numberStyle
  | .str s => Json.quote s.toList
  | .array _ | .object _ => []

def isBareChar (c : Char) : Bool :=
  c.isAlphanum || c == '_' || c == '-' || c == '/' || c == '.'

def isBare (key : List Char) : Bool := !key.isEmpty && key.all isBareChar

def key (key : String) : List Char :=
  if isBare key.toList then key.toList else Json.quote key.toList

def indent (level : Nat) : List Char := List.replicate (4 * level) ' '

/-- A member whose value is written as `text`. -/
def line (level : Nat) (name : String) (kind : Kind) (text : List Char) : List Char :=
  indent level ++ key name ++
    if kind.isCompound then ' ' :: text ++ ['\n'] else " = ".toList ++ text ++ [';', '\n']

mutual

/-- A value, which starts in the middle of a line and does not end it. -/
def value (level : Nat) : Node → List Char
  | .object ⟨entries⟩ => '{' :: '\n' :: members (level + 1) entries ++ indent level ++ ['}']
  | .array [] => ['[', ']']
  | .array (n :: ns) => '[' :: '\n' :: items (level + 1) (n :: ns) ++ indent level ++ [']']
  | n => scalar n
termination_by structural n => n

def items (level : Nat) : List Node → List Char
  | [] => []
  | n :: ns => indent level ++ value level n ++ [',', '\n'] ++ items level ns
termination_by structural ns => ns

/-- The values of a repeated key. -/
def repeats (level : Nat) (name : String) : List Node → List Char
  | [] => []
  | n :: ns => line level name n.kind (value level n) ++ repeats level name ns
termination_by structural ns => ns

def members (level : Nat) : List (String × Member Node) → List Char
  | [] => []
  | (name, .single n) :: es => line level name n.kind (value level n) ++ members level es
  | (name, .repeated ns) :: es => repeats level name ns ++ members level es
termination_by structural es => es

end

def print : Node → String
  | .object ⟨entries⟩ => String.ofList (members 0 entries)
  | n => String.ofList (value 0 n ++ ['\n'])

end ConfigTree.ConfigText
