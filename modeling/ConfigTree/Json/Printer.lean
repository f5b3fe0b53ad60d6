import ConfigTree.Binary64.Decimal
import ConfigTree.Json.Quoted
import ConfigTree.Value

/-! Writing JSON text, on one line or with one item a line and two spaces a level.  A number that is
not finite is written as null. -/

namespace ConfigTree.Json

/-- Positional from 1e-5 up to 1e16, with `.0` on whole numbers; a positive exponent has a sign. -/
def numberStyle : Binary64.Style :=
  { positionalFrom := some (-5), positionalBelow := some 16, pointBelow := 16, plus := ['+'],
    nan := "null".toList, infinity := "null".toList, negativeInfinity := "null".toList }

def boolean : Bool → List Char
  | true => "true".toList
  | false => "false".toList

mutual

def compact : Value → List Char
  | .null => "null".toList
  | .bool b => boolean b
  | .int n => Text.ofInt n.toInt
  | .float x => x.format numberStyle
  | .str s => quote s.toList
  | .seq [] => ['[', ']']
  | .seq (v :: vs) => '[' :: compact v ++ compactItems vs
  | .map [] => ['{', '}']
  | .map ((k, v) :: ps) => '{' :: quote k.toList ++ ':' :: compact v ++ compactPairs ps
termination_by structural v => v

/-- The items after the first, and the closing bracket. -/
def compactItems : List Value → List Char
  | [] => [']']
  | v :: vs => ',' :: compact v ++ compactItems vs
termination_by structural vs => vs

/-- The pairs after the first, and the closing brace. -/
def compactPairs : List (String × Value) → List Char
  | [] => ['}']
  | (k, v) :: ps => ',' :: quote k.toList ++ ':' :: compact v ++ compactPairs ps
termination_by structural ps => ps

end

/-- A new line at a level. -/
def newline (level : Nat) : List Char := '\n' :: List.replicate (2 * level) ' '

mutual

def pretty (level : Nat) : Value → List Char
  | .null => "null".toList
  | .bool b => boolean b
  | .int n => Text.ofInt n.toInt
  | .float x => x.format numberStyle
  | .str s => quote s.toList
  | .seq [] => ['[', ']']
  | .seq (v :: vs) =>
    '[' :: newline (level + 1) ++ pretty (level + 1) v ++ prettyItems level vs
  | .map [] => ['{', '}']
  | .map ((k, v) :: ps) =>
    '{' :: newline (level + 1) ++ quote k.toList ++ ':' :: ' ' :: pretty (level + 1) v ++
      prettyPairs level ps
termination_by structural v => v

/-- The items after the first, and the closing bracket. -/
def prettyItems (level : Nat) : List Value → List Char
  | [] => newline level ++ [']']
  | v :: vs => ',' :: newline (level + 1) ++ pretty (level + 1) v ++ prettyItems level vs
termination_by structural vs => vs

/-- The pairs after the first, and the closing brace. -/
def prettyPairs (level : Nat) : List (String × Value) → List Char
  | [] => newline level ++ ['}']
  | (k, v) :: ps =>
    ',' :: newline (level + 1) ++ quote k.toList ++ ':' :: ' ' :: pretty (level + 1) v ++
      prettyPairs level ps
termination_by structural ps => ps

end

def print (v : Value) : String := String.ofList (compact v)

def printPretty (v : Value) : String := String.ofList (pretty 0 v)

end ConfigTree.Json
