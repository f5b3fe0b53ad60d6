import ConfigTree.Binary64.Numeral
import ConfigTree.Json.Quoted
import ConfigTree.Node
import ConfigTree.Text.Blank

/-! What a bare scalar stands for: quoted text, a keyword, a number, a number with a unit, or the
text itself. -/

namespace ConfigTree.Literal

/-- Double quotes hold a JSON string, single quotes anything. -/
def quoted? : List Char → Option Node
  | '"' :: s => (Json.unquote? ('"' :: s)).map fun s => .str (String.ofList s)
  | '\'' :: s => if s.getLast? = some '\'' then some (.str (String.ofList s.dropLast)) else none
  | _ => none

def ofKeyword? : String → Option Node
  | "null" => some .null
  | "true" | "yes" | "on" => some (.bool true)
  | "false" | "no" | "off" => some (.bool false)
  | _ => none

/-- Keywords are read without regard to the case of the letters A to Z. -/
def keyword? (s : List Char) : Option Node := ofKeyword? (String.ofList (s.map Char.toLower))

/-- Hexadecimal digits after `0x`, below 2^63. -/
def hexadecimal? : List Char → Option Int64
  | '0' :: 'x' :: s | '0' :: 'X' :: s =>
    (Text.natural? 16 s).bind fun n => if n < 2 ^ 63 then some (Int64.ofNat n) else none
  | _ => none

def signedHexadecimal? : List Char → Option Int64
  | '-' :: s => (hexadecimal? s).map (-·)
  | '+' :: s => hexadecimal? s
  | s => hexadecimal? s

/-- A decimal number, with a point or an exponent or without. -/
def decimal? : List Char → Option Binary64
  | '-' :: s => Binary64.magnitude? true s
  | '+' :: s => Binary64.magnitude? false s
  | s => Binary64.magnitude? false s

/-- What a suffix makes of a number. -/
inductive Scale
  /-- An amount; a whole one is an integer. -/
  | amount (factor : Nat)
  /-- A duration in units of `numerator / denominator` seconds. -/
  | duration (numerator denominator : Nat)
  deriving DecidableEq, Repr

def Scale.ofSuffix? : String → Option Scale
  | "k" => some (.amount (10 ^ 3))
  | "kb" => some (.amount (2 ^ 10))
  | "m" => some (.amount (10 ^ 6))
  | "mb" => some (.amount (2 ^ 20))
  | "g" => some (.amount (10 ^ 9))
  | "gb" => some (.amount (2 ^ 30))
  | "ms" => some (.duration 1 1000)
  | "s" => some (.duration 1 1)
  | "min" => some (.duration 60 1)
  | "h" => some (.duration 3600 1)
  | "d" => some (.duration 86400 1)
  | "w" => some (.duration 604800 1)
  | "y" => some (.duration 31536000 1)
  | _ => none

def Scale.apply (x : Binary64) : Scale → Node
  | .amount factor =>
    let x := x.scale factor 1
    match x.toInt? with
    | some n => if n.natAbs < 2 ^ 63 then .int (.ofInt n) else .float x
    | none => .float x
  | .duration num den => .time (x.scale num den)

/-- A number without an exponent and a suffix, in letters of either case. -/
def suffixed? (s : List Char) : Option Node :=
  let number := s.takeWhile (!·.isAlpha)
  let suffix := s.dropWhile (!·.isAlpha)
  (Scale.ofSuffix? (String.ofList (suffix.map Char.toLower))).bind fun scale =>
    (decimal? number).map scale.apply

/-- The first reading that `s` has. -/
def reading? (s : List Char) : Option Node :=
  quoted? s <|> keyword? s <|> (Text.int64? 10 s).map .int <|> (signedHexadecimal? s).map .int <|>
    (decimal? s).map .float <|> suffixed? s

/-- Blanks around a literal do not count, unless it only stands for itself. -/
def parse (text : String) : Node := (reading? (Text.trim text.toList)).getD (.str text)

/-- An integer in the radix its prefix tells: `0x` for sixteen, another leading zero for eight. -/
def prefixedInteger? : List Char → Option Int64
  | '0' :: 'x' :: s | '0' :: 'X' :: s => Text.int64? 16 s
  | '0' :: c :: s => Text.int64? 8 (c :: s)
  | s => Text.int64? 10 s

def integer? (text : String) : Option Int64 :=
  match Text.trim text.toList with
  | '-' :: s => (prefixedInteger? s).map (-·)
  | '+' :: s => prefixedInteger? s
  | s => prefixedInteger? s

/-- A floating-point number, the names of infinity and NaN included. -/
def float? (text : String) : Option Binary64 := Binary64.numeral? (Text.trim text.toList)

end ConfigTree.Literal
