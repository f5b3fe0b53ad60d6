import ConfigTree.Binary64.Decimal
import ConfigTree.Binary64.Numeral
import ConfigTree.Text.Digits
import ConfigTree.Value

/-! What a plain scalar stands for.  Null, truth values and numbers have fixed spellings, and every
other text is a string. -/

namespace ConfigTree.Yaml

inductive Scalar
  | null
  | bool (b : Bool)
  /-- An integer of a signed or unsigned 64-bit word. -/
  | int (n : Int)
  /-- An integer that only fits 128 bits. -/
  | wide
  | float (x : Binary64)
  | str
  deriving DecidableEq, Repr

namespace Scalar

def isNull (s : String) : Bool := s == "null" || s == "Null" || s == "NULL" || s == "~"

def bool? (s : String) : Option Bool :=
  if s == "true" || s == "True" || s == "TRUE" then some true
  else if s == "false" || s == "False" || s == "FALSE" then some false
  else none

def dropSign : List Char → List Char
  | '+' :: s | '-' :: s => s
  | s => s

/-- Digits with a zero in front are no number. -/
def hasLeadingZero (s : List Char) : Bool :=
  match dropSign s with
  | '0' :: c :: s => (c :: s).all Char.isDigit
  | _ => false

/-- An integer without its sign. -/
def magnitude? : List Char → Option Nat
  | '0' :: 'x' :: s => Text.natural? 16 s
  | '0' :: 'o' :: s => Text.natural? 8 s
  | '0' :: 'b' :: s => Text.natural? 2 s
  | s => if hasLeadingZero s then none else Text.natural? 10 s

/-- An integer of at most 128 bits. -/
def int? (s : List Char) : Option Scalar :=
  match s with
  | '-' :: s => (magnitude? s).bind fun n =>
    if n ≤ 2 ^ 63 then some (int (-(n : Int))) else if n ≤ 2 ^ 127 then some wide else none
  | _ => (magnitude? (match s with | '+' :: t => t | _ => s)).bind fun n =>
    if n < 2 ^ 64 then some (int n) else if n < 2 ^ 128 then some wide else none

def isInfinity (s : String) : Bool := s == ".inf" || s == ".Inf" || s == ".INF"

/-- A number with a point or an exponent, or the name of one that is not finite. -/
def float? (s : List Char) : Option Binary64 :=
  let unsigned := match s with
    | '+' :: t => if t.head? = some '+' ∨ t.head? = some '-' then none else some t
    | _ => some s
  unsigned.bind fun u =>
    if isInfinity (String.ofList u) then some (.infinity false)
    else match s with
      | '-' :: t =>
        if isInfinity (String.ofList t) then some (.infinity true)
        else (Binary64.numeral? u).filter (·.isFinite)
      | _ =>
        let name := String.ofList s
        if name == ".nan" || name == ".NaN" || name == ".NAN" then some (.nan false)
        else (Binary64.numeral? u).filter (·.isFinite)

/-- What a plain scalar without a tag stands for. -/
def ofPlain (text : String) : Scalar :=
  if text.isEmpty || isNull text then null
  else match bool? text with
    | some b => bool b
    | none => match int? text.toList with
      | some n => n
      | none =>
        if hasLeadingZero text.toList then str
        else match float? text.toList with
          | some x => float x
          | none => str

/-- The value a scalar has, unless it is too wide for one. -/
def value? (text : String) : Scalar → Option Value
  | null => some .null
  | bool b => some (.bool b)
  | int n => some (if n < 2 ^ 63 then .int (.ofInt n) else .float (.ofInt n))
  | wide => none
  | float x => some (.float x)
  | str => some (.str text)

/-- The text a scalar has as a key. -/
def key? (text : String) : Scalar → Option String
  | null => some "null"
  | bool b => some (if b then "true" else "false")
  | int n => some (String.ofList (Text.ofInt n))
  | wide => none
  | float x => some (String.ofList (x.format Binary64.plain))
  | str => some text

end Scalar

end ConfigTree.Yaml
