import ConfigTree.Json.Fault
import ConfigTree.Text.Digits
import ConfigTree.Value

/-! JSON numbers.  The digits of a number are gathered in a word, and those past its range only
count; a number with a point or an exponent, or past the range of the word, is that word scaled by
a power of ten.  Scaling multiplies or divides by the nearest floating-point power. -/

namespace ConfigTree.Json

/-- Digits in front of `s` are gathered into `n` while it stays below 2^64.  Gives the digits
gathered, the word, and the rest. -/
def gather (count n : Nat) : List Char → Nat × Nat × List Char
  | [] => (count, n, [])
  | c :: s => match Text.digit? 10 c with
    | some d =>
      if n * 10 + d < 2 ^ 64 then gather (count + 1) (n * 10 + d) s else (count, n, c :: s)
    | none => (count, n, c :: s)

/-- The floating-point number nearest to `10 ^ k`, which is whole. -/
def powerOfTen (k : Nat) : Nat :=
  let x := Binary64.ofInt (10 ^ k : Nat)
  x.numerator / x.denominator

/-- Divides by `10 ^ k` in steps the format can hold. -/
def divideByPower : Nat → Binary64 → Nat → Binary64
  | 0, x, _ => x
  | steps + 1, x, k =>
    if k ≤ 308 then x.scale 1 (powerOfTen k)
    else if x.numerator = 0 then x
    else divideByPower steps (x.scale 1 (powerOfTen 308)) (k - 308)

/-- The number `± n * 10 ^ e`, unless it is out of range.  Four divisions leave zero of any word. -/
def scaled? (negative : Bool) (n : Nat) (e : Int) : Option Binary64 :=
  let word := Binary64.ofRatio negative n 1
  if e < 0 then some (divideByPower 4 word (-e).toNat)
  else if n = 0 then some word
  else if 308 < e then none
  else some (word.scale (powerOfTen e.toNat) 1) |>.filter (·.isFinite)

def finish (negative : Bool) (n : Nat) (e : Int) (rest : List Char) : Result Value :=
  match scaled? negative n e with
  | some x => .ok (.float x, rest)
  | none => fail .numberOutOfRange rest 0

/-- Digits of an exponent; `none` with the rest where they pass the range of a 32-bit integer. -/
def exponentDigits (e : Nat) : List Char → Option Nat × List Char
  | [] => (some e, [])
  | c :: s => match Text.digit? 10 c with
    | some d => if e * 10 + d < 2 ^ 31 then exponentDigits (e * 10 + d) s else (none, s)
    | none => (some e, c :: s)

/-- After the `e` of a number whose digits are worth `n * 10 ^ shift`. -/
def exponent (negative : Bool) (n : Nat) (shift : Int) (s : List Char) : Result Value :=
  let (down, s) := match s with
    | '+' :: t => (false, t)
    | '-' :: t => (true, t)
    | _ => (false, s)
  match s with
  | [] => fail .eofValue [] 0
  | c :: t => match Text.digit? 10 c with
    | none => fail .invalidNumber (c :: t) 1
    | some d => match exponentDigits d t with
      | (some e, rest) => finish negative n (if down then shift - e else shift + e) rest
      | (none, rest) =>
        if n ≠ 0 ∧ !down then fail .numberOutOfRange rest 0
        else .ok (.float (.zero negative), rest.dropWhile Char.isDigit)

def isExponentMark (c : Char) : Bool := c == 'e' || c == 'E'

/-- After the digits of a number; `shift` is the exponent they still need. -/
def afterDigits (negative : Bool) (n : Nat) (shift : Int) (s : List Char) : Result Value :=
  match s with
  | c :: t => if isExponentMark c then exponent negative n shift t else finish negative n shift s
  | [] => finish negative n shift []

/-- After the point of a number. -/
def fraction (negative : Bool) (n : Nat) (shift : Int) (s : List Char) : Result Value :=
  match s with
  | [] => fail .eofValue [] 0
  | c :: _ =>
    if c.isDigit then
      let (count, n, rest) := gather 0 n s
      afterDigits negative n (shift - count) (rest.dropWhile Char.isDigit)
    else fail .invalidNumber s 1

/-- A whole number that fits a word. -/
def whole (negative : Bool) (n : Nat) : Value :=
  if negative then
    if 0 < n ∧ n ≤ 2 ^ 63 then .int (.ofInt (-(n : Int))) else .float (.ofRatio true n 1)
  else if n < 2 ^ 63 then .int (.ofInt n) else .float (.ofRatio false n 1)

/-- A number after its sign. -/
def number (negative : Bool) (s : List Char) : Result Value :=
  match s with
  | [] => fail .eofValue [] 0
  | c :: t => match Text.digit? 10 c with
    | none => fail .invalidNumber s 1
    | some d =>
      if d = 0 ∧ t.head?.any Char.isDigit then fail .invalidNumber t 1
      else
        let (_, n, rest) := gather 0 d t
        let dropped := (rest.takeWhile Char.isDigit).length
        match rest.dropWhile Char.isDigit with
        | '.' :: u => fraction negative n dropped u
        | u =>
          if dropped = 0 ∧ !u.head?.any isExponentMark then .ok (whole negative n, u)
          else afterDigits negative n dropped u

end ConfigTree.Json
