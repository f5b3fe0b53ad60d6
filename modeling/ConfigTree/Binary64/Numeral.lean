import ConfigTree.Binary64.Basic
import ConfigTree.Text.Digits

/-! Reading a decimal numeral as the nearest floating-point number.  The grammar is an optional sign
and either a name for infinity or NaN, in letters of either case, or digits with at most one point
and an optional exponent. -/

namespace ConfigTree.Binary64

/-- The number nearest to `± n * 10 ^ e`, where `n` has at most `width` digits.  Exponents beyond
the range of the format are settled without forming the power. -/
def ofDecimal (negative : Bool) (n width : Nat) (e : Int) : Binary64 :=
  if n = 0 ∨ width + e < -330 then zero negative
  else if 330 < e then infinity negative
  else ofRatio negative (n * 10 ^ e.toNat) (10 ^ (-e).toNat)

/-- The exponent that ends a numeral: nothing, or `e`, a sign and digits. -/
def exponentPart? : List Char → Option Int
  | [] => some 0
  | c :: s => if c = 'e' ∨ c = 'E' then Text.integer? 10 s else none

def magnitude? (negative : Bool) (s : List Char) : Option Binary64 :=
  let whole := s.takeWhile Char.isDigit
  let (fraction, rest) := match s.dropWhile Char.isDigit with
    | '.' :: t => (t.takeWhile Char.isDigit, t.dropWhile Char.isDigit)
    | t => ([], t)
  let digits := whole ++ fraction
  (Text.natural? 10 digits).bind fun n => (exponentPart? rest).map fun e =>
    ofDecimal negative n digits.length (e - fraction.length)

def unsignedNumeral? (negative : Bool) (s : List Char) : Option Binary64 :=
  let name := s.map Char.toLower
  if name = "nan".toList then some (nan negative)
  else if name = "inf".toList ∨ name = "infinity".toList then some (infinity negative)
  else magnitude? negative s

def numeral? : List Char → Option Binary64
  | '-' :: s => unsignedNumeral? true s
  | '+' :: s => unsignedNumeral? false s
  | s => unsignedNumeral? false s

example : numeral? "-1.5e3".toList = some ⟨0xC097700000000000⟩ := by decide +kernel
example : numeral? "5.".toList = some ⟨0x4014000000000000⟩ := by decide +kernel
example : numeral? ".".toList = none := by decide +kernel
example : numeral? "1e999999999999".toList = some (infinity false) := by decide +kernel

end ConfigTree.Binary64
