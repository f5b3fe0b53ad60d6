import ConfigTree.Power

/-! Floating-point numbers as 64-bit words in the binary interchange format.  Every operation is
carried out in exact integer arithmetic and rounded once, to nearest with ties to even. -/

namespace ConfigTree

structure Binary64 where
  bits : UInt64
  deriving DecidableEq, Repr, Inhabited

namespace Binary64

def isNegative (x : Binary64) : Bool := 2 ^ 63 ≤ x.bits.toNat

def exponentField (x : Binary64) : Nat := x.bits.toNat / 2 ^ 52 % 2 ^ 11

def fractionField (x : Binary64) : Nat := x.bits.toNat % 2 ^ 52

def isFinite (x : Binary64) : Bool := x.exponentField != 2047

def isNaN (x : Binary64) : Bool := x.exponentField == 2047 && x.fractionField != 0

/-- A finite number has the magnitude `significand * 2 ^ exponent`. -/
def significand (x : Binary64) : Nat :=
  if x.exponentField = 0 then x.fractionField else x.fractionField + 2 ^ 52

def exponent (x : Binary64) : Int :=
  if x.exponentField = 0 then -1074 else x.exponentField - 1075

/-- The magnitude of a finite number is `numerator / denominator`. -/
def numerator (x : Binary64) : Nat := x.significand * 2 ^ x.exponent.toNat

def denominator (x : Binary64) : Nat := 2 ^ (-x.exponent).toNat

/-- The word with the given sign whose other bits are worth `magnitude`. -/
def ofMagnitude (negative : Bool) (magnitude : Nat) : Binary64 :=
  ⟨UInt64.ofNat (magnitude + if negative then 2 ^ 63 else 0)⟩

def infinityMagnitude : Nat := 2047 * 2 ^ 52

def zero (negative : Bool) : Binary64 := ofMagnitude negative 0

def infinity (negative : Bool) : Binary64 := ofMagnitude negative infinityMagnitude

/-- The quiet NaN without payload. -/
def nan (negative : Bool) : Binary64 := ofMagnitude negative (infinityMagnitude + 2 ^ 51)

/-- The integer nearest to `num / den`; of two the even one. -/
def nearest (num den : Nat) : Nat :=
  let q := num / den
  let r := num % den
  if den < 2 * r || (2 * r == den && q % 2 == 1) then q + 1 else q

/-- The exponent of the last place of `num / den`: 53 bits stand above it, fewer where the smallest
exponent is reached. -/
def lastPlace (num den : Nat) : Int :=
  let e : Int := num.log2 - den.log2 - 52
  let e := if num * 2 ^ (-e).toNat < den * 2 ^ e.toNat * 2 ^ 52 then e - 1 else e
  max e (-1074)

/-- The number nearest to `± num / den`.  Adding the exponent to the fraction carries into the next
power of two by itself, and everything past the largest finite number is infinite. -/
def ofRatio (negative : Bool) (num den : Nat) : Binary64 :=
  if num = 0 then zero negative
  else
    let e := lastPlace num den
    let m := nearest (num * 2 ^ (-e).toNat) (den * 2 ^ e.toNat)
    ofMagnitude negative (min ((e + 1074).toNat * 2 ^ 52 + m) infinityMagnitude)

def ofInt (n : Int) : Binary64 := ofRatio (n < 0) n.natAbs 1

/-- The product with `num / den`; what is not finite stays. -/
def scale (x : Binary64) (num den : Nat) : Binary64 :=
  if x.isFinite then ofRatio x.isNegative (x.numerator * num) (x.denominator * den) else x

/-- The value of a whole number. -/
def toInt? (x : Binary64) : Option Int :=
  if x.isFinite && x.numerator % x.denominator == 0 then
    let n : Int := (x.numerator / x.denominator : Nat)
    some (if x.isNegative then -n else n)
  else none

example : ofRatio false 3 2 = ⟨0x3FF8000000000000⟩ := by decide +kernel
example : ofRatio true (10 ^ 400) 1 = infinity true := by decide +kernel
example : ofRatio false 5 (10 ^ 324) = ⟨1⟩ := by decide +kernel
example : ofInt (2 ^ 64 - 1) = ⟨0x43F0000000000000⟩ := by decide +kernel

end Binary64

end ConfigTree
