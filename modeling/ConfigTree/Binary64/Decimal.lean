import ConfigTree.Binary64.Basic
import ConfigTree.Text.Digits

/-! Decimal text of a floating-point number.  `shortest` finds the fewest digits that read back as
the number and, among those, the nearest; a `Style` says how they are laid out.  `fixed` writes a
given number of places instead, rounding the exact value. -/

namespace ConfigTree.Binary64

/-- The decimal number `digits * 10 ^ exponent`. -/
structure Decimal where
  digits : Nat
  exponent : Int
  deriving DecidableEq, Repr

/-- The place `k` of the leading digit: `10 ^ (k - 1) ≤ num / den < 10 ^ k`. -/
def leadingPlace (num den : Nat) : Int :=
  if den ≤ num then (Text.ofNat (num / den)).length
  else
    let j := (Text.ofNat (den / num)).length
    if den ≤ num * 10 ^ (j - 1) then 2 - (j : Int) else 1 - (j : Int)

/-- The number `digits * 10 ^ e` lies between the midpoints to the neighbours of `x`.  A midpoint
itself belongs to the number with the even significand; below a power of two the neighbour is
nearer. -/
def readsBack (x : Binary64) (digits : Nat) (e : Int) : Bool :=
  let m := x.significand
  let q := x.exponent - 2
  let low := 4 * m - if m = 2 ^ 52 ∧ -1074 < x.exponent then 1 else 2
  let high := 4 * m + 2
  let candidate := digits * 10 ^ e.toNat * 2 ^ (-q).toNat
  let unit := 2 ^ q.toNat * 10 ^ (-e).toNat
  if m % 2 = 0 then low * unit ≤ candidate && candidate ≤ high * unit
  else low * unit < candidate && candidate < high * unit

/-- The best decimal with the last digit at place `e`, if one of the two next to `x` reads back. -/
def onGrid? (x : Binary64) (e : Int) : Option Decimal :=
  let num := x.numerator * 10 ^ (-e).toNat
  let den := x.denominator * 10 ^ e.toNat
  let below := num / den
  let near := nearest num den
  if x.readsBack near e then some ⟨near, e⟩
  else if x.readsBack below e then some ⟨below, e⟩
  else if x.readsBack (below + 1) e then some ⟨below + 1, e⟩
  else none

/-- The same number without trailing zeros, of which there are at most `fuel`. -/
def Decimal.trimmed : Nat → Decimal → Decimal
  | 0, d => d
  | fuel + 1, d =>
    if d.digits % 10 = 0 ∧ d.digits ≠ 0 then trimmed fuel ⟨d.digits / 10, d.exponent + 1⟩ else d

/-- The fewest digits that read back as the magnitude of `x`. -/
def shortest (x : Binary64) : Decimal :=
  if x.significand = 0 then ⟨0, 0⟩
  else
    let k := leadingPlace x.numerator x.denominator
    let found := (List.range 17).findSome? fun n : Nat => x.onGrid? (k - 1 - n)
    (found.getD ⟨nearest (x.numerator * 10 ^ (17 - k).toNat) (x.denominator * 10 ^ (k - 17).toNat),
      k - 17⟩).trimmed 17

/-- How digits are laid out.  The exponent of the leading digit decides between the positional and
the scientific form, and whether a whole number is marked by `.0`. -/
structure Style where
  /-- Positional form from this exponent on. -/
  positionalFrom : Option Int
  /-- Positional form below this exponent. -/
  positionalBelow : Option Int
  /-- Whole numbers below this exponent end in `.0`. -/
  pointBelow : Int
  /-- What stands between the `e` and an exponent that is not negative. -/
  plus : List Char
  nan : List Char
  infinity : List Char
  negativeInfinity : List Char

def Style.isPositional (style : Style) (leading : Int) : Bool :=
  style.positionalFrom.all (· ≤ leading) && style.positionalBelow.all (leading < ·)

def Decimal.layout (style : Style) (d : Decimal) : List Char :=
  let ds := Text.ofNat d.digits
  let point : Int := ds.length + d.exponent
  let leading := point - 1
  if style.isPositional leading then
    if 0 ≤ d.exponent then
      ds ++ List.replicate d.exponent.toNat '0' ++
        if leading < style.pointBelow then ['.', '0'] else []
    else if 0 < point then ds.take point.toNat ++ '.' :: ds.drop point.toNat
    else '0' :: '.' :: List.replicate (-point).toNat '0' ++ ds
  else
    ds.take 1 ++ (if ds.length = 1 then [] else '.' :: ds.drop 1) ++
      'e' :: (if leading < 0 then [] else style.plus) ++ Text.ofInt leading

def format (style : Style) (x : Binary64) : List Char :=
  if x.isNaN then style.nan
  else if !x.isFinite then if x.isNegative then style.negativeInfinity else style.infinity
  else (if x.isNegative then ['-'] else []) ++ x.shortest.layout style

/-- Positional always, and no mark on whole numbers. -/
def plain : Style :=
  { positionalFrom := none, positionalBelow := none, pointBelow := 0, plus := [],
    nan := "NaN".toList, infinity := "inf".toList, negativeInfinity := "-inf".toList }

/-- The exact value rounded to a number of places. -/
def fixed (places : Nat) (x : Binary64) : List Char :=
  if x.isNaN then "NaN".toList
  else
    let sign := if x.isNegative then ['-'] else []
    if !x.isFinite then sign ++ "inf".toList
    else
      let n := nearest (x.numerator * 10 ^ places) x.denominator
      let fraction := Text.ofNat (n % 10 ^ places)
      sign ++ Text.ofNat (n / 10 ^ places) ++
        '.' :: List.replicate (places - fraction.length) '0' ++ fraction

example : format plain ⟨1⟩ = '0' :: '.' :: List.replicate 323 '0' ++ ['5'] := by decide +kernel
example : format plain ⟨0x3FB999999999999A⟩ = "0.1".toList := by decide +kernel
example : format plain ⟨0xC341C37937E08000⟩ = "-10000000000000000".toList := by decide +kernel
example : fixed 6 ⟨0x3F80000000000000⟩ = "0.007812".toList := by decide +kernel

end ConfigTree.Binary64
