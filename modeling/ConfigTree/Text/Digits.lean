import ConfigTree.Power

/-! Numerals in a radix.  `natural?` reads a non-empty run of digits and nothing else; `integer?`
allows one sign in front.  Digits beyond nine are letters of either case. -/

namespace ConfigTree.Text

def digit? (radix : Nat) (c : Char) : Option Nat :=
  let value? : Option Nat :=
    if '0' ≤ c ∧ c ≤ '9' then some (c.toNat - '0'.toNat)
    else if 'a' ≤ c ∧ c ≤ 'z' then some (c.toNat - 'a'.toNat + 10)
    else if 'A' ≤ c ∧ c ≤ 'Z' then some (c.toNat - 'A'.toNat + 10)
    else none
  value?.filter (· < radix)

/-- The value of `s` read after digits worth `n`. -/
def accumulate? (radix : Nat) : Nat → List Char → Option Nat
  | n, [] => some n
  | n, c :: s => (digit? radix c).bind fun d => accumulate? radix (n * radix + d) s

def natural? (radix : Nat) : List Char → Option Nat
  | [] => none
  | c :: s => accumulate? radix 0 (c :: s)

def integer? (radix : Nat) : List Char → Option Int
  | '-' :: s => (natural? radix s).map fun n => -(n : Int)
  | '+' :: s => (natural? radix s).map Int.ofNat
  | s => (natural? radix s).map Int.ofNat

/-- An unsigned numeral below `2 ^ bits`; a plus sign is allowed. -/
def unsigned? (bits radix : Nat) (s : List Char) : Option Nat :=
  let digits := match s with
    | '+' :: rest => rest
    | _ => s
  (natural? radix digits).filter (· < 2 ^ bits)

/-- A signed numeral that fits `bits` bits in two's complement. -/
def signed? (bits radix : Nat) (s : List Char) : Option Int :=
  (integer? radix s).filter fun n => -(2 ^ (bits - 1) : Int) ≤ n ∧ n < 2 ^ (bits - 1)

/-- A signed numeral of a 64-bit word. -/
def int64? (radix : Nat) (s : List Char) : Option Int64 :=
  (signed? 64 radix s).map Int64.ofInt

def ofNat (n : Nat) : List Char := Nat.toDigits 10 n

def ofInt : Int → List Char
  | .ofNat n => ofNat n
  | .negSucc n => '-' :: ofNat (n + 1)

end ConfigTree.Text
