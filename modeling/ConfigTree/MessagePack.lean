import ConfigTree.Text.Bytes
import ConfigTree.Value

/-! Writing MessagePack.  Every integer and every length takes the shortest form that holds it, and
floating-point numbers keep all their bits. -/

namespace ConfigTree.MessagePack

/-- The low `count` bytes of `n`, the most significant first. -/
def bigEndian : Nat → Nat → List UInt8
  | 0, _ => []
  | count + 1, n => bigEndian count (n / 256) ++ [UInt8.ofNat n]

def natural (n : Nat) : List UInt8 :=
  if n < 2 ^ 7 then bigEndian 1 n
  else if n < 2 ^ 8 then 0xCC :: bigEndian 1 n
  else if n < 2 ^ 16 then 0xCD :: bigEndian 2 n
  else if n < 2 ^ 32 then 0xCE :: bigEndian 4 n
  else 0xCF :: bigEndian 8 n

/-- The integer `-n`, in two's complement. -/
def negative (n : Nat) : List UInt8 :=
  if n ≤ 2 ^ 5 then bigEndian 1 (2 ^ 8 - n)
  else if n ≤ 2 ^ 7 then 0xD0 :: bigEndian 1 (2 ^ 8 - n)
  else if n ≤ 2 ^ 15 then 0xD1 :: bigEndian 2 (2 ^ 16 - n)
  else if n ≤ 2 ^ 31 then 0xD2 :: bigEndian 4 (2 ^ 32 - n)
  else 0xD3 :: bigEndian 8 (2 ^ 64 - n)

def integer : Int → List UInt8
  | .ofNat n => natural n
  | .negSucc n => negative (n + 1)

def stringHeader (length : Nat) : List UInt8 :=
  if length < 2 ^ 5 then bigEndian 1 (0xA0 + length)
  else if length < 2 ^ 8 then 0xD9 :: bigEndian 1 length
  else if length < 2 ^ 16 then 0xDA :: bigEndian 2 length
  else 0xDB :: bigEndian 4 length

def string (s : String) : List UInt8 :=
  let content := Text.bytes s.toList
  stringHeader content.length ++ content

def sequenceHeader (length : Nat) : List UInt8 :=
  if length < 2 ^ 4 then bigEndian 1 (0x90 + length)
  else if length < 2 ^ 16 then 0xDC :: bigEndian 2 length
  else 0xDD :: bigEndian 4 length

def mapHeader (length : Nat) : List UInt8 :=
  if length < 2 ^ 4 then bigEndian 1 (0x80 + length)
  else if length < 2 ^ 16 then 0xDE :: bigEndian 2 length
  else 0xDF :: bigEndian 4 length

mutual

def encode : Value → List UInt8
  | .null => [0xC0]
  | .bool b => [if b then 0xC3 else 0xC2]
  | .int n => integer n.toInt
  | .float x => 0xCB :: bigEndian 8 x.bits.toNat
  | .str s => string s
  | .seq items => sequenceHeader items.length ++ encodeItems items
  | .map pairs => mapHeader pairs.length ++ encodePairs pairs
termination_by structural v => v

def encodeItems : List Value → List UInt8
  | [] => []
  | v :: vs => encode v ++ encodeItems vs
termination_by structural vs => vs

def encodePairs : List (String × Value) → List UInt8
  | [] => []
  | (k, v) :: ps => string k ++ encode v ++ encodePairs ps
termination_by structural ps => ps

end

@[simp] theorem length_bigEndian (count n : Nat) : (bigEndian count n).length = count := by
  induction count generalizing n with
  | zero => rfl
  | succ count ih => simp [bigEndian, ih]

example : integer (-33) = [0xD0, 0xDF] := by decide
example : integer 65536 = [0xCE, 0, 1, 0, 0] := by decide

end ConfigTree.MessagePack
