import ConfigTree.MessagePack
import Mathlib.Data.List.Induction
import Mathlib.Tactic.SplitIfs

/-! Heads.  A value in MessagePack starts with a head, which is the whole of it or says how many
bytes, items or pairs follow.  The first byte of a head tells its form.  What is written as a head
is read as that head whatever stands behind it, and no shorter form is read as it. -/

namespace ConfigTree.MessagePack

inductive Head
  | null
  | bool (b : Bool)
  | int (n : Int)
  | float (bits : Nat)
  | str (length : Nat)
  | seq (length : Nat)
  | map (length : Nat)

namespace Head

def write : Head → List UInt8
  | null => [0xC0]
  | bool b => [if b then 0xC3 else 0xC2]
  | int n => integer n
  | float bits => 0xCB :: bigEndian 8 bits
  | str length => stringHeader length
  | seq length => sequenceHeader length
  | map length => mapHeader length

/-- There is a form for the head. -/
def Fits : Head → Prop
  | null | bool _ => True
  | int n => -2 ^ 63 ≤ n ∧ n < 2 ^ 64
  | float bits => bits < 2 ^ 64
  | str length | seq length | map length => length < 2 ^ 32

/-- For a first byte, the number of bytes behind it and the head that the number in them makes.  The
forms of binary data, extensions and single-precision numbers are left out, as no value has them. -/
def wideForm? : Nat → Option (Nat × (Nat → Head))
  | 0xC0 => some (0, fun _ => null)
  | 0xC2 => some (0, fun _ => bool false)
  | 0xC3 => some (0, fun _ => bool true)
  | 0xCB => some (8, float)
  | 0xCC => some (1, fun n => int n)
  | 0xCD => some (2, fun n => int n)
  | 0xCE => some (4, fun n => int n)
  | 0xCF => some (8, fun n => int n)
  | 0xD0 => some (1, fun n => int (Int.bmod n (2 ^ 8)))
  | 0xD1 => some (2, fun n => int (Int.bmod n (2 ^ 16)))
  | 0xD2 => some (4, fun n => int (Int.bmod n (2 ^ 32)))
  | 0xD3 => some (8, fun n => int (Int.bmod n (2 ^ 64)))
  | 0xD9 => some (1, str)
  | 0xDA => some (2, str)
  | 0xDB => some (4, str)
  | 0xDC => some (2, seq)
  | 0xDD => some (4, seq)
  | 0xDE => some (2, map)
  | 0xDF => some (4, map)
  | _ => none

/-- Small numbers and lengths stand in the first byte itself. -/
def form? (first : Nat) : Option (Nat × (Nat → Head)) :=
  if first < 0x80 then some (0, fun _ => int first)
  else if first < 0x90 then some (0, fun _ => map (first - 0x80))
  else if first < 0xA0 then some (0, fun _ => seq (first - 0x90))
  else if first < 0xC0 then some (0, fun _ => str (first - 0xA0))
  else if first < 0xE0 then wideForm? first
  else some (0, fun _ => int (first - 2 ^ 8))

end Head

/-- The number that bytes stand for, the most significant first. -/
def ofBigEndian (bytes : List UInt8) : Nat := bytes.foldl (fun n b => n * 256 + b.toNat) 0

def word? (count : Nat) (bytes : List UInt8) : Option (Nat × List UInt8) :=
  if count ≤ bytes.length then some (ofBigEndian (bytes.take count), bytes.drop count) else none

/-- The head that bytes start with, and the bytes behind it. -/
def head? : List UInt8 → Option (Head × List UInt8)
  | [] => none
  | b :: bytes => (Head.form? b.toNat).bind fun (count, head) =>
    (word? count bytes).map fun (n, rest) => (head n, rest)

/-! ## Numbers -/

theorem ofBigEndian_append (bytes : List UInt8) (b : UInt8) :
    ofBigEndian (bytes ++ [b]) = ofBigEndian bytes * 256 + b.toNat := by
  rw [ofBigEndian, List.foldl_append]
  rfl

theorem ofBigEndian_bigEndian {count n : Nat} (h : n < 256 ^ count) :
    ofBigEndian (bigEndian count n) = n := by
  induction count generalizing n with
  | zero => exact (Nat.lt_one_iff.1 h).symm
  | succ count ih =>
    have hhigh : n / 256 < 256 ^ count := Nat.div_lt_of_lt_mul (Nat.pow_succ' ▸ h)
    rw [bigEndian, ofBigEndian_append, ih hhigh, UInt8.toNat_ofNat']
    omega

theorem ofBigEndian_lt (bytes : List UInt8) : ofBigEndian bytes < 256 ^ bytes.length := by
  induction bytes using List.reverseRecOn with
  | nil => exact Nat.one_pos
  | append_singleton bytes b ih =>
    have hb := b.toNat_lt
    rw [ofBigEndian_append, List.length_append, List.length_singleton, Nat.pow_succ]
    omega

theorem word?_bigEndian {count n : Nat} (h : n < 256 ^ count) (rest : List UInt8) :
    word? count (bigEndian count n ++ rest) = some (n, rest) := by
  have hlength : (bigEndian count n).length = count := length_bigEndian count n
  rw [word?, if_pos (by rw [List.length_append, hlength]; omega), List.take_left' hlength,
    List.drop_left' hlength, ofBigEndian_bigEndian h]

theorem word?_spec {count n : Nat} {bytes rest : List UInt8}
    (h : word? count bytes = some (n, rest)) :
    n < 256 ^ count ∧ bytes.length = count + rest.length := by
  rw [word?] at h
  split at h
  · next hle =>
    cases h
    have hlt := ofBigEndian_lt (bytes.take count)
    rw [List.length_take, Nat.min_eq_left hle] at hlt
    exact ⟨hlt, by rw [List.length_drop]; omega⟩
  · cases h

/-! ## Reading back -/

section

variable {count n : Nat} {rest : List UInt8}

theorem head?_wide {b : UInt8} {f : Nat → Head} (hform : Head.form? b.toNat = some (count, f))
    (h : n < 256 ^ count) : head? (b :: bigEndian count n ++ rest) = some (f n, rest) := by
  rw [List.cons_append, head?, hform, Option.bind_some]
  simp only [word?_bigEndian h, Option.map_some]

theorem head?_short {head : Head} (h : n < 256) (hform : Head.form? n = some (0, fun _ => head)) :
    head? (bigEndian 1 n ++ rest) = some (head, rest) := by
  have hbyte : (UInt8.ofNat n).toNat = n := by
    rw [UInt8.toNat_ofNat']
    omega
  exact head?_wide (b := UInt8.ofNat n) (n := 0) (hbyte.symm ▸ hform) Nat.one_pos

/-- The two's complement of `n` in a word of modulus `m`. -/
theorem head?_complement {b : UInt8} {m : Nat}
    (hform : Head.form? b.toNat = some (count, fun n => .int (Int.bmod n m)))
    (hm : m = 256 ^ count) (hpos : 0 < n) (h : 2 * n ≤ m) :
    head? (b :: bigEndian count (m - n) ++ rest) = some (.int (-n), rest) := by
  have hsigned : Int.bmod (m - n : Nat) m = -n := by
    rw [Int.ofNat_sub (by omega), Int.sub_eq_add_neg, Int.add_bmod_left]
    exact Int.bmod_eq_of_le_mul_two (by omega) (by omega)
  rw [head?_wide hform (by omega), hsigned]

theorem head?_natural (h : n < 2 ^ 64) : head? (natural n ++ rest) = some (.int n, rest) := by
  unfold natural
  split_ifs with h7 h8 h16 h32
  · exact head?_short (by omega) (if_pos h7)
  · exact head?_wide (f := fun n => .int n) rfl h8
  · exact head?_wide (f := fun n => .int n) rfl h16
  · exact head?_wide (f := fun n => .int n) rfl h32
  · exact head?_wide (f := fun n => .int n) rfl h

theorem head?_negative (hpos : 0 < n) (h : n ≤ 2 ^ 63) :
    head? (negative n ++ rest) = some (.int (-n), rest) := by
  unfold negative
  split_ifs with h5 h7 h15 h31
  · refine head?_short (by omega) ?_
    have hsigned : ((2 ^ 8 - n : Nat) : Int) - 2 ^ 8 = -n := by omega
    rw [Head.form?, if_neg (by omega), if_neg (by omega), if_neg (by omega), if_neg (by omega),
      if_neg (by omega), hsigned]
  · exact head?_complement rfl rfl hpos (by omega)
  · exact head?_complement rfl rfl hpos (by omega)
  · exact head?_complement rfl rfl hpos (by omega)
  · exact head?_complement rfl rfl hpos (by omega)

theorem head?_stringHeader (h : n < 2 ^ 32) :
    head? (stringHeader n ++ rest) = some (.str n, rest) := by
  unfold stringHeader
  split_ifs with h5 h8 h16
  · refine head?_short (by omega) ?_
    rw [Head.form?, if_neg (by omega), if_neg (by omega), if_neg (by omega), if_pos (by omega),
      Nat.add_sub_cancel_left]
  · exact head?_wide (f := .str) rfl h8
  · exact head?_wide (f := .str) rfl h16
  · exact head?_wide (f := .str) rfl h

theorem head?_sequenceHeader (h : n < 2 ^ 32) :
    head? (sequenceHeader n ++ rest) = some (.seq n, rest) := by
  unfold sequenceHeader
  split_ifs with h4 h16
  · refine head?_short (by omega) ?_
    rw [Head.form?, if_neg (by omega), if_neg (by omega), if_pos (by omega),
      Nat.add_sub_cancel_left]
  · exact head?_wide (f := .seq) rfl h16
  · exact head?_wide (f := .seq) rfl h

theorem head?_mapHeader (h : n < 2 ^ 32) : head? (mapHeader n ++ rest) = some (.map n, rest) := by
  unfold mapHeader
  split_ifs with h4 h16
  · refine head?_short (by omega) ?_
    rw [Head.form?, if_neg (by omega), if_pos (by omega), Nat.add_sub_cancel_left]
  · exact head?_wide (f := .map) rfl h16
  · exact head?_wide (f := .map) rfl h

/-- What is written as a head is read as that head. -/
theorem head?_write {head : Head} (h : head.Fits) :
    head? (head.write ++ rest) = some (head, rest) := by
  cases head with
  | null => rfl
  | bool b => cases b <;> rfl
  | int n =>
    rw [Head.write]
    cases n with
    | ofNat n => exact head?_natural (Int.ofNat_lt.1 h.2)
    | negSucc n => exact head?_negative (Nat.succ_pos n) (Int.ofNat_le.1 (Int.neg_le_neg_iff.1 h.1))
  | float bits => exact head?_wide (f := .float) rfl h
  | str length => exact head?_stringHeader h
  | seq length => exact head?_sequenceHeader h
  | map length => exact head?_mapHeader h

end

/-! ## Shortest forms -/

theorem length_integer (n : Int) :
    (integer n).length =
      if -2 ^ 5 ≤ n ∧ n < 2 ^ 7 then 1
      else if -2 ^ 7 ≤ n ∧ n < 2 ^ 8 then 2
      else if -2 ^ 15 ≤ n ∧ n < 2 ^ 16 then 3
      else if -2 ^ 31 ≤ n ∧ n < 2 ^ 32 then 5
      else 9 := by
  cases n with
  | ofNat n =>
    rw [integer, natural, Int.ofNat_eq_natCast]
    split_ifs <;> simp only [List.length_cons, length_bigEndian] <;> omega
  | negSucc n =>
    rw [integer, negative]
    split_ifs <;> simp only [List.length_cons, length_bigEndian] <;> omega

theorem length_stringHeader (n : Nat) :
    (stringHeader n).length =
      if n < 2 ^ 5 then 1 else if n < 2 ^ 8 then 2 else if n < 2 ^ 16 then 3 else 5 := by
  unfold stringHeader
  split_ifs <;> simp

theorem length_sequenceHeader (n : Nat) :
    (sequenceHeader n).length = if n < 2 ^ 4 then 1 else if n < 2 ^ 16 then 3 else 5 := by
  unfold sequenceHeader
  split_ifs <;> simp

theorem length_mapHeader (n : Nat) :
    (mapHeader n).length = if n < 2 ^ 4 then 1 else if n < 2 ^ 16 then 3 else 5 := by
  unfold mapHeader
  split_ifs <;> simp

theorem length_natural_le {n count : Nat} (hcount : count ∈ [1, 2, 4, 8]) (h : n < 256 ^ count) :
    (integer n).length ≤ 1 + count := by
  simp only [List.mem_cons, List.not_mem_nil, or_false] at hcount
  rw [length_integer]
  rcases hcount with rfl | rfl | rfl | rfl <;> split_ifs <;> omega

theorem length_bmod_le (n count : Nat) (hcount : count ∈ [1, 2, 4, 8]) :
    (integer (Int.bmod n (256 ^ count))).length ≤ 1 + count := by
  have hpos : 0 < 256 ^ count := Nat.pow_pos (by decide)
  have hlow := Int.le_bmod (x := n) hpos
  have hhigh := Int.bmod_lt (x := n) hpos
  simp only [List.mem_cons, List.not_mem_nil, or_false] at hcount
  rw [length_integer]
  rcases hcount with rfl | rfl | rfl | rfl <;> split_ifs <;> omega

theorem length_write_of_wideForm {first count n : Nat} {head : Nat → Head}
    (hform : Head.wideForm? first = some (count, head)) (h : n < 256 ^ count) :
    (head n).write.length ≤ 1 + count := by
  unfold Head.wideForm? at hform
  split at hform
  case h_1 | h_2 | h_3 =>
    cases hform
    exact Nat.le_refl 1
  case h_4 =>
    cases hform
    exact Nat.le_refl 9
  case h_5 | h_6 | h_7 | h_8 =>
    cases hform
    exact length_natural_le (by decide) h
  case h_9 =>
    cases hform
    exact length_bmod_le n 1 (by decide)
  case h_10 =>
    cases hform
    exact length_bmod_le n 2 (by decide)
  case h_11 =>
    cases hform
    exact length_bmod_le n 4 (by decide)
  case h_12 =>
    cases hform
    exact length_bmod_le n 8 (by decide)
  case h_13 | h_14 | h_15 =>
    cases hform
    rw [Head.write, length_stringHeader]
    split_ifs <;> omega
  case h_16 | h_17 =>
    cases hform
    rw [Head.write, length_sequenceHeader]
    split_ifs <;> omega
  case h_18 | h_19 =>
    cases hform
    rw [Head.write, length_mapHeader]
    split_ifs <;> omega
  case h_20 => cases hform

/-- No form of a head is shorter than the one that is written. -/
theorem length_write_of_form {first count n : Nat} {head : Nat → Head} (hfirst : first < 2 ^ 8)
    (hform : Head.form? first = some (count, head)) (h : n < 256 ^ count) :
    (head n).write.length ≤ 1 + count := by
  unfold Head.form? at hform
  split_ifs at hform
  · cases hform
    exact Nat.le_of_eq ((length_integer first).trans (if_pos (by omega)))
  · cases hform
    exact Nat.le_of_eq ((length_mapHeader _).trans (if_pos (by omega)))
  · cases hform
    exact Nat.le_of_eq ((length_sequenceHeader _).trans (if_pos (by omega)))
  · cases hform
    exact Nat.le_of_eq ((length_stringHeader _).trans (if_pos (by omega)))
  · exact length_write_of_wideForm hform h
  · cases hform
    exact Nat.le_of_eq ((length_integer (first - 2 ^ 8)).trans (if_pos (by omega)))

/-- A head is made by the form of its first byte, of the number in the bytes behind that. -/
theorem exists_of_head? {bytes rest : List UInt8} {head : Head}
    (h : head? bytes = some (head, rest)) :
    ∃ first count make n, first < 2 ^ 8 ∧ Head.form? first = some (count, make) ∧
      n < 256 ^ count ∧ head = make n ∧ bytes.length = 1 + count + rest.length := by
  cases bytes with
  | nil => cases h
  | cons b bytes =>
    obtain ⟨⟨count, make⟩, hform, hword⟩ := Option.bind_eq_some_iff.1 h
    obtain ⟨⟨n, rest'⟩, hn, hhead⟩ := Option.map_eq_some_iff.1 hword
    cases hhead
    obtain ⟨hlt, hlength⟩ := word?_spec hn
    refine ⟨b.toNat, count, make, n, b.toNat_lt, hform, hlt, rfl, ?_⟩
    rw [List.length_cons, hlength]
    omega

theorem length_write_le {bytes rest : List UInt8} {head : Head}
    (h : head? bytes = some (head, rest)) : head.write.length + rest.length ≤ bytes.length := by
  obtain ⟨first, count, make, n, hfirst, hform, hlt, rfl, hlength⟩ := exists_of_head? h
  have hle := length_write_of_form hfirst hform hlt
  omega

end ConfigTree.MessagePack
