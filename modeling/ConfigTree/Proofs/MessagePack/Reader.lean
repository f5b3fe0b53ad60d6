import ConfigTree.Proofs.MessagePack.Head
import ConfigTree.Proofs.Node.Canonical
import ConfigTree.Proofs.Text.Bytes

/-! Reading MessagePack back: a head, and then the content it tells of.  What is written for a value
is read as that value whatever stands behind it, so that no two values have encodings of which one
starts with the other. -/

namespace ConfigTree

namespace Value

/-- The keys of a map. -/
def keys : Value → List String
  | map pairs => pairs.map Prod.fst
  | _ => []

theorem depth_lt_of_mem_inner {v w : Value} (h : w ∈ v.inner) : w.depth < v.depth := by
  cases v with
  | seq items =>
    rw [depth, Nat.lt_one_add_iff]
    change w ∈ items at h
    induction items with
    | nil => cases h
    | cons v vs ih =>
      rw [depthItems]
      rcases List.mem_cons.1 h with rfl | h
      · exact Nat.le_max_left ..
      · exact Nat.le_trans (ih h) (Nat.le_max_right ..)
  | map pairs =>
    rw [depth, Nat.lt_one_add_iff]
    change w ∈ pairs.map Prod.snd at h
    induction pairs with
    | nil => cases h
    | cons p ps ih =>
      rw [depthPairs]
      rcases List.mem_cons.1 h with rfl | h
      · exact Nat.le_max_left ..
      · exact Nat.le_trans (ih h) (Nat.le_max_right ..)
  | _ => cases h

end Value

namespace MessagePack

/-! ## Writing as a head and a content -/

def head : Value → Head
  | .null => .null
  | .bool b => .bool b
  | .int n => .int n.toInt
  | .float x => .float x.bits.toNat
  | .str s => .str (Text.bytes s.toList).length
  | .seq items => .seq items.length
  | .map pairs => .map pairs.length

/-- What stands behind the head. -/
def content : Value → List UInt8
  | .str s => Text.bytes s.toList
  | .seq items => items.flatMap encode
  | .map pairs => pairs.flatMap fun p => encode (.str p.1) ++ encode p.2
  | .null | .bool _ | .int _ | .float _ => []

theorem encodeItems_eq_flatMap (vs : List Value) : encodeItems vs = vs.flatMap encode := by
  induction vs with
  | nil => rfl
  | cons v vs ih => rw [encodeItems, ih, List.flatMap_cons]

theorem encodePairs_eq_flatMap (ps : List (String × Value)) :
    encodePairs ps = ps.flatMap fun p => encode (.str p.1) ++ encode p.2 := by
  induction ps with
  | nil => rfl
  | cons p ps ih => rw [encodePairs, ih, List.flatMap_cons, encode]

theorem encode_eq (v : Value) : encode v = (head v).write ++ content v := by
  cases v with
  | str s => rfl
  | seq items => rw [encode, encodeItems_eq_flatMap]; rfl
  | map pairs => rw [encode, encodePairs_eq_flatMap]; rfl
  | _ => exact (List.append_nil _).symm

/-- The value and all its keys have heads, and so has everything in it. -/
inductive Encodable : Value → Prop
  | intro {v : Value} (head : (head v).Fits)
      (keys : ∀ k ∈ v.keys, (Text.bytes k.toList).length < 2 ^ 32)
      (inner : ∀ w ∈ v.inner, Encodable w) : Encodable v

theorem encodable_of_leaf {v : Value} (h : (head v).Fits) (hkeys : v.keys = [])
    (hinner : v.inner = []) : Encodable v :=
  .intro h (by simp [hkeys]) (by simp [hinner])

theorem encodable_int (n : Int64) : Encodable (.int n) := by
  have hlt := n.toInt_lt
  exact encodable_of_leaf ⟨n.le_toInt, by omega⟩ rfl rfl

theorem encodable_seq {items : List Value} (hlength : items.length < 2 ^ 32)
    (h : ∀ v ∈ items, Encodable v) : Encodable (.seq items) :=
  .intro hlength (fun _ hk => nomatch hk) h

theorem encodable_map {pairs : List (String × Value)} (hlength : pairs.length < 2 ^ 32)
    (hkeys : ∀ p ∈ pairs, (Text.bytes p.1.toList).length < 2 ^ 32)
    (h : ∀ p ∈ pairs, Encodable p.2) : Encodable (.map pairs) :=
  .intro hlength (List.forall_mem_map.2 hkeys) (List.forall_mem_map.2 h)

/-! ## Reading -/

/-- As many bytes of text off the front. -/
def text? (length : Nat) (bytes : List UInt8) : Option (String × List UInt8) :=
  if length ≤ bytes.length then
    (Text.ofBytes? (bytes.take length)).map fun s => (s, bytes.drop length)
  else none

def key? (bytes : List UInt8) : Option (String × List UInt8) :=
  (head? bytes).bind fun
    | (.str length, rest) => text? length rest
    | _ => none

/-- What `read` makes of the front, so many times. -/
def many {α : Type} (read : List UInt8 → Option (α × List UInt8)) :
    Nat → List UInt8 → Option (List α × List UInt8)
  | 0, bytes => some ([], bytes)
  | count + 1, bytes => (read bytes).bind fun (a, rest) =>
    (many read count rest).map fun (as, rest) => (a :: as, rest)

def pair? (read : List UInt8 → Option (Value × List UInt8)) (bytes : List UInt8) :
    Option ((String × Value) × List UInt8) :=
  (key? bytes).bind fun (k, rest) => (read rest).map fun (v, rest) => ((k, v), rest)

/-- What has no further values in it.  A number past the signed words is no integer of a tree. -/
def leaf? (bytes : List UInt8) : Head → Option (Value × List UInt8)
  | .null => some (.null, bytes)
  | .bool b => some (.bool b, bytes)
  | .int n => if n < 2 ^ 63 then some (.int (.ofInt n), bytes) else none
  | .float bits => some (.float ⟨.ofNat bits⟩, bytes)
  | .str length => (text? length bytes).map fun (s, rest) => (.str s, rest)
  | .seq _ | .map _ => none

/-- The value that bytes start with, of a depth up to `limit`, and the bytes behind it. -/
def value? : Nat → List UInt8 → Option (Value × List UInt8)
  | 0, bytes => (head? bytes).bind fun (head, rest) => leaf? rest head
  | limit + 1, bytes => (head? bytes).bind fun
    | (.seq length, rest) =>
      (many (value? limit) length rest).map fun (vs, rest) => (.seq vs, rest)
    | (.map length, rest) =>
      (many (pair? (value? limit)) length rest).map fun (ps, rest) => (.map ps, rest)
    | (head, rest) => leaf? rest head

/-! ## Reading back -/

theorem text?_bytes (s : String) (rest : List UInt8) :
    text? (Text.bytes s.toList).length (Text.bytes s.toList ++ rest) = some (s, rest) := by
  rw [text?, if_pos (by rw [List.length_append]; omega), List.take_left, List.drop_left,
    Text.ofBytes?_bytes, String.ofList_toList, Option.map_some]

theorem key?_encode {s : String} (h : (Text.bytes s.toList).length < 2 ^ 32) (rest : List UInt8) :
    key? (encode (.str s) ++ rest) = some (s, rest) := by
  rw [key?, encode, string, List.append_assoc, head?_stringHeader h, Option.bind_some]
  exact text?_bytes s rest

theorem head?_encode {v : Value} (h : Encodable v) (rest : List UInt8) :
    head? (encode v ++ rest) = some (head v, content v ++ rest) := by
  obtain ⟨hhead, -, -⟩ := h
  rw [encode_eq, List.append_assoc, head?_write hhead]

theorem many_flatMap {α : Type} {read : List UInt8 → Option (α × List UInt8)}
    {write : α → List UInt8} {as : List α}
    (h : ∀ a ∈ as, ∀ rest, read (write a ++ rest) = some (a, rest)) (rest : List UInt8) :
    many read as.length (as.flatMap write ++ rest) = some (as, rest) := by
  induction as with
  | nil => rfl
  | cons a as ih =>
    rw [List.flatMap_cons, List.append_assoc, List.length_cons, many, h a List.mem_cons_self,
      Option.bind_some]
    simp only [ih fun b hb => h b (List.mem_cons_of_mem a hb), Option.map_some]

theorem value?_of_leaf? {limit : Nat} {bytes rest rest' : List UInt8} {head : Head} {v : Value}
    (h : head? bytes = some (head, rest)) (hleaf : leaf? rest head = some (v, rest')) :
    value? limit bytes = some (v, rest') := by
  cases limit with
  | zero =>
    rw [value?, h, Option.bind_some]
    exact hleaf
  | succ limit =>
    rw [value?, h, Option.bind_some]
    cases head with
    | seq length => cases hleaf
    | map length => cases hleaf
    | _ => exact hleaf

/-- What is written for a value is read as that value. -/
theorem value?_encode {limit : Nat} {v : Value} (hv : Encodable v) (h : v.depth ≤ limit)
    (rest : List UInt8) : value? limit (encode v ++ rest) = some (v, rest) := by
  induction v using Value.inductInner generalizing limit rest with
  | step v ih =>
    have hread := head?_encode hv rest
    obtain ⟨-, hkeys, hinner⟩ := hv
    have hback {k : Nat} (hk : v.depth ≤ k + 1) (w : Value) (hw : w ∈ v.inner) (rest : List UInt8) :
        value? k (encode w ++ rest) = some (w, rest) := by
      have hlt := Value.depth_lt_of_mem_inner hw
      exact ih w hw (hinner w hw) (by omega) rest
    cases v with
    | seq items =>
      obtain ⟨k, rfl⟩ : ∃ k, limit = k + 1 :=
        Nat.exists_eq_add_one.2 (by rw [Value.depth] at h; omega)
      have hitems : many (value? k) items.length (items.flatMap encode ++ rest) =
          some (items, rest) := many_flatMap (hback h) rest
      rw [value?, hread, Option.bind_some]
      simp only [head, content, hitems, Option.map_some]
    | map pairs =>
      obtain ⟨k, rfl⟩ : ∃ k, limit = k + 1 :=
        Nat.exists_eq_add_one.2 (by rw [Value.depth] at h; omega)
      have hpair (p : String × Value) (hp : p ∈ pairs) (rest : List UInt8) :
          pair? (value? k) (encode (.str p.1) ++ encode p.2 ++ rest) = some (p, rest) := by
        rw [pair?, List.append_assoc, key?_encode (hkeys p.1 (List.mem_map_of_mem hp)),
          Option.bind_some]
        simp only [hback h p.2 (List.mem_map_of_mem hp), Option.map_some]
      have hpairs := many_flatMap hpair rest
      rw [value?, hread, Option.bind_some]
      simp only [head, content, hpairs, Option.map_some]
    | null | bool b => exact value?_of_leaf? hread rfl
    | int n =>
      refine value?_of_leaf? hread ?_
      rw [head, leaf?, if_pos n.toInt_lt, Int64.ofInt_toInt]
      rfl
    | float x =>
      refine value?_of_leaf? hread ?_
      rw [head, leaf?, UInt64.ofNat_toNat]
      rfl
    | str s =>
      refine value?_of_leaf? hread ?_
      rw [head, leaf?, content, text?_bytes, Option.map_some]

theorem encode_ne_nil {v : Value} (hv : Encodable v) : encode v ≠ [] := by
  intro h
  have hread := head?_encode hv []
  rw [h] at hread
  cases hread

/-- Encodings that start the same bytes are encodings of the same value. -/
theorem encode_append_inj {v w : Value} (hv : Encodable v) (hw : Encodable w) {x y : List UInt8}
    (h : encode v ++ x = encode w ++ y) : v = w ∧ x = y := by
  have hfirst := value?_encode hv (Nat.le_max_left v.depth w.depth) x
  have hsecond := value?_encode hw (Nat.le_max_right v.depth w.depth) y
  rw [h, hsecond] at hfirst
  obtain ⟨rfl, rfl⟩ := Prod.mk.inj (Option.some.inj hfirst)
  exact ⟨rfl, rfl⟩

/-- Encodings need nothing between them. -/
theorem flatMap_encode_inj {vs ws : List Value} (hvs : ∀ v ∈ vs, Encodable v)
    (hws : ∀ w ∈ ws, Encodable w) (h : vs.flatMap encode = ws.flatMap encode) : vs = ws := by
  have hne (v : Value) (hv : Encodable v) (rest : List UInt8) : encode v ++ rest ≠ [] :=
    List.append_ne_nil_of_left_ne_nil (encode_ne_nil hv) rest
  exact (Text.flatMap_append_inj (fun v hv w hw _ _ => encode_append_inj (hvs v hv) (hws w hw))
    (fun w hw => hne w (hws w hw)) (fun v hv => hne v (hvs v hv)) (congrArg (· ++ []) h)).1

/-! ## Shortest forms -/

/-- The value, its keys and all that is in it are written as a head and a content, and nothing that
is read as that head is shorter. -/
inductive Shortest : Value → Prop
  | intro {v : Value} (parts : encode v = (head v).write ++ content v)
      (read : ∀ rest, head? ((head v).write ++ rest) = some (head v, rest))
      (least : ∀ bytes rest, head? bytes = some (head v, rest) →
        (head v).write.length + rest.length ≤ bytes.length)
      (keys : ∀ k ∈ v.keys, Shortest (.str k)) (inner : ∀ w ∈ v.inner, Shortest w) : Shortest v

theorem shortest_str {s : String} (h : (Text.bytes s.toList).length < 2 ^ 32) :
    Shortest (.str s) :=
  .intro (encode_eq _) (fun _ => head?_write h) (fun _ _ => length_write_le)
    (fun _ hk => nomatch hk) fun _ hw => nomatch hw

theorem shortest_of_encodable {v : Value} (h : Encodable v) : Shortest v := by
  induction h with
  | @intro v hhead hkeys _ ih =>
    exact .intro (encode_eq v) (fun _ => head?_write hhead) (fun _ _ => length_write_le)
      (fun k hk => shortest_str (hkeys k hk)) ih

end MessagePack

end ConfigTree
