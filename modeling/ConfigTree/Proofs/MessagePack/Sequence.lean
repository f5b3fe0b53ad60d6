import ConfigTree.Proofs.MessagePack.Reader

/-! Values in a row.  Bytes are read as one sequence of values at most, since every value takes a byte
or more and the first bytes settle it.  What can be read has a form for each of its lengths, so that
the values are read back from their encodings in a row just where all of them can be encoded. -/

namespace ConfigTree

theorem Text.bytes_of_ofBytes? {b : List UInt8} {s : String} (h : ofBytes? b = some s) :
    bytes s.toList = b := by
  unfold ofBytes? String.fromUTF8? at h
  split at h
  · cases h
    have hbytes := bytes_eq_utf8Encode (String.fromUTF8 ⟨b.toArray⟩ ‹_›).toList
    rw [String.utf8Encode_toList] at hbytes
    exact Array.toList_inj.2 (ByteArray.mk.inj hbytes)
  · cases h

namespace MessagePack

/-! ## What is read -/

section

variable {bytes rest : List UInt8} {head : Head}

theorem fits_of_wideForm? {first count n : Nat} {head : Nat → Head}
    (hform : Head.wideForm? first = some (count, head)) (h : n < 256 ^ count) : (head n).Fits := by
  have hsigned (m : Nat) (hm : 0 < m) (hle : m ≤ 2 ^ 64) : (Head.int (Int.bmod n m)).Fits := by
    have hlow := Int.le_bmod (x := n) hm
    have hhigh := Int.bmod_lt (x := n) hm
    exact ⟨by omega, by omega⟩
  unfold Head.wideForm? at hform
  split at hform <;> cases hform
  case h_1 | h_2 | h_3 => trivial
  case h_4 => exact h
  case h_5 | h_6 | h_7 | h_8 => exact ⟨by omega, by omega⟩
  case h_9 | h_10 | h_11 | h_12 => exact hsigned _ (by decide) (by decide)
  case h_13 | h_14 | h_15 | h_16 | h_17 | h_18 | h_19 =>
    simp only [Head.Fits]
    omega

theorem fits_of_form? {first count n : Nat} {head : Nat → Head} (hfirst : first < 2 ^ 8)
    (hform : Head.form? first = some (count, head)) (h : n < 256 ^ count) : (head n).Fits := by
  unfold Head.form? at hform
  split_ifs at hform
  · cases hform
    exact ⟨by omega, by omega⟩
  · cases hform
    simp only [Head.Fits]
    omega
  · cases hform
    simp only [Head.Fits]
    omega
  · cases hform
    simp only [Head.Fits]
    omega
  · exact fits_of_wideForm? hform h
  · cases hform
    exact ⟨by omega, by omega⟩

theorem head?_spec (h : head? bytes = some (head, rest)) :
    head.Fits ∧ rest.length < bytes.length := by
  obtain ⟨first, count, make, n, hfirst, hform, hlt, rfl, hlength⟩ := exists_of_head? h
  exact ⟨fits_of_form? hfirst hform hlt, by omega⟩

theorem text?_spec {length : Nat} {s : String} (h : text? length bytes = some (s, rest)) :
    (Text.bytes s.toList).length = length ∧ rest.length ≤ bytes.length := by
  unfold text? at h
  split at h
  · next hle =>
    obtain ⟨s', hs', heq⟩ := Option.map_eq_some_iff.1 h
    cases heq
    rw [Text.bytes_of_ofBytes? hs', List.length_take, List.length_drop]
    omega
  · cases h

theorem key?_spec {k : String} (h : key? bytes = some (k, rest)) :
    (Text.bytes k.toList).length < 2 ^ 32 ∧ rest.length < bytes.length := by
  obtain ⟨⟨head, middle⟩, hhead, htext⟩ := Option.bind_eq_some_iff.1 h
  obtain ⟨hfits, hlt⟩ := head?_spec hhead
  cases head with
  | str length =>
    obtain ⟨rfl, hle⟩ := text?_spec htext
    exact ⟨hfits, by omega⟩
  | _ => cases htext

theorem leaf?_spec {v : Value} (hfits : head.Fits) (h : leaf? bytes head = some (v, rest)) :
    Encodable v ∧ rest.length ≤ bytes.length := by
  cases head with
  | null | bool b =>
    cases h
    exact ⟨encodable_of_leaf trivial rfl rfl, Nat.le_refl _⟩
  | int n =>
    rw [leaf?] at h
    split at h
    · cases h
      have hlt := (Int64.ofInt n).toInt_lt
      exact ⟨encodable_of_leaf ⟨(Int64.ofInt n).le_toInt, by omega⟩ rfl rfl, Nat.le_refl _⟩
    · cases h
  | float bits =>
    cases h
    exact ⟨encodable_of_leaf (UInt64.toNat_lt _) rfl rfl, Nat.le_refl _⟩
  | str length =>
    obtain ⟨⟨s, rest'⟩, htext, heq⟩ := Option.map_eq_some_iff.1 h
    cases heq
    obtain ⟨rfl, hle⟩ := text?_spec htext
    exact ⟨encodable_of_leaf hfits rfl rfl, hle⟩
  | seq length | map length => cases h

end

/-! ## Many -/

section

variable {α : Type} {read read' : List UInt8 → Option (α × List UInt8)} {count : Nat}
  {bytes rest : List UInt8} {as bs : List α}

theorem many_succ_iff : many read (count + 1) bytes = some (as, rest) ↔
    ∃ a middle as', read bytes = some (a, middle) ∧ many read count middle = some (as', rest) ∧
      as = a :: as' := by
  rw [many]
  constructor
  · intro h
    obtain ⟨⟨a, middle⟩, ha, h⟩ := Option.bind_eq_some_iff.1 h
    obtain ⟨⟨as', rest'⟩, has, heq⟩ := Option.map_eq_some_iff.1 h
    cases heq
    exact ⟨a, middle, as', ha, has, rfl⟩
  · rintro ⟨a, middle, as', ha, has, rfl⟩
    simp [ha, has]

theorem many_mono (h : ∀ bytes r, read bytes = some r → read' bytes = some r)
    (hmany : many read count bytes = some (as, rest)) :
    many read' count bytes = some (as, rest) := by
  induction count generalizing bytes as with
  | zero => exact hmany
  | succ count ih =>
    obtain ⟨a, middle, as', ha, has, rfl⟩ := many_succ_iff.1 hmany
    exact many_succ_iff.2 ⟨a, middle, as', h _ _ ha, ih has, rfl⟩

theorem many_spec {p : α → Prop}
    (h : ∀ bytes a rest, read bytes = some (a, rest) → p a ∧ rest.length < bytes.length)
    (hmany : many read count bytes = some (as, rest)) :
    as.length = count ∧ (∀ a ∈ as, p a) ∧ rest.length ≤ bytes.length := by
  induction count generalizing bytes as with
  | zero =>
    cases hmany
    exact ⟨rfl, nofun, Nat.le_refl _⟩
  | succ count ih =>
    obtain ⟨a, middle, as', ha, has, rfl⟩ := many_succ_iff.1 hmany
    obtain ⟨hlength, hall, hle⟩ := ih has
    obtain ⟨hp, hlt⟩ := h _ _ _ ha
    exact ⟨congrArg (· + 1) hlength, List.forall_mem_cons.2 ⟨hp, hall⟩, by omega⟩

/-- What is read up to the end is not read up to the end with fewer readings or more. -/
theorem many_unique (h : ∀ a rest, read [] ≠ some (a, rest)) {count' : Nat}
    (has : many read count bytes = some (as, [])) (hbs : many read count' bytes = some (bs, [])) :
    as = bs := by
  induction count generalizing bytes as bs count' with
  | zero =>
    cases has
    cases count' with
    | zero =>
      cases hbs
      rfl
    | succ count' =>
      obtain ⟨b, middle, -, hb, -⟩ := many_succ_iff.1 hbs
      exact absurd hb (h b middle)
  | succ count ih =>
    obtain ⟨a, middle, as', ha, has', rfl⟩ := many_succ_iff.1 has
    cases count' with
    | zero =>
      cases hbs
      exact absurd ha (h a middle)
    | succ count' =>
      obtain ⟨b, middle', bs', hb, hbs', rfl⟩ := many_succ_iff.1 hbs
      rw [ha] at hb
      cases hb
      rw [ih has' hbs']

end

/-! ## Values -/

section

variable {limit : Nat} {bytes rest : List UInt8} {v : Value}

/-- A value is a head with nothing below it, or a head and as many values as it tells of. -/
theorem value?_cases (h : value? limit bytes = some (v, rest)) :
    ∃ head middle, head? bytes = some (head, middle) ∧ (leaf? middle head = some (v, rest) ∨
      ∃ k, limit = k + 1 ∧
        ((∃ length vs, head = .seq length ∧ v = .seq vs ∧
          many (value? k) length middle = some (vs, rest)) ∨
        ∃ length ps, head = .map length ∧ v = .map ps ∧
          many (pair? (value? k)) length middle = some (ps, rest))) := by
  cases limit with
  | zero =>
    obtain ⟨⟨head, middle⟩, hhead, hleaf⟩ := Option.bind_eq_some_iff.1 h
    exact ⟨head, middle, hhead, .inl hleaf⟩
  | succ k =>
    obtain ⟨⟨head, middle⟩, hhead, h⟩ := Option.bind_eq_some_iff.1 h
    refine ⟨head, middle, hhead, ?_⟩
    cases head with
    | seq length =>
      obtain ⟨⟨vs, rest'⟩, hvs, heq⟩ := Option.map_eq_some_iff.1 h
      cases heq
      exact .inr ⟨k, rfl, .inl ⟨length, vs, rfl, rfl, hvs⟩⟩
    | map length =>
      obtain ⟨⟨ps, rest'⟩, hps, heq⟩ := Option.map_eq_some_iff.1 h
      cases heq
      exact .inr ⟨k, rfl, .inr ⟨length, ps, rfl, rfl, hps⟩⟩
    | _ => exact .inl h

theorem pair?_eq_some_iff {read : List UInt8 → Option (Value × List UInt8)}
    {p : String × Value} : pair? read bytes = some (p, rest) ↔
      ∃ middle, key? bytes = some (p.1, middle) ∧ read middle = some (p.2, rest) := by
  rw [pair?]
  constructor
  · intro h
    obtain ⟨⟨k, middle⟩, hk, h⟩ := Option.bind_eq_some_iff.1 h
    obtain ⟨⟨v, rest'⟩, hv, heq⟩ := Option.map_eq_some_iff.1 h
    cases heq
    exact ⟨middle, hk, hv⟩
  · rintro ⟨middle, hk, hv⟩
    simp [hk, hv]

/-- What is read has forms for its lengths, and takes a byte or more. -/
theorem value?_spec (h : value? limit bytes = some (v, rest)) :
    Encodable v ∧ rest.length < bytes.length := by
  induction limit generalizing bytes v rest with
  | zero =>
    obtain ⟨head, middle, hhead, hleaf | ⟨k, hk, -⟩⟩ := value?_cases h
    · obtain ⟨hfits, hlt⟩ := head?_spec hhead
      obtain ⟨hv, hle⟩ := leaf?_spec hfits hleaf
      exact ⟨hv, by omega⟩
    · cases hk
  | succ limit ih =>
    obtain ⟨head, middle, hhead, hv⟩ := value?_cases h
    obtain ⟨hfits, hlt⟩ := head?_spec hhead
    rcases hv with hleaf | ⟨k, hk, ⟨length, vs, rfl, rfl, hvs⟩ | ⟨length, ps, rfl, rfl, hps⟩⟩
    · obtain ⟨hv, hle⟩ := leaf?_spec hfits hleaf
      exact ⟨hv, by omega⟩
    · cases hk
      obtain ⟨rfl, hall, hle⟩ := many_spec (fun _ _ _ => ih) hvs
      exact ⟨encodable_seq hfits hall, by omega⟩
    · cases hk
      obtain ⟨rfl, hall, hle⟩ := many_spec
        (p := fun p => (Text.bytes p.1.toList).length < 2 ^ 32 ∧ Encodable p.2)
        (fun bytes p rest hp => by
          obtain ⟨middle, hkey, hvalue⟩ := pair?_eq_some_iff.1 hp
          obtain ⟨hk, hlt⟩ := key?_spec hkey
          obtain ⟨hv, hlt'⟩ := ih hvalue
          exact ⟨⟨hk, hv⟩, by omega⟩) hps
      exact ⟨encodable_map hfits (fun p hp => (hall p hp).1) fun p hp => (hall p hp).2, by omega⟩

theorem value?_mono {limit' : Nat} (hle : limit ≤ limit')
    (h : value? limit bytes = some (v, rest)) : value? limit' bytes = some (v, rest) := by
  induction limit generalizing limit' bytes v rest with
  | zero =>
    obtain ⟨head, middle, hhead, hleaf | ⟨k, hk, -⟩⟩ := value?_cases h
    · exact value?_of_leaf? hhead hleaf
    · cases hk
  | succ limit ih =>
    obtain ⟨head, middle, hhead, hv⟩ := value?_cases h
    obtain ⟨limit', rfl⟩ : ∃ k, limit' = k + 1 := ⟨limit' - 1, by omega⟩
    have hread (bytes : List UInt8) (r : Value × List UInt8) (hr : value? limit bytes = some r) :
        value? limit' bytes = some r := ih (by omega) hr
    rcases hv with hleaf | ⟨k, hk, ⟨length, vs, rfl, rfl, hvs⟩ | ⟨length, ps, rfl, rfl, hps⟩⟩
    · exact value?_of_leaf? hhead hleaf
    · cases hk
      rw [value?, hhead, Option.bind_some]
      simp only [many_mono hread hvs, Option.map_some]
    · cases hk
      have hpair (bytes : List UInt8) (r : (String × Value) × List UInt8)
          (hr : pair? (value? limit) bytes = some r) : pair? (value? limit') bytes = some r := by
        obtain ⟨middle, hkey, hvalue⟩ := pair?_eq_some_iff.1 hr
        exact pair?_eq_some_iff.2 ⟨middle, hkey, hread _ _ hvalue⟩
      rw [value?, hhead, Option.bind_some]
      simp only [many_mono hpair hps, Option.map_some]

end

/-! ## Sequences -/

/-- The bytes are the values one after the other, and nothing else. -/
def Reads (bytes : List UInt8) (vs : List Value) : Prop :=
  ∃ limit, many (value? limit) vs.length bytes = some (vs, [])

section

variable {bytes : List UInt8} {vs ws : List Value}

theorem Reads.unique (hvs : Reads bytes vs) (hws : Reads bytes ws) : vs = ws := by
  obtain ⟨limit, hvs⟩ := hvs
  obtain ⟨limit', hws⟩ := hws
  have hvs := many_mono (fun _ _ => value?_mono (Nat.le_max_left limit limit')) hvs
  have hws := many_mono (fun _ _ => value?_mono (Nat.le_max_right limit limit')) hws
  refine many_unique (fun v rest h => ?_) hvs hws
  exact absurd (value?_spec h).2 (Nat.not_lt_zero _)

theorem Reads.encodable (h : Reads bytes vs) : ∀ v ∈ vs, Encodable v := by
  obtain ⟨limit, hvs⟩ := h
  exact (many_spec (fun _ _ _ => value?_spec) hvs).2.1

theorem depth_le_depthItems {v : Value} (h : v ∈ vs) : v.depth ≤ Value.depthItems vs := by
  have hlt := Value.depth_lt_of_mem_inner (v := .seq vs) h
  rw [Value.depth] at hlt
  omega

theorem reads_flatMap (h : ∀ v ∈ vs, Encodable v) : Reads (vs.flatMap encode) vs := by
  refine ⟨Value.depthItems vs, ?_⟩
  rw [← List.append_nil (vs.flatMap encode)]
  exact many_flatMap (fun v hv => value?_encode (h v hv) (depth_le_depthItems hv)) []

end

end MessagePack

end ConfigTree
