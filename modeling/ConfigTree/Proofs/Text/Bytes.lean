import ConfigTree.Text.Bytes

/-! The bytes of a text give the text back, and end in a newline only if the text does.  Texts in a
row, of characters or of bytes, can be told apart if what follows them can. -/

namespace ConfigTree.Text

theorem bytes_eq_utf8Encode (s : List Char) : (⟨(bytes s).toArray⟩ : ByteArray) = s.utf8Encode :=
  ByteArray.ext List.data_toByteArray.symm

theorem length_bytes (s : String) : (bytes s.toList).length = s.utf8ByteSize := by
  calc
    (bytes s.toList).length = (⟨(bytes s.toList).toArray⟩ : ByteArray).size := rfl
    _ = s.toByteArray.size := by rw [bytes_eq_utf8Encode, String.utf8Encode_toList]
    _ = s.utf8ByteSize := rfl

theorem ofBytes?_bytes (s : List Char) : ofBytes? (bytes s) = some (String.ofList s) := by
  rw [ofBytes?, bytes_eq_utf8Encode, String.fromUTF8?, dif_pos ByteArray.isValidUTF8_utf8Encode]
  rfl

theorem bytes_injective {s t : List Char} (h : bytes s = bytes t) : s = t := by
  have hs := ofBytes?_bytes s
  rw [h, ofBytes?_bytes] at hs
  exact (String.ofList_injective (Option.some.inj hs)).symm

theorem eq_newline_of_getLast? {c : Char} (h : (String.utf8EncodeChar c).getLast? = some 10) :
    c = '\n' := by
  have hlast (n : Nat) : UInt8.ofNat (n % 0x40 + 0x80) ≠ 10 := by
    intro he
    have := congrArg UInt8.toNat he
    rw [UInt8.toNat_ofNat'] at this
    simp only [UInt8.reduceToNat] at this
    omega
  unfold String.utf8EncodeChar at h
  simp only at h
  split at h
  · next hc =>
    have hbyte : UInt8.ofNat c.val.toNat = 10 := Option.some.inj h
    have hsmall : c.toNat ≤ 0x7f := hc
    have hn : c.toNat = 10 := by
      have := congrArg UInt8.toNat hbyte
      rw [UInt8.toNat_ofNat'] at this
      simp only [UInt8.reduceToNat] at this
      exact (Nat.mod_eq_of_lt (by omega)).symm.trans this
    exact Char.toNat_inj.1 hn
  · split at h
    · exact absurd (Option.some.inj h) (hlast _)
    · split at h <;> exact absurd (Option.some.inj h) (hlast _)

theorem getLast?_of_getLast?_bytes {s : List Char} (h : (bytes s).getLast? = some 10) :
    s.getLast? = some '\n' := by
  rcases s.eq_nil_or_concat with rfl | ⟨t, c, rfl⟩
  · cases h
  · have hbytes : bytes [c] = String.utf8EncodeChar c := List.flatMap_singleton ..
    rw [List.concat_eq_append, bytes_append, hbytes, List.getLast?_append,
      Option.or_eq_some_iff] at h
    rcases h with h | ⟨h, -⟩
    · rw [eq_newline_of_getLast? h, List.concat_eq_append, List.getLast?_concat]
    · simp at h

/-! ## Texts in a row -/

/-- Texts in a row can be told apart if each can, as long as none starts like what follows
them. -/
theorem flatMap_append_inj {α β : Type} {f : α → List β} {as bs : List α} {x y : List β}
    (hf : ∀ a ∈ as, ∀ b ∈ bs, ∀ x y, f a ++ x = f b ++ y → a = b ∧ x = y)
    (hx : ∀ b ∈ bs, ∀ z, f b ++ z ≠ x) (hy : ∀ a ∈ as, ∀ z, f a ++ z ≠ y)
    (h : as.flatMap f ++ x = bs.flatMap f ++ y) : as = bs ∧ x = y := by
  induction as generalizing bs with
  | nil =>
    cases bs with
    | nil => exact ⟨rfl, h⟩
    | cons b bs =>
      rw [List.flatMap_cons, List.append_assoc] at h
      exact absurd h.symm (hx b List.mem_cons_self _)
  | cons a as ih =>
    cases bs with
    | nil =>
      rw [List.flatMap_cons, List.append_assoc] at h
      exact absurd h (hy a List.mem_cons_self _)
    | cons b bs =>
      rw [List.flatMap_cons, List.flatMap_cons, List.append_assoc, List.append_assoc] at h
      obtain ⟨rfl, hrest⟩ := hf a List.mem_cons_self b List.mem_cons_self _ _ h
      obtain ⟨rfl, hend⟩ := ih
        (fun a ha b hb => hf a (List.mem_cons_of_mem _ ha) b (List.mem_cons_of_mem _ hb))
        (fun b hb => hx b (List.mem_cons_of_mem _ hb))
        (fun a ha => hy a (List.mem_cons_of_mem _ ha)) hrest
      exact ⟨rfl, hend⟩

end ConfigTree.Text
