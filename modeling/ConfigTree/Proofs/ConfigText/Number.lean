import ConfigTree.Proofs.Binary64.Side
import ConfigTree.Proofs.ConfigText
import ConfigTree.Proofs.Node.Context
import ConfigTree.Proofs.Text.Numeral

/-! Numbers in config text.  Wherever a scalar stands in a tree, its text stands by itself there, and
what is around it does not depend on it.  The text of a floating-point number has a point below
1e16.  From there on it is that of a whole number, and below 2^63 that of a 64-bit integer, so that
the two are not told apart. -/

namespace ConfigTree

namespace ConfigText

open Binary64 (Decimal)
open Node (Context)

/-! ## Places -/

/-- The text has that of the scalar in it, with the same text around each. -/
def Surrounds (text : Node → List Char) : Prop :=
  ∃ before after, ∀ n : Node, n.isCompound = false → text n = before ++ scalar n ++ after

section

variable {f g : Node → List Char} {place : Context}

theorem Surrounds.of_eq (h : Surrounds f) (x y : List Char)
    (hg : ∀ n : Node, n.isCompound = false → g n = x ++ f n ++ y) : Surrounds g := by
  obtain ⟨before, after, hf⟩ := h
  refine ⟨x ++ before, after ++ y, fun n hn => ?_⟩
  rw [hg n hn, hf n hn]
  simp only [List.append_assoc]

theorem surrounds_assigned {level : Nat} (h : Surrounds fun n => value level (place.fill n)) :
    Surrounds fun n => assigned level (place.fill n) := by
  have hcompound (n : Node) (hn : n.isCompound = false) :
      (place.fill n).isCompound = (place.fill .null).isCompound := place.isCompound_fill hn
  cases hnull : (place.fill .null).isCompound with
  | true =>
    refine h.of_eq [] ['\n'] fun n hn => ?_
    rw [assigned, hcompound n hn, hnull, if_pos rfl, List.nil_append]
  | false =>
    refine h.of_eq ['=', ' '] [';', '\n'] fun n hn => ?_
    rw [assigned, hcompound n hn, hnull, if_neg Bool.false_ne_true]
    simp

theorem surrounds_pairs {level : Nat} (h : Surrounds fun n => value level (place.fill n))
    (key : String) (before after : List (String × Node)) :
    Surrounds fun n => (before ++ (key, place.fill n) :: after).flatMap (memberText level) := by
  refine (surrounds_assigned h).of_eq
    (before.flatMap (memberText level) ++ (indent level ++ (ConfigText.key key ++ [' '])))
    (after.flatMap (memberText level)) fun n _ => ?_
  simp [memberText]

theorem toPairs_fill_single (before : List (String × Member Node)) (key : String)
    (after : List (String × Member Node)) (n : Node) :
    (Multimap.mk (before ++ (key, .single (place.fill n)) :: after)).toPairs =
      (Multimap.mk before).toPairs ++ (key, place.fill n) :: (Multimap.mk after).toPairs := by
  simp [Multimap.toPairs]

theorem toPairs_fill_repeated (before : List (String × Member Node)) (key : String)
    (earlier later : List Node) (after : List (String × Member Node)) (n : Node) :
    (Multimap.mk (before ++ (key, .repeated (earlier ++ place.fill n :: later)) :: after)).toPairs =
      ((Multimap.mk before).toPairs ++ earlier.map (key, ·)) ++ (key, place.fill n) ::
        (later.map (key, ·) ++ (Multimap.mk after).toPairs) := by
  simp [Multimap.toPairs]

theorem surrounds_value_object {o : Node → Multimap Node} {level : Nat}
    (h : Surrounds fun n => (o n).toPairs.flatMap (memberText (level + 1))) :
    Surrounds fun n => value level (.object (o n)) := by
  refine h.of_eq ['{', '\n'] (indent level ++ ['}']) fun n _ => ?_
  rw [← List.append_nil (value _ _), value_object_append]
  simp

theorem surrounds_value (place : Context) (level : Nat) :
    Surrounds fun n => value level (place.fill n) := by
  induction place generalizing level with
  | hole =>
    refine ⟨[], [], fun n hn => (value_of_scalar hn level).trans ?_⟩
    rw [List.nil_append, List.append_nil]
  | item before place after ih =>
    refine (ih (level + 1)).of_eq
      ('[' :: '\n' :: (before.flatMap (itemText (level + 1)) ++ indent (level + 1)))
      (',' :: '\n' :: (after.flatMap (itemText (level + 1)) ++ (indent level ++ [']'])))
      fun n _ => ?_
    rw [Context.fill, ← List.append_nil (value _ _), value_array_append level (by simp)]
    simp [itemText]
  | single before key place after ih =>
    refine surrounds_value_object ?_
    simp only [toPairs_fill_single]
    exact surrounds_pairs (ih (level + 1)) ..
  | repeated before key earlier place later after ih =>
    refine surrounds_value_object ?_
    simp only [toPairs_fill_repeated]
    exact surrounds_pairs (ih (level + 1)) ..

theorem surrounds_print (place : Context) : Surrounds fun n => (print (place.fill n)).toList := by
  have hvalue {c : Context} (h : ∀ n : Node, n.isCompound = false → (c.fill n).kind ≠ .object) :
      Surrounds fun n => (print (c.fill n)).toList := by
    refine (surrounds_value c 0).of_eq [] ['\n'] fun n hn => ?_
    rw [print_of_kind_ne (h n hn), String.toList_ofList, List.nil_append]
  cases place with
  | hole =>
    refine hvalue fun n hn hkind => ?_
    rw [Context.fill] at hkind
    rw [Node.isCompound, hkind] at hn
    cases hn
  | item before place after =>
    refine hvalue fun n hn hkind => ?_
    cases hkind
  | single before key place after =>
    simp only [Context.fill, print_object, String.toList_ofList, toPairs_fill_single]
    exact surrounds_pairs (surrounds_value place 0) ..
  | repeated before key earlier place later after =>
    simp only [Context.fill, print_object, String.toList_ofList, toPairs_fill_repeated]
    exact surrounds_pairs (surrounds_value place 0) ..

theorem print_fill_eq_iff (place : Context) {n m : Node} (hn : n.isCompound = false)
    (hm : m.isCompound = false) :
    print (place.fill n) = print (place.fill m) ↔ scalar n = scalar m := by
  obtain ⟨before, after, h⟩ := surrounds_print place
  simp only at h
  rw [← String.toList_inj, h n hn, h m hm, List.append_cancel_right_eq, List.append_cancel_left_eq]

end

/-! ## Floating-point numbers -/

section

variable {d : Decimal}

theorem isPositional_numberStyle (leading : Int) : numberStyle.isPositional leading = true := rfl

/-- A decimal that is not a whole number has a point in it, and so has one of at most 16 digits. -/
theorem point_mem_layout (hzero : d.digits = 0 → d.exponent = 0) (h : d.value < 10 ^ 16) :
    '.' ∈ d.layout numberStyle := by
  obtain ⟨n, e⟩ := d
  unfold Decimal.layout
  simp only [isPositional_numberStyle, if_true]
  split
  · next he =>
    obtain ⟨k, rfl⟩ := Int.eq_ofNat_of_zero_le he
    have hlength : (Text.ofNat n).length + k ≤ 16 := by
      rcases Nat.eq_zero_or_pos n with rfl | hn
      · have hk : (k : Int) = 0 := hzero rfl
        rw [Text.ofNat, Nat.toDigits_zero, List.length_singleton]
        omega
      · rw [Decimal.value, zpow_natCast] at h
        have hlt : n * 10 ^ k < 10 ^ 16 := by exact_mod_cast h
        have hle := Text.length_ofNat_le (by decide) hlt
        rwa [Text.ofNat_mul_pow hn, List.length_append, List.length_replicate] at hle
    have hbelow : ((Text.ofNat n).length : Int) + k - 1 < numberStyle.pointBelow :=
      show _ < (16 : Int) by omega
    simp [hbelow]
  · split <;> simp

theorem layout_of_le_value (hexponent : 0 ≤ d.exponent) (h : 10 ^ 16 ≤ d.value) :
    d.layout numberStyle = Text.ofNat (d.digits * 10 ^ d.exponent.toNat) := by
  obtain ⟨n, e⟩ := d
  obtain ⟨k, rfl⟩ := Int.eq_ofNat_of_zero_le hexponent
  rw [Decimal.value, zpow_natCast] at h
  have hle : 10 ^ 16 ≤ n * 10 ^ k := by exact_mod_cast h
  have hn : 0 < n := Nat.pos_of_ne_zero fun hn => by simp [hn] at hle
  have hlength : 16 < (Text.ofNat n).length + k := by
    have hlt := hle.trans_lt (Text.pow_length_ofNat _).1
    rw [Text.ofNat_mul_pow hn, List.length_append, List.length_replicate] at hlt
    exact (Nat.pow_lt_pow_iff_right (by decide)).1 hlt
  have habove : ¬ ((Text.ofNat n).length : Int) + k - 1 < numberStyle.pointBelow :=
    show ¬ _ < (16 : Int) by omega
  unfold Decimal.layout
  simp only [isPositional_numberStyle, if_true, if_pos hexponent, if_neg habove, Int.toNat_natCast,
    List.append_nil]
  exact (Text.ofNat_mul_pow hn k).symm

end

section

variable {x : Binary64}

theorem point_mem_scalar (hfinite : x.isFinite = true) (h : x.magnitude < 10 ^ 16) :
    '.' ∈ scalar (.float x) := by
  rw [scalar, Binary64.format_of_isFinite hfinite]
  refine List.mem_append_right _ (point_mem_layout (fun hzero => ?_) (Binary64.value_lt_ten_pow h))
  by_cases hx : x.significand = 0
  · rw [Binary64.shortest, if_pos hx]
  · exact absurd hzero (Binary64.shortest_spec hx).1.digits_ne_zero

/-- The text of a large number is that of a whole number, which need not be the number itself. -/
theorem exists_scalar_eq_ofInt (hfinite : x.isFinite = true) (h : 10 ^ 16 ≤ x.magnitude) :
    ∃ n : Nat, 0 < n ∧ (n : ℚ) = x.shortest.value ∧
      scalar (.float x) = Text.ofInt (if x.isNegative then -n else n) := by
  have hexponent := Binary64.exponent_shortest_nonneg h
  have hle := Binary64.ten_pow_le_value h
  have hvalue : ((x.shortest.digits * 10 ^ x.shortest.exponent.toNat : Nat) : ℚ) =
      x.shortest.value := by
    rw [Decimal.value, ← Int.toNat_of_nonneg hexponent, zpow_natCast, Int.toNat_natCast]
    push_cast
    rfl
  have hpos : 0 < x.shortest.digits * 10 ^ x.shortest.exponent.toNat := by
    rw [← Nat.cast_pos (α := ℚ), hvalue]
    exact lt_of_lt_of_le (by norm_num) hle
  refine ⟨_, hpos, hvalue, ?_⟩
  rw [Text.ofInt_signed hpos, scalar, Binary64.format_of_isFinite hfinite,
    layout_of_le_value hexponent hle]

theorem exists_scalar_int_eq_iff (hfinite : x.isFinite = true) :
    (∃ i : Int64, scalar (.float x) = scalar (.int i)) ↔
      10 ^ 16 ≤ x.magnitude ∧ x.magnitude < 2 ^ 63 := by
  constructor
  · rintro ⟨i, hi⟩
    have hle : 10 ^ 16 ≤ x.magnitude := by
      refine not_lt.1 fun hlt => ?_
      have hpoint := point_mem_scalar hfinite hlt
      rw [hi] at hpoint
      exact Text.not_mem_ofInt (by decide) _ hpoint
    refine ⟨hle, not_le.1 fun hlarge => ?_⟩
    obtain ⟨n, -, hn, htext⟩ := exists_scalar_eq_ofInt hfinite hle
    have hlt := Binary64.two_pow_lt_value hlarge
    rw [← hn] at hlt
    have hlt : 2 ^ 63 < n := by exact_mod_cast hlt
    have heq := Text.ofInt_injective (htext.symm.trans hi)
    have hlow := i.le_toInt
    have hhigh := i.toInt_lt
    split at heq <;> omega
  · rintro ⟨hle, hlt⟩
    obtain ⟨n, hpos, hn, htext⟩ := exists_scalar_eq_ofInt hfinite hle
    have hlt := Binary64.value_lt_two_pow hlt
    rw [← hn] at hlt
    have hlt : n < 2 ^ 63 := by exact_mod_cast hlt
    have hfits : Text.Fits (if x.isNegative then -n else n) := by
      split <;> exact ⟨by omega, by omega⟩
    exact ⟨_, by rw [htext, scalar, hfits.toInt_ofInt]⟩

/-- A finite floating-point number has a point in its text just below 1e16, wherever it stands in a
tree.  From there on no point and no exponent tells it from an integer, and below 2^63 there is a
64-bit integer with the same text in the same place. -/
theorem float_is_told_from_int_iff (hfinite : x.isFinite = true) (place : Context) :
    (∃ before after, ∀ n : Node, n.isCompound = false →
      (print (place.fill n)).toList = before ++ scalar n ++ after) ∧
    (('.' ∈ scalar (.float x) ∨ 'e' ∈ scalar (.float x)) ↔ x.magnitude < 10 ^ 16) ∧
    ((∀ i : Int64, print (place.fill (.float x)) ≠ print (place.fill (.int i))) ↔
      x.magnitude < 10 ^ 16 ∨ 2 ^ 63 ≤ x.magnitude) := by
  refine ⟨surrounds_print place, ⟨fun h => ?_, fun h => .inl (point_mem_scalar hfinite h)⟩, ?_⟩
  · refine not_le.1 fun hle => ?_
    obtain ⟨n, -, -, htext⟩ := exists_scalar_eq_ofInt hfinite hle
    rw [htext] at h
    exact h.elim (Text.not_mem_ofInt (by decide) _) (Text.not_mem_ofInt (by decide) _)
  · have hiff := exists_scalar_int_eq_iff hfinite
    simp only [Ne, print_fill_eq_iff place (n := .float x) (m := .int _) rfl rfl]
    rw [← not_exists, hiff, not_and_or, not_le, not_lt]

/-- The largest number below 1e16, in an array under a repeated key. -/
theorem float_is_told_from_int_iff_in_array :
    let place : Context := .repeated [] "a b" [.null] (.item [.int 1] .hole []) [] []
    let x : Binary64 := ⟨0x4341C37937E07FFF⟩
    x.isFinite = true ∧ ('.' ∈ scalar (.float x) ∨ 'e' ∈ scalar (.float x)) ∧
    ∀ i : Int64, print (place.fill (.float x)) ≠ print (place.fill (.int i)) := by
  intro place x
  have hfinite : x.isFinite = true := by decide
  have hlt : x.magnitude < 10 ^ 16 := by
    have hsignificand : x.significand = 5 * 10 ^ 15 - 1 := by decide
    have hexponent : x.exponent = 1 := by decide
    rw [Binary64.magnitude, hsignificand, hexponent]
    norm_num
  obtain ⟨-, hpoint, hdiffer⟩ := float_is_told_from_int_iff hfinite place
  exact ⟨hfinite, hpoint.2 hlt, hdiffer.2 (.inl hlt)⟩

/-- The number 1e16 and the integer have one text, with no point and no exponent in it. -/
theorem float_of_ten_pow_is_written_like_int :
    let x : Binary64 := ⟨0x4341C37937E08000⟩
    x.isFinite = true ∧ print (.float x) = print (.int 10000000000000000) ∧
    '.' ∉ (print (.float x)).toList ∧ 'e' ∉ (print (.float x)).toList :=
  ⟨rfl, rfl, by decide, by decide⟩

end

end ConfigText

end ConfigTree
