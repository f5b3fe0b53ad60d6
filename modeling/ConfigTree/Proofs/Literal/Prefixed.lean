import ConfigTree.Proofs.Literal.Integer

/-! Texts asked for as integers.  A sign, a prefix that tells the radix and digits are read in turn,
but the digits are read with a sign of their own, so that a second sign is taken where it stands
behind a first one or behind a prefix.  Every other text is read as it is signed and spelled, or
refused. -/

namespace ConfigTree.Literal

open Text

/-- Numerals without a sign.  Digits behind a zero are octal wherever they can be. -/
inductive Numeral : List Char → Int → Prop
  | hexadecimal {s : List Char} {n : Int} (h : Hexadecimal s n) : Numeral s n
  | octal {s : List Char} {n : Int} (h : Denotes 8 s n) : Numeral ('0' :: s) n
  | decimal {s : List Char} {n : Int} (h : Denotes 10 s n)
    (hs : ∀ t m, s = '0' :: t → ¬ Denotes 8 t m) : Numeral s n
  | amount {s : List Char} {n : Int} (h : Amount s n) : Numeral s n

/-- What may stand in front of digits, and the radix that it tells. -/
inductive Lead : List Char → Nat → Prop
  | ten : Lead [] 10
  | eight : Lead ['0'] 8
  | sixteen {x : Char} (hx : x = 'x' ∨ x = 'X') : Lead ['0', x] 16

/-- Digits with a sign of their own behind a prefix, or behind a sign and any prefix. -/
inductive SecondSign : List Char → Prop
  | behindPrefix {lead s : List Char} {radix : Nat} {n : Int} (hlead : Lead lead radix)
    (hne : lead ≠ []) (hs : Marked (Denotes radix) s n) (hn : Fits n) : SecondSign (lead ++ s)
  | behindSign {c : Char} {lead s : List Char} {radix : Nat} {n : Int} (hc : c = '-' ∨ c = '+')
    (hlead : Lead lead radix) (hs : Marked (Denotes radix) s n) (hn : Fits n) :
    SecondSign (c :: (lead ++ s))

variable {s t lead : List Char} {n : Int} {i : Int64} {radix : Nat}

/-! ## Signs -/

theorem Numeral.not_mem_sign (h : Numeral s n) : '-' ∉ s ∧ '+' ∉ s := by
  cases h with
  | hexadecimal h => exact h.not_mem_sign
  | octal h => simpa using h.not_mem_sign (by decide)
  | decimal h => exact h.not_mem_sign (by decide)
  | amount h =>
    exact ⟨fun hmem => absurd (h.forall_mem _ hmem) (by decide),
      fun hmem => absurd (h.forall_mem _ hmem) (by decide)⟩

theorem unmarked_numeral : Unmarked Numeral :=
  unmarked_of_not_mem_sign fun _ _ => Numeral.not_mem_sign

/-- A second sign does not stand in front. -/
theorem SecondSign.exists_mem_tail (h : SecondSign s) : ∃ c ∈ s.tail, c = '-' ∨ c = '+' := by
  cases h with
  | behindPrefix _ hne hs =>
    obtain ⟨c, t, rfl, hc⟩ := hs.exists_sign
    rw [List.tail_append_of_ne_nil hne]
    exact ⟨c, List.mem_append_right _ List.mem_cons_self, hc⟩
  | behindSign _ _ hs =>
    obtain ⟨c, t, rfl, hc⟩ := hs.exists_sign
    exact ⟨c, List.mem_append_right _ List.mem_cons_self, hc⟩

theorem SecondSign.not_signed (h : SecondSign s) : ¬ Signed Numeral s n := by
  obtain ⟨c, hmem, hc⟩ := h.exists_mem_tail
  have hnone {t : List Char} {m : Int} (ht : Numeral t m) (hmem : c ∈ t) : False := by
    rcases hc with rfl | rfl
    · exact ht.not_mem_sign.1 hmem
    · exact ht.not_mem_sign.2 hmem
  rintro (hs | ⟨hs | hs⟩)
  · exact hnone hs (List.mem_of_mem_tail hmem)
  · exact hnone hs hmem
  · exact hnone hs hmem

/-! ## Prefixes -/

theorem Lead.le (h : Lead lead radix) : radix ≤ 16 := by
  cases h <;> decide

theorem prefixedInteger?_of_marked (hlead : Lead lead radix) (hs : Marked (Denotes radix) s n)
    (hn : Fits n) : prefixedInteger? (lead ++ s) = some (.ofInt n) := by
  have hword : int64? radix s = some (.ofInt n) := by
    rw [int64?_eq_some_iff hlead.le, hn.toInt_ofInt]
    exact .marked hs
  obtain ⟨c, t, rfl, rfl | rfl⟩ := hs.exists_sign
  all_goals
    rw [← hword]
    rcases hlead with _ | _ | rfl | rfl <;> rfl

theorem numeral_or_marked (hlead : Lead lead radix) (h : int64? radix t = some i)
    (hnumeral : Denotes radix t i.toInt → Numeral (lead ++ t) i.toInt) :
    (Numeral (lead ++ t) i.toInt ∧ 0 ≤ i.toInt) ∨
      ∃ lead' radix' u, Lead lead' radix' ∧ Marked (Denotes radix') u i.toInt ∧
        lead ++ t = lead' ++ u := by
  rcases (int64?_eq_some_iff hlead.le).1 h with h | h
  · exact .inl ⟨hnumeral h, h.nonneg⟩
  · exact .inr ⟨_, _, _, hlead, h, rfl⟩

/-- What is read is a prefix and digits, which have no sign or one of their own. -/
theorem exists_lead_of_prefixedInteger? (h : prefixedInteger? s = some i) :
    (Numeral s i.toInt ∧ 0 ≤ i.toInt) ∨
      ∃ lead radix t, Lead lead radix ∧ Marked (Denotes radix) t i.toInt ∧ s = lead ++ t := by
  unfold prefixedInteger? at h
  split at h
  · exact numeral_or_marked (.sixteen (.inl rfl)) h fun h => .hexadecimal (.mk (.inl rfl) h)
  · exact numeral_or_marked (.sixteen (.inr rfl)) h fun h => .hexadecimal (.mk (.inr rfl) h)
  · exact numeral_or_marked .eight h .octal
  · next hzero =>
    refine numeral_or_marked .ten h fun h => .decimal h ?_
    rintro t m rfl ht
    cases t with
    | nil => exact ht.ne_nil rfl
    | cons c t => exact hzero _ _ rfl

/-! ## Signed numerals and second signs -/

variable {text : String}

theorem integer?_of_secondSign (h : SecondSign (trim text.toList)) :
    ∃ i, integer? text = some i := by
  generalize htext : trim text.toList = s at h
  rw [integer?, htext]
  cases h with
  | behindPrefix hlead hne hs hn =>
    have hword := prefixedInteger?_of_marked hlead hs hn
    rcases hlead with _ | _ | hx
    · exact absurd rfl hne
    · exact ⟨_, hword⟩
    · exact ⟨_, hword⟩
  | behindSign hc hlead hs hn =>
    have hword := prefixedInteger?_of_marked hlead hs hn
    rcases hc with rfl | rfl
    · exact ⟨_, Option.map_eq_some_iff.2 ⟨_, hword, rfl⟩⟩
    · exact ⟨_, hword⟩

theorem signed_or_secondSign (h : integer? text = some i) :
    Signed Numeral (trim text.toList) i.toInt ∨ SecondSign (trim text.toList) := by
  unfold integer? at h
  split at h
  · next t ht =>
    obtain ⟨j, hj, rfl⟩ := Option.map_eq_some_iff.1 h
    rw [ht]
    rcases exists_lead_of_prefixedInteger? hj with ⟨h, hnonneg⟩ | ⟨lead, radix, u, hlead, hu, rfl⟩
    · rw [toInt_neg_of_nonneg hnonneg]
      exact .inl (.marked (.minus h))
    · exact .inr (.behindSign (.inl rfl) hlead hu (fits_toInt j))
  · next t ht =>
    rw [ht]
    rcases exists_lead_of_prefixedInteger? h with ⟨h, -⟩ | ⟨lead, radix, u, hlead, hu, rfl⟩
    · exact .inl (.marked (.plus h))
    · exact .inr (.behindSign (.inr rfl) hlead hu (fits_toInt i))
  · next hminus hplus =>
    rcases exists_lead_of_prefixedInteger? h with ⟨h, -⟩ | ⟨lead, radix, u, hlead, hu, hs⟩
    · exact .inl (.bare h)
    · rw [hs]
      refine .inr (.behindPrefix hlead ?_ hu (fits_toInt i))
      rintro rfl
      obtain ⟨c, t, rfl, rfl | rfl⟩ := hu.exists_sign
      · exact hminus _ hs
      · exact hplus _ hs

/-- Digits that can be octal and were not read as octal do not fit a word in decimal either. -/
theorem not_fits_of_octal {k : Int} (h : Denotes 8 t k) (hk : ¬ Fits k)
    (hn : Denotes 10 ('0' :: t) n) : ¬ Fits n ∧ ¬ Fits (-n) := by
  obtain ⟨m, hm, hle, hlast⟩ := h.octal_le_decimal
  rw [← hm.zero_cons.unique (by decide) hn]
  have hnonneg := h.nonneg
  unfold Fits at hk ⊢
  -- A minus sign would help for 2^63 alone, which ends in an eight.
  omega

theorem prefixedInteger?_octal {k : Int} (h : Denotes 8 t k) :
    prefixedInteger? ('0' :: t) = int64? 8 t := by
  cases t with
  | nil => exact absurd rfl h.ne_nil
  | cons c t =>
    have hall := h.forall_mem (p := fun c => c ≠ 'x' ∧ c ≠ 'X') (by decide)
    have hc := hall c List.mem_cons_self
    unfold prefixedInteger?
    split <;> simp_all

theorem numeral_of_decimal (h : Denotes 10 s n) (hn : Fits n ∨ Fits (-n))
    (hnone : prefixedInteger? s = none) : Numeral s n := by
  refine .decimal h ?_
  rintro t k rfl hk
  rw [prefixedInteger?_octal hk] at hnone
  have hlarge : ¬ Fits k := by
    intro hfits
    rw [← hfits.toInt_ofInt] at hk
    rw [(int64?_eq_some_iff (by decide)).2 (.bare hk)] at hnone
    cases hnone
  obtain ⟨hn₁, hn₂⟩ := not_fits_of_octal hk hlarge h
  exact hn.elim hn₁ hn₂

theorem signed_numeral_of_decimal (hnone : integer? text = none)
    (h : Signed (Denotes 10) (trim text.toList) i.toInt) :
    Signed Numeral (trim text.toList) i.toInt := by
  have hfits := fits_toInt i
  have hunmarked : Unmarked (Denotes 10) := unmarked_denotes (by decide)
  unfold integer? at hnone
  split at hnone
  · next t ht =>
    rw [ht, hunmarked.signed_minus_iff] at h
    rw [ht, unmarked_numeral.signed_minus_iff]
    refine numeral_of_decimal h (.inr ?_) (Option.map_eq_none_iff.1 hnone)
    rwa [Int.neg_neg]
  · next t ht =>
    rw [ht, hunmarked.signed_plus_iff] at h
    rw [ht, unmarked_numeral.signed_plus_iff]
    exact numeral_of_decimal h (.inl hfits) hnone
  · next hminus hplus =>
    rw [signed_bare_iff hminus hplus] at h ⊢
    exact numeral_of_decimal h (.inl hfits) hnone

theorem signed_numeral_of_parse (hnone : integer? text = none) (h : parse text = .int i) :
    Signed Numeral (trim text.toList) i.toInt := by
  rcases signed_of_parse h with h | ⟨h, -⟩ | h
  · exact signed_numeral_of_decimal hnone h
  · exact h.imp fun _ _ => .hexadecimal
  · exact h.imp fun _ _ => .amount

end ConfigTree.Literal

namespace ConfigTree.Inline

open Text Literal

theorem parseAs_int (text : String) (options : ReadOptions) :
    parseAs .int text options =
      let n := (integer? text).elim (Literal.parse text) .int
      if n.kind = .int then .ok n else .error (.coercion text .int n.kind) := rfl

/-- A text asked for as an integer is a numeral with at most one sign, and is read as what that
denotes, or it is refused, unless it has a second sign: such a text is read. -/
theorem int_is_well_signed_iff (text : String) (options : ReadOptions) :
    ((∃ i, parseAs .int text options = .ok (.int i) ∧
        Signed Numeral (trim text.toList) i.toInt) ∨
      ∃ kind, kind ≠ .int ∧ parseAs .int text options = .error (.coercion text .int kind)) ↔
      ¬ SecondSign (trim text.toList) := by
  rw [parseAs_int]
  constructor
  · intro h hsecond
    obtain ⟨i, hi⟩ := integer?_of_secondSign hsecond
    rw [hi] at h
    rcases h with ⟨j, -, hj⟩ | ⟨kind, -, hkind⟩
    · exact hsecond.not_signed hj
    · cases hkind
  · intro hsecond
    cases hi : integer? text with
    | some i => exact .inl ⟨i, rfl, (signed_or_secondSign hi).resolve_right hsecond⟩
    | none =>
      rw [Option.elim_none]
      cases hn : Literal.parse text with
      | int i => exact .inl ⟨i, rfl, signed_numeral_of_parse hi hn⟩
      | _ => exact .inr ⟨_, Kind.noConfusion, rfl⟩

/-- A second sign is counted: two minus signs cancel. -/
theorem int_with_two_signs_is_read :
    parseAs .int "--5" default = .ok (.int 5) ∧
      ∀ n, ¬ Signed Numeral (trim "--5".toList) n := by
  have hsecond : SecondSign (trim "--5".toList) :=
    .behindSign (.inl rfl) .ten (.minus (.digit (k := 5) ⟨by decide, .inl rfl⟩))
      ⟨by decide, by decide⟩
  exact ⟨rfl, fun _ => hsecond.not_signed⟩

end ConfigTree.Inline
