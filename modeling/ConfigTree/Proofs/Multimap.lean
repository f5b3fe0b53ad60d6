import ConfigTree.Multimap

/-! What the operations of a multimap do to its keys, to the values it holds and to what a key
finds. No operation makes a key stand twice, leaves a repeated key with less than two values or
brings in a value that was neither there nor given. -/

universe u

namespace ConfigTree

variable {α : Type u}

namespace Member

variable {m : Member α} {a : α}

theorem mem_values_of_first? (h : m.first? = some a) : a ∈ m.values := List.mem_of_head? h

@[simp] theorem first?_single (a : α) : (single a).first? = some a := rfl

@[simp] theorem first?_setFirst (m : Member α) (a : α) : (m.setFirst a).first? = some a := by
  cases m <;> rfl

/-- Every value changed. -/
def map {β : Type u} (f : α → β) : Member α → Member β
  | single a => single (f a)
  | repeated as => repeated (as.map f)

theorem values_map {β : Type u} (f : α → β) (m : Member α) : (m.map f).values = m.values.map f := by
  cases m <;> rfl

theorem map_push {β : Type u} (f : α → β) (m : Member α) (a : α) :
    (m.push a).map f = (m.map f).push (f a) := by
  rw [push, push, map, values_map, List.map_append, List.map_singleton]

@[simp] theorem isRepeated_setFirst (m : Member α) (a : α) :
    (m.setFirst a).isRepeated = m.isRepeated := by
  cases m <;> rfl

@[simp] theorem setFirst_setFirst (m : Member α) (a b : α) :
    (m.setFirst a).setFirst b = m.setFirst b := by
  cases m <;> rfl

theorem setFirst_eq_self (h : m.first? = some a) : m.setFirst a = m := by
  cases m with
  | single b =>
    cases h
    rfl
  | repeated as =>
    obtain ⟨bs, rfl⟩ := List.head?_eq_some_iff.1 h
    rfl

/-- A repeated key has two values or more. -/
def IsSound (m : Member α) : Prop := m.isRepeated = true → 2 ≤ m.values.length

instance (m : Member α) : Decidable m.IsSound :=
  inferInstanceAs (Decidable (m.isRepeated = true → 2 ≤ m.values.length))

theorem isSound_single (a : α) : (single a).IsSound := by
  intro h
  cases h

theorem IsSound.isRepeated_iff (h : m.IsSound) : m.isRepeated = true ↔ 2 ≤ m.values.length := by
  refine ⟨h, fun htwo => ?_⟩
  cases m with
  | single a => cases Nat.not_succ_le_self 1 htwo
  | repeated as => rfl

theorem IsSound.length_pos (h : m.IsSound) : 0 < m.values.length := by
  cases m with
  | single a => exact Nat.one_pos
  | repeated as => exact Nat.lt_of_lt_of_le Nat.two_pos (h rfl)

/-- A lookup of the key sees a value. -/
theorem IsSound.exists_first? (h : m.IsSound) : ∃ a, m.first? = some a := by
  have hpos := h.length_pos
  rw [first?]
  cases hv : m.values with
  | nil =>
    rw [hv] at hpos
    cases hpos
  | cons a as => exact ⟨a, rfl⟩

theorem IsSound.push (h : m.IsSound) (a : α) : (m.push a).IsSound := by
  intro _
  have hpos := h.length_pos
  rw [values_push, List.length_append, List.length_singleton]
  omega

theorem foldl_push_repeated (as bs : List α) :
    bs.foldl push (repeated as) = repeated (as ++ bs) := by
  induction bs generalizing as with
  | nil => rw [List.append_nil]; rfl
  | cons b bs ih => rw [List.foldl_cons, push, values_repeated, ih, List.append_assoc]; rfl

/-- A member is its first value with the others pushed behind. -/
theorem IsSound.exists_foldl_push (h : m.IsSound) :
    ∃ a as, m.values = a :: as ∧ as.foldl Member.push (single a) = m := by
  cases m with
  | single a => exact ⟨a, [], rfl, rfl⟩
  | repeated as =>
    match as, h rfl with
    | a :: b :: as, _ => exact ⟨a, b :: as, rfl, foldl_push_repeated [a, b] as⟩

theorem IsSound.setFirst (h : m.IsSound) (a : α) : (m.setFirst a).IsSound := by
  cases m with
  | single b => exact isSound_single a
  | repeated as =>
    intro _
    have htwo : 2 ≤ as.length := h rfl
    rw [values_setFirst, List.length_cons, rest, List.length_tail, values_repeated]
    omega

end Member

namespace Multimap

/-- Every value, key by key. -/
def values (o : Multimap α) : List α := o.entries.flatMap (·.2.values)

theorem mem_values_iff {o : Multimap α} {a : α} :
    a ∈ o.values ↔ ∃ e ∈ o.entries, a ∈ e.2.values := List.mem_flatMap

theorem mem_values_of_mem {o : Multimap α} {e : String × Member α} (he : e ∈ o.entries) {a : α}
    (ha : a ∈ e.2.values) : a ∈ o.values := mem_values_iff.2 ⟨e, he, ha⟩

theorem mem_values_of_mem_toPairs {o : Multimap α} {p : String × α} (h : p ∈ o.toPairs) :
    p.2 ∈ o.values := by
  obtain ⟨e, he, hp⟩ := List.mem_flatMap.1 h
  obtain ⟨a, ha, rfl⟩ := List.mem_map.1 hp
  exact mem_values_of_mem he ha

@[simp] theorem values_empty : (∅ : Multimap α).values = [] := rfl

instance (o : Multimap α) : Decidable o.KeysDistinct := inferInstanceAs (Decidable (List.Nodup _))

@[simp] theorem keysDistinct_empty : (∅ : Multimap α).KeysDistinct := List.nodup_nil

theorem mem_of_lookup_eq_some {es : List (String × Member α)} {key : String} {m : Member α}
    (h : es.lookup key = some m) : (key, m) ∈ es := by
  induction es with
  | nil => cases h
  | cons e es ih =>
    obtain ⟨k, m'⟩ := e
    by_cases hk : key = k
    · subst hk
      rw [List.lookup_cons_self] at h
      cases h
      exact List.mem_cons_self
    · have hk' : (key == k) = false := by simpa using hk
      rw [List.lookup_cons, hk'] at h
      exact List.mem_cons_of_mem _ (ih h)

theorem lookup_eq_some_of_mem {es : List (String × Member α)} (h : (es.map Prod.fst).Nodup)
    {e : String × Member α} (he : e ∈ es) : es.lookup e.1 = some e.2 := by
  induction es with
  | nil => cases he
  | cons e' es ih =>
    obtain ⟨hnew, hrest⟩ := List.nodup_cons.1 h
    rcases List.mem_cons.1 he with rfl | he
    · exact List.lookup_cons_self
    · have hne : (e.1 == e'.1) = false := by
        rw [beq_eq_false_iff_ne]
        intro hk
        exact hnew (hk ▸ List.mem_map_of_mem he)
      rw [List.lookup_cons, hne]
      exact ih hrest he

theorem mem_of_member?_eq_some {o : Multimap α} {key : String} {m : Member α}
    (h : o.member? key = some m) : (key, m) ∈ o.entries := mem_of_lookup_eq_some h

theorem mem_values_of_get? {o : Multimap α} {key : String} {a : α} (h : o.get? key = some a) :
    a ∈ o.values := by
  obtain ⟨m, hm, ha⟩ := Option.bind_eq_some_iff.1 h
  exact mem_values_of_mem (mem_of_member?_eq_some hm) (Member.mem_values_of_first? ha)

/-! ## Keys -/

theorem map_fst_adjust (key : String) (change : Member α → Member α)
    (es : List (String × Member α)) :
    (modify.adjust key change es).map Prod.fst = es.map Prod.fst := by
  induction es with
  | nil => rfl
  | cons e es ih =>
    by_cases h : e.1 = key
    · simp [modify.adjust, h]
    · simp [modify.adjust, h, ih]

@[simp] theorem keys_modify (o : Multimap α) (key : String) (change : Member α → Member α) :
    (o.modify key change).keys = o.keys := map_fst_adjust ..

theorem KeysDistinct.insert {o : Multimap α} (h : o.KeysDistinct) (key : String) (a : α) :
    (o.insert key a).KeysDistinct := by
  rw [KeysDistinct, keys_insert]
  split
  · exact h
  · next hk => exact List.nodup_append.2 ⟨h, by simp, by rintro x hx y hy rfl; simp_all⟩

theorem KeysDistinct.push {o : Multimap α} (h : o.KeysDistinct) (key : String) (a : α) :
    (o.push key a).KeysDistinct := by
  rw [KeysDistinct, keys_push, ← keys_insert o key a]
  exact h.insert key a

theorem KeysDistinct.modify {o : Multimap α} (h : o.KeysDistinct) (key : String)
    (change : Member α → Member α) : (o.modify key change).KeysDistinct := by
  rwa [KeysDistinct, keys_modify]

theorem KeysDistinct.erase {o : Multimap α} (h : o.KeysDistinct) (key : String) :
    (o.erase key).KeysDistinct :=
  List.Nodup.sublist (List.eraseP_sublist.map Prod.fst) h

/-! ## Entries -/

/-- Where the key is there, changing or inserting is changing; otherwise it is appending. -/
theorem upsert_eq (change : Member α → Member α) (fresh : Member α) (key : String)
    (es : List (String × Member α)) :
    upsert change fresh key es =
      if key ∈ es.map Prod.fst then modify.adjust key change es else es ++ [(key, fresh)] := by
  induction es with
  | nil => rfl
  | cons e es ih =>
    by_cases h : e.1 = key
    · simp [upsert, modify.adjust, h]
    · have h' : ¬ key = e.1 := fun he => h he.symm
      rw [upsert, if_neg h, ih, modify.adjust, if_neg h]
      by_cases hm : key ∈ es.map Prod.fst <;> simp_all

theorem mem_adjust {key : String} {change : Member α → Member α} {es : List (String × Member α)}
    {e : String × Member α} (h : e ∈ modify.adjust key change es) :
    e ∈ es ∨ ∃ m, (key, m) ∈ es ∧ e = (key, change m) := by
  induction es with
  | nil => exact .inl h
  | cons e' es ih =>
    obtain ⟨k, m⟩ := e'
    by_cases hk : k = key
    · subst hk
      rw [modify.adjust, if_pos rfl] at h
      rcases List.mem_cons.1 h with rfl | h
      · exact .inr ⟨m, List.mem_cons_self, rfl⟩
      · exact .inl (List.mem_cons_of_mem _ h)
    · rw [modify.adjust, if_neg hk] at h
      rcases List.mem_cons.1 h with rfl | h
      · exact .inl List.mem_cons_self
      · rcases ih h with h | ⟨m', hm', rfl⟩
        · exact .inl (List.mem_cons_of_mem _ h)
        · exact .inr ⟨m', List.mem_cons_of_mem _ hm', rfl⟩

theorem mem_upsert {change : Member α → Member α} {fresh : Member α} {key : String}
    {es : List (String × Member α)} {e : String × Member α} (h : e ∈ upsert change fresh key es) :
    e ∈ es ∨ e = (key, fresh) ∨ ∃ m, (key, m) ∈ es ∧ e = (key, change m) := by
  rw [upsert_eq] at h
  split at h
  · rcases mem_adjust h with h | h
    · exact .inl h
    · exact .inr (.inr h)
  · rcases List.mem_append.1 h with h | h
    · exact .inl h
    · exact .inr (.inl (List.mem_singleton.1 h))

/-! ## Finding a key -/

theorem lookup_eq_none_iff {β : Type u} {key : String} {es : List (String × β)} :
    es.lookup key = none ↔ key ∉ es.map Prod.fst := by
  simp only [List.lookup_eq_none_iff, List.mem_map, bne_iff_ne]
  exact ⟨fun h ⟨e, he, hk⟩ => h e he hk.symm, fun h e he hk => h ⟨e, he, hk.symm⟩⟩

theorem lookup_adjust (key key' : String) (change : Member α → Member α)
    (es : List (String × Member α)) :
    (modify.adjust key change es).lookup key' =
      if key' = key then (es.lookup key).map change else es.lookup key' := by
  induction es with
  | nil => simp [modify.adjust]
  | cons e es ih =>
    obtain ⟨k, m⟩ := e
    by_cases hk : k = key
    · subst hk
      by_cases hk' : key' = k
      · simp [modify.adjust, hk']
      · have h' : (key' == k) = false := by simpa using hk'
        simp [modify.adjust, List.lookup_cons, hk', h']
    · have hk' : (key == k) = false := by simpa using Ne.symm hk
      rw [modify.adjust, if_neg hk, List.lookup_cons, List.lookup_cons, List.lookup_cons, hk', ih]
      by_cases h : key' = k
      · have hne : ¬ key' = key := fun he => hk (h.symm.trans he)
        simp [h, hk]
      · have h' : (key' == k) = false := by simpa using h
        simp [h']

theorem lookup_map {β γ : Type u} (f : String → β → γ) (key : String) (es : List (String × β)) :
    (es.map fun e => (e.1, f e.1 e.2)).lookup key = (es.lookup key).map (f key) := by
  induction es with
  | nil => rfl
  | cons e es ih =>
    obtain ⟨k, m⟩ := e
    by_cases hk : key = k
    · subst hk
      simp only [List.map_cons, List.lookup_cons_self, Option.map_some]
    · have hk' : (key == k) = false := by simpa using hk
      rw [List.map_cons, List.lookup_cons, List.lookup_cons, hk', ih]

theorem adjust_congr {key : String} {change change' : Member α → Member α}
    {es : List (String × Member α)} (h : ∀ m, es.lookup key = some m → change m = change' m) :
    modify.adjust key change es = modify.adjust key change' es := by
  induction es with
  | nil => rfl
  | cons e es ih =>
    obtain ⟨k, m⟩ := e
    by_cases hk : k = key
    · subst hk
      rw [modify.adjust, modify.adjust, if_pos rfl, if_pos rfl, h m List.lookup_cons_self]
    · have hk' : (key == k) = false := by simpa using Ne.symm hk
      rw [modify.adjust, modify.adjust, if_neg hk, if_neg hk,
        ih fun m hm => h m (by rw [List.lookup_cons, hk']; exact hm)]

theorem adjust_id (key : String) (es : List (String × Member α)) :
    modify.adjust key id es = es := by
  induction es with
  | nil => rfl
  | cons e es ih => simp [modify.adjust, ih]

theorem adjust_eq_self {key : String} {change : Member α → Member α}
    {es : List (String × Member α)} (h : ∀ m, es.lookup key = some m → change m = m) :
    modify.adjust key change es = es := by
  have hid : modify.adjust key change es = modify.adjust key id es := adjust_congr h
  rw [hid, adjust_id]

theorem adjust_adjust_self (key : String) (change change' : Member α → Member α)
    (es : List (String × Member α)) :
    modify.adjust key change' (modify.adjust key change es) =
      modify.adjust key (change' ∘ change) es := by
  induction es with
  | nil => rfl
  | cons e es ih => by_cases h : e.1 = key <;> simp [modify.adjust, h, ih]

theorem adjust_comm {key key' : String} (h : key ≠ key') (change change' : Member α → Member α)
    (es : List (String × Member α)) :
    modify.adjust key change (modify.adjust key' change' es) =
      modify.adjust key' change' (modify.adjust key change es) := by
  induction es with
  | nil => rfl
  | cons e es ih =>
    by_cases hk : e.1 = key
    · have hk' : e.1 ≠ key' := fun he => h (hk.symm.trans he)
      simp [modify.adjust, hk, h]
    · by_cases hk' : e.1 = key' <;> simp [modify.adjust, hk, hk', h.symm, ih]

theorem adjust_eq_map {key : String} {es : List (String × Member α)}
    (h : (es.map Prod.fst).Nodup) (change : Member α → Member α) :
    modify.adjust key change es = es.map fun e => (e.1, if e.1 = key then change e.2 else e.2) := by
  induction es with
  | nil => rfl
  | cons e es ih =>
    obtain ⟨k, m⟩ := e
    obtain ⟨hnew, hrest⟩ := List.nodup_cons.1 h
    rw [modify.adjust, List.map_cons, ih hrest]
    by_cases hk : k = key
    · subst hk
      have hothers : ∀ e ∈ es, (e.1, if e.1 = k then change e.2 else e.2) = e := by
        intro e he
        have hmem : e.1 ∈ es.map Prod.fst := List.mem_map_of_mem he
        have hne : e.1 ≠ k := fun heq => hnew (heq ▸ hmem)
        rw [if_neg hne]
      rw [if_pos rfl, if_pos rfl, List.map_congr_left hothers, List.map_id']
    · rw [if_neg hk, if_neg hk]

theorem upsert_congr {key : String} {change change' : Member α → Member α} (fresh : Member α)
    {es : List (String × Member α)} (h : ∀ m, es.lookup key = some m → change m = change' m) :
    upsert change fresh key es = upsert change' fresh key es := by
  rw [upsert_eq, upsert_eq, adjust_congr h]

theorem upsert_upsert_self (key : String) (change change' : Member α → Member α)
    (fresh fresh' : Member α) (es : List (String × Member α)) :
    upsert change' fresh' key (upsert change fresh key es) =
      upsert (change' ∘ change) (change' fresh) key es := by
  induction es with
  | nil => simp [upsert]
  | cons e es ih => by_cases h : e.1 = key <;> simp [upsert, h, ih]

theorem modify_congr {o : Multimap α} {key : String} {change change' : Member α → Member α}
    (h : ∀ m, o.member? key = some m → change m = change' m) :
    o.modify key change = o.modify key change' := congrArg Multimap.mk (adjust_congr h)

theorem modify_modify_self (o : Multimap α) (key : String) (change change' : Member α → Member α) :
    (o.modify key change).modify key change' = o.modify key (change' ∘ change) :=
  congrArg Multimap.mk (adjust_adjust_self ..)

theorem modify_comm {key key' : String} (h : key ≠ key') (o : Multimap α)
    (change change' : Member α → Member α) :
    (o.modify key' change').modify key change = (o.modify key change).modify key' change' :=
  congrArg Multimap.mk (adjust_comm h ..)

theorem insert_of_mem {o : Multimap α} {key : String} (h : key ∈ o.keys) (a : α) :
    o.insert key a = o.modify key fun _ => .single a := by
  have hkey : key ∈ o.entries.map Prod.fst := h
  rw [insert, upsert_eq, if_pos hkey, modify]

@[simp] theorem get?_setFirst_self {o : Multimap α} {key : String} {a b : α}
    (h : o.get? key = some a) : (o.setFirst key b).get? key = some b := by
  obtain ⟨m, hm, -⟩ := Option.bind_eq_some_iff.1 h
  have hm' : o.entries.lookup key = some m := hm
  simp [get?, member?, setFirst, modify, lookup_adjust, hm']

theorem setFirst_eq_self {o : Multimap α} {key : String} {a : α} (h : o.get? key = some a) :
    o.setFirst key a = o := by
  obtain ⟨m, hm, ha⟩ := Option.bind_eq_some_iff.1 h
  obtain ⟨es⟩ := o
  refine congrArg Multimap.mk (adjust_eq_self fun m' hm' => ?_)
  obtain rfl : m = m' := Option.some.inj (hm.symm.trans hm')
  exact Member.setFirst_eq_self ha

theorem member?_insert_self (o : Multimap α) (key : String) (a : α) :
    (o.insert key a).member? key = some (.single a) := by
  rw [member?, insert]
  simp only
  rw [upsert_eq]
  split
  · next h =>
    obtain ⟨m, hm⟩ := Option.ne_none_iff_exists'.1 (mt lookup_eq_none_iff.1 (not_not_intro h))
    simp [lookup_adjust, hm]
  · next h => simp [List.lookup_append, lookup_eq_none_iff.2 h]

@[simp] theorem get?_insert_self (o : Multimap α) (key : String) (a : α) :
    (o.insert key a).get? key = some a := by
  rw [get?, member?_insert_self, Option.bind_some, Member.first?_single]

theorem member?_modify_self (o : Multimap α) (key : String) (change : Member α → Member α) :
    (o.modify key change).member? key = (o.member? key).map change := by
  simp [member?, modify, lookup_adjust]

theorem member?_modify_of_ne {key key' : String} (h : key' ≠ key) (o : Multimap α)
    (change : Member α → Member α) : (o.modify key change).member? key' = o.member? key' := by
  simp [member?, modify, lookup_adjust, h]

/-- A value that is chained onto a key does not hide the first. -/
theorem get?_modify_push {o : Multimap α} {key : String} {a : α} (h : o.get? key = some a) (b : α) :
    (o.modify key (·.push b)).get? key = some a := by
  obtain ⟨m, hm, hfirst⟩ := Option.bind_eq_some_iff.1 h
  rw [get?, member?_modify_self, hm, Option.map_some, Option.bind_some, Member.first?,
    Member.values_push, List.head?_append]
  rw [Member.first?] at hfirst
  rw [hfirst, Option.some_or]

theorem member?_insert_of_ne {key key' : String} (h : key' ≠ key) (o : Multimap α) (a : α) :
    (o.insert key a).member? key' = o.member? key' := by
  have hkey : (key' == key) = false := by simpa using h
  rw [member?, insert]
  simp only
  rw [upsert_eq]
  split
  · simp [lookup_adjust, h, member?]
  · simp [List.lookup_append, List.lookup_cons, hkey, member?]

theorem keys_erase (o : Multimap α) (key : String) : (o.erase key).keys = o.keys.erase key := by
  obtain ⟨es⟩ := o
  induction es with
  | nil => rfl
  | cons e es ih =>
    by_cases h : e.1 = key
    · simp [erase, keys, h]
    · simpa [erase, keys, h] using ih

theorem member?_erase_of_ne {key key' : String} (h : key' ≠ key) (o : Multimap α) :
    (o.erase key).member? key' = o.member? key' := by
  have hkey : (key' == key) = false := by simpa using h
  obtain ⟨es⟩ := o
  simp only [erase, member?]
  induction es with
  | nil => rfl
  | cons e es ih =>
    obtain ⟨k, m⟩ := e
    by_cases hk : k = key
    · simp [hk, List.lookup_cons, hkey]
    · simp [hk, List.lookup_cons, ih]

theorem mem_keys_of_get? {o : Multimap α} {key : String} {a : α} (h : o.get? key = some a) :
    key ∈ o.keys := by
  obtain ⟨m, hm, -⟩ := Option.bind_eq_some_iff.1 h
  exact List.mem_map_of_mem (mem_of_member?_eq_some hm)

/-! ## Values -/

/-- A change of a member that brings in no value but `a`. -/
def Adds (a : α) (change : Member α → Member α) : Prop :=
  ∀ m, ∀ b ∈ (change m).values, b = a ∨ b ∈ m.values

theorem adds_single (a : α) : Adds a fun _ => .single a := by
  intro m b hb
  exact .inl (by simpa using hb)

theorem adds_push (a : α) : Adds a (·.push a) := by
  intro m b hb
  simpa [or_comm] using hb

theorem adds_setFirst (a : α) : Adds a (·.setFirst a) := by
  intro m b hb
  rw [Member.values_setFirst] at hb
  rcases List.mem_cons.1 hb with rfl | hb
  · exact .inl rfl
  · exact .inr (List.mem_of_mem_tail hb)

theorem mem_values_modify {o : Multimap α} {key : String} {change : Member α → Member α} {a b : α}
    (ha : Adds a change) (h : b ∈ (o.modify key change).values) : b = a ∨ b ∈ o.values := by
  obtain ⟨e, he, hb⟩ := mem_values_iff.1 h
  rcases mem_adjust he with he | ⟨m, hm, rfl⟩
  · exact .inr (mem_values_of_mem he hb)
  · exact (ha m b hb).imp_right (mem_values_of_mem hm)

theorem mem_values_upsert {o : Multimap α} {key : String} {change : Member α → Member α} {a b : α}
    (ha : Adds a change)
    (h : b ∈ (Multimap.mk (upsert change (.single a) key o.entries)).values) :
    b = a ∨ b ∈ o.values := by
  obtain ⟨e, he, hb⟩ := mem_values_iff.1 h
  rcases mem_upsert he with he | rfl | ⟨m, hm, rfl⟩
  · exact .inr (mem_values_of_mem he hb)
  · exact .inl (by simpa using hb)
  · exact (ha m b hb).imp_right (mem_values_of_mem hm)

theorem mem_values_insert {o : Multimap α} {key : String} {a b : α}
    (h : b ∈ (o.insert key a).values) : b = a ∨ b ∈ o.values := mem_values_upsert (adds_single a) h

theorem mem_values_push {o : Multimap α} {key : String} {a b : α}
    (h : b ∈ (o.push key a).values) : b = a ∨ b ∈ o.values := mem_values_upsert (adds_push a) h

theorem mem_values_setFirst {o : Multimap α} {key : String} {a b : α}
    (h : b ∈ (o.setFirst key a).values) : b = a ∨ b ∈ o.values :=
  mem_values_modify (adds_setFirst a) h

theorem mem_values_erase {o : Multimap α} {key : String} {b : α}
    (h : b ∈ (o.erase key).values) : b ∈ o.values := by
  obtain ⟨e, he, hb⟩ := mem_values_iff.1 h
  exact mem_values_of_mem (List.mem_of_mem_eraseP he) hb

/-! ## Soundness -/

/-- No key stands twice, and a repeated key has two values or more. -/
structure Sound (o : Multimap α) : Prop where
  keysDistinct : o.KeysDistinct
  members : ∀ e ∈ o.entries, e.2.IsSound

instance (o : Multimap α) : Decidable o.Sound :=
  decidable_of_iff (o.KeysDistinct ∧ ∀ e ∈ o.entries, e.2.IsSound)
    ⟨fun h => ⟨h.1, h.2⟩, fun h => ⟨h.1, h.2⟩⟩

theorem sound_empty : (∅ : Multimap α).Sound where
  keysDistinct := keysDistinct_empty
  members := by
    intro e he
    cases he

section

variable {o : Multimap α} {change : Member α → Member α}

theorem Sound.modify (h : o.Sound) (hc : ∀ m, m.IsSound → (change m).IsSound) (key : String) :
    (o.modify key change).Sound := by
  refine ⟨h.keysDistinct.modify key change, fun e he => ?_⟩
  rcases mem_adjust he with he | ⟨m, hm, rfl⟩
  · exact h.members e he
  · exact hc m (h.members (key, m) hm)

theorem Sound.isSound_of_mem_upsert (h : o.Sound) (hc : ∀ m, m.IsSound → (change m).IsSound)
    {key : String} {a : α} {e : String × Member α}
    (he : e ∈ upsert change (.single a) key o.entries) : e.2.IsSound := by
  rcases mem_upsert he with he | rfl | ⟨m, hm, rfl⟩
  · exact h.members e he
  · exact Member.isSound_single a
  · exact hc m (h.members (key, m) hm)

theorem Sound.insert (h : o.Sound) (key : String) (a : α) : (o.insert key a).Sound :=
  ⟨h.keysDistinct.insert key a,
    fun _ => h.isSound_of_mem_upsert fun _ _ => Member.isSound_single a⟩

theorem Sound.push (h : o.Sound) (key : String) (a : α) : (o.push key a).Sound :=
  ⟨h.keysDistinct.push key a, fun _ => h.isSound_of_mem_upsert fun _ hm => hm.push a⟩

theorem Sound.setFirst (h : o.Sound) (key : String) (a : α) : (o.setFirst key a).Sound :=
  h.modify (fun _ hm => hm.setFirst a) key

theorem Sound.erase (h : o.Sound) (key : String) : (o.erase key).Sound :=
  ⟨h.keysDistinct.erase key, fun e he => h.members e (List.mem_of_mem_eraseP he)⟩

end

/-! ## Gathering pairs -/

theorem sound_ofPairs (pairs : List (String × α)) : (ofPairs pairs).Sound :=
  List.foldlRecOn pairs _ sound_empty fun _ h p _ => h.push p.1 p.2

theorem sound_ofLatest (pairs : List (String × α)) : (ofLatest pairs).Sound :=
  List.foldlRecOn pairs _ sound_empty fun _ h p _ => h.insert p.1 p.2

/-- Gathering pairs in a way that brings in no other value than theirs. -/
theorem mem_values_foldl {gather : Multimap α → String × α → Multimap α}
    (hg : ∀ o p b, b ∈ (gather o p).values → b = p.2 ∨ b ∈ o.values)
    {pairs : List (String × α)} {a : α} (h : a ∈ (pairs.foldl gather ∅).values) :
    ∃ p ∈ pairs, p.2 = a := by
  refine List.foldlRecOn (motive := fun o => a ∈ values o → ∃ p ∈ pairs, p.2 = a) pairs gather
    (by simp) (fun o ih p hp h => ?_) h
  rcases hg o p a h with rfl | h
  · exact ⟨p, hp, rfl⟩
  · exact ih h

/-- Gathering pairs in a way that appends what is new leaves pairs with distinct keys as they are.
-/
theorem foldl_eq_of_nodup {gather : Multimap α → String × α → Multimap α}
    (hg : ∀ o p, p.1 ∉ o.keys → gather o p = ⟨o.entries ++ [(p.1, .single p.2)]⟩)
    (pairs : List (String × α)) (o : Multimap α) (h : (o.keys ++ pairs.map Prod.fst).Nodup) :
    pairs.foldl gather o = ⟨o.entries ++ pairs.map fun p => (p.1, .single p.2)⟩ := by
  induction pairs generalizing o with
  | nil => simp
  | cons p ps ih =>
    have hp : p.1 ∉ o.keys := by
      intro hmem
      exact (List.nodup_append.1 h).2.2 p.1 hmem p.1 (by simp) rfl
    rw [List.foldl_cons, hg o p hp, ih]
    · simp
    · simpa [keys] using h

theorem upsert_of_not_mem {change : Member α → Member α} {fresh : Member α} {key : String}
    {es : List (String × Member α)} (h : key ∉ es.map Prod.fst) :
    upsert change fresh key es = es ++ [(key, fresh)] := by
  rw [upsert_eq, if_neg h]

theorem ofPairs_of_nodup {pairs : List (String × α)} (h : (pairs.map Prod.fst).Nodup) :
    ofPairs pairs = ⟨pairs.map fun p => (p.1, .single p.2)⟩ :=
  foldl_eq_of_nodup (fun _ _ hp => congrArg Multimap.mk (upsert_of_not_mem hp)) pairs ∅ h

theorem ofLatest_of_nodup {pairs : List (String × α)} (h : (pairs.map Prod.fst).Nodup) :
    ofLatest pairs = ⟨pairs.map fun p => (p.1, .single p.2)⟩ :=
  foldl_eq_of_nodup (fun _ _ hp => congrArg Multimap.mk (upsert_of_not_mem hp)) pairs ∅ h

theorem push_concat {key : String} {es : List (String × Member α)} (h : key ∉ es.map Prod.fst)
    (m : Member α) (a : α) :
    (Multimap.mk (es ++ [(key, m)])).push key a = ⟨es ++ [(key, m.push a)]⟩ := by
  refine congrArg Multimap.mk ?_
  induction es with
  | nil => exact if_pos rfl
  | cons e es ih =>
    rw [List.map_cons, List.mem_cons, not_or] at h
    rw [List.cons_append, upsert, if_neg (Ne.symm h.1), ih h.2, List.cons_append]

theorem foldl_push_concat {key : String} {es : List (String × Member α)}
    (h : key ∉ es.map Prod.fst) (m : Member α) (as : List α) :
    (as.map (key, ·)).foldl (fun o p => push o p.1 p.2) (Multimap.mk (es ++ [(key, m)])) =
      ⟨es ++ [(key, as.foldl Member.push m)]⟩ := by
  induction as generalizing m with
  | nil => rfl
  | cons a as ih => rw [List.map_cons, List.foldl_cons, push_concat h, ih, List.foldl_cons]

/-- Gathering the pairs of entries brings the entries back. -/
theorem foldl_push_flatMap {es : List (String × Member α)} (h : ∀ e ∈ es, e.2.IsSound)
    (o : Multimap α) (hkeys : (o.keys ++ es.map Prod.fst).Nodup) :
    (es.flatMap fun e => e.2.values.map (e.1, ·)).foldl (fun o p => o.push p.1 p.2) o =
      ⟨o.entries ++ es⟩ := by
  induction es generalizing o with
  | nil => rw [List.append_nil]; rfl
  | cons e es ih =>
    obtain ⟨key, m⟩ := e
    have hnew : key ∉ o.entries.map Prod.fst := fun hmem =>
      (List.nodup_append.1 hkeys).2.2 key hmem key List.mem_cons_self rfl
    have hsound : m.IsSound := h (key, m) List.mem_cons_self
    obtain ⟨a, as, hvalues, hm⟩ := hsound.exists_foldl_push
    have hfirst : o.push key a = ⟨o.entries ++ [(key, .single a)]⟩ :=
      congrArg Multimap.mk (upsert_of_not_mem hnew)
    rw [List.flatMap_cons, List.foldl_append, hvalues, List.map_cons, List.foldl_cons, hfirst,
      foldl_push_concat hnew, hm, ih fun e he => h e (List.mem_cons_of_mem _ he)]
    · rw [List.append_assoc, List.singleton_append]
    · simpa [keys] using hkeys

theorem Sound.ofPairs_toPairs {o : Multimap α} (h : o.Sound) : ofPairs o.toPairs = o :=
  foldl_push_flatMap h.members ∅ h.keysDistinct

theorem Sound.eq_of_toPairs_eq {o o' : Multimap α} (h : o.Sound) (h' : o'.Sound)
    (hpairs : o.toPairs = o'.toPairs) : o = o' := by
  rw [← h.ofPairs_toPairs, hpairs, h'.ofPairs_toPairs]

theorem mem_values_ofPairs {pairs : List (String × α)} {a : α} (h : a ∈ (ofPairs pairs).values) :
    ∃ p ∈ pairs, p.2 = a := mem_values_foldl (fun _ _ _ => mem_values_push) h

theorem mem_values_ofLatest {pairs : List (String × α)} {a : α}
    (h : a ∈ (ofLatest pairs).values) : ∃ p ∈ pairs, p.2 = a :=
  mem_values_foldl (fun _ _ _ => mem_values_insert) h

/-- Where the last value wins no key is repeated. -/
theorem isRepeated_of_mem_ofLatest {pairs : List (String × α)} :
    ∀ e ∈ (ofLatest pairs).entries, e.2.isRepeated = false := by
  refine List.foldlRecOn (motive := fun o => ∀ e ∈ entries o, e.2.isRepeated = false) pairs _
    nofun fun o ih p _ e he => ?_
  rcases mem_upsert he with he | rfl | ⟨m, -, rfl⟩
  · exact ih e he
  · rfl
  · rfl

/-! ## Changing every value -/

/-- Changing every member, in a way that goes together with the change of one. -/
theorem map_upsert {β : Type u} {g : Member α → Member β} {change : Member α → Member α}
    {change' : Member β → Member β} (h : ∀ m, g (change m) = change' (g m)) (fresh : Member α)
    (key : String) (es : List (String × Member α)) :
    (upsert change fresh key es).map (fun e => (e.1, g e.2)) =
      upsert change' (g fresh) key (es.map fun e => (e.1, g e.2)) := by
  induction es with
  | nil => rfl
  | cons e es ih =>
    by_cases hk : e.1 = key
    · simp [upsert, hk, h]
    · simp [upsert, hk, ih]

section

variable {β : Type u} (f : α → β)

/-- Every value changed, under the same keys. -/
def map (o : Multimap α) : Multimap β := ⟨o.entries.map fun e => (e.1, e.2.map f)⟩

theorem values_map (o : Multimap α) : (o.map f).values = o.values.map f := by
  simp [values, map, List.flatMap_map, List.map_flatMap, Member.values_map]

theorem map_push (o : Multimap α) (key : String) (a : α) :
    (o.push key a).map f = (o.map f).push key (f a) :=
  congrArg Multimap.mk (map_upsert (fun m => Member.map_push f m a) _ key o.entries)

theorem map_insert (o : Multimap α) (key : String) (a : α) :
    (o.insert key a).map f = (o.map f).insert key (f a) :=
  congrArg Multimap.mk (map_upsert (g := Member.map f) (fun _ => rfl) _ key o.entries)

/-- Gathering pairs in a way that does not look at their values. -/
theorem map_foldl {gather : Multimap α → String × α → Multimap α}
    {gather' : Multimap β → String × β → Multimap β}
    (hg : ∀ o p, (gather o p).map f = gather' (o.map f) (p.1, f p.2)) (pairs : List (String × α))
    (o : Multimap α) :
    (pairs.foldl gather o).map f = (pairs.map fun p => (p.1, f p.2)).foldl gather' (o.map f) := by
  induction pairs generalizing o with
  | nil => rfl
  | cons p ps ih => rw [List.foldl_cons, ih, hg, List.map_cons, List.foldl_cons]

theorem map_ofPairs (pairs : List (String × α)) :
    (ofPairs pairs).map f = ofPairs (pairs.map fun p => (p.1, f p.2)) :=
  map_foldl f (fun o p => map_push f o p.1 p.2) pairs ∅

theorem map_ofLatest (pairs : List (String × α)) :
    (ofLatest pairs).map f = ofLatest (pairs.map fun p => (p.1, f p.2)) :=
  map_foldl f (fun o p => map_insert f o p.1 p.2) pairs ∅

end

end Multimap

end ConfigTree
