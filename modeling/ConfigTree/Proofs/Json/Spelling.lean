import ConfigTree.Proofs.Json.Token
import ConfigTree.Proofs.Node.Canonical

/-! The JSON texts a value may be written as: blanks may stand wherever a printer puts them.  Every
such text is read back as its value. -/

namespace ConfigTree.Json

/-- A value, or what follows the first item of an array or the first pair of an object. -/
inductive Form
  | value (v : Value)
  | items (vs : List Value)
  | pairs (ps : List (String × Value))

def Gap (g : List Char) : Prop := ∀ c ∈ g, isBlank c = true

/-- The rest of a key after its opening quote, the colon, and the text after it. -/
def keyText (k : String) (s : List Char) : List Char := k.toList.flatMap escape ++ '"' :: ':' :: s

theorem keyText_append (k : String) (s t : List Char) : keyText k s ++ t = keyText k (s ++ t) := by
  simp [keyText]

theorem key_keyText (k : String) (s : List Char) : key (keyText k s) = .ok (k, s) := by
  rw [keyText, key_quoted, String.ofList_toList]

theorem length_le_length_keyText (k : String) (s : List Char) :
    s.length ≤ (keyText k s).length := by
  simp only [keyText, List.length_append, List.length_cons]
  omega

inductive Spells : Form → List Char → Prop
  | token {v : Value} {s : List Char} (h : IsToken v s) (hv : v.depth = 0) : Spells (.value v) s
  | emptySeq : Spells (.value (.seq [])) ['[', ']']
  | seq {v : Value} {vs : List Value} {g s t : List Char} (hg : Gap g)
      (hs : Spells (.value v) s) (ht : Spells (.items vs) t) :
      Spells (.value (.seq (v :: vs))) ('[' :: (g ++ (s ++ t)))
  | emptyMap : Spells (.value (.map [])) ['{', '}']
  | map {k : String} {v : Value} {ps : List (String × Value)} {g g' s t : List Char} (hg : Gap g)
      (hg' : Gap g') (hs : Spells (.value v) s) (ht : Spells (.pairs ps) t) :
      Spells (.value (.map ((k, v) :: ps))) ('{' :: (g ++ '"' :: keyText k (g' ++ (s ++ t))))
  | noItems {g : List Char} (hg : Gap g) : Spells (.items []) (g ++ [']'])
  | items {v : Value} {vs : List Value} {g s t : List Char} (hg : Gap g)
      (hs : Spells (.value v) s) (ht : Spells (.items vs) t) :
      Spells (.items (v :: vs)) (',' :: (g ++ (s ++ t)))
  | noPairs {g : List Char} (hg : Gap g) : Spells (.pairs []) (g ++ ['}'])
  | pairs {k : String} {v : Value} {ps : List (String × Value)} {g g' s t : List Char} (hg : Gap g)
      (hg' : Gap g') (hs : Spells (.value v) s) (ht : Spells (.pairs ps) t) :
      Spells (.pairs ((k, v) :: ps)) (',' :: (g ++ '"' :: keyText k (g' ++ (s ++ t))))

/-! ## Blanks -/

theorem gap_nil : Gap [] := nofun

theorem Gap.skipBlank_append {g : List Char} (hg : Gap g) (s : List Char) :
    skipBlank (g ++ s) = skipBlank s := List.dropWhile_append_of_pos hg

/-- Blanks in front of a value do not count. -/
theorem Gap.value_append {g : List Char} (hg : Gap g) (fuel levels : Nat) (s : List Char) :
    value (fuel + 1) levels (g ++ s) = value (fuel + 1) levels s := by
  rw [value, value, hg.skipBlank_append]

theorem ends_of_isBlank {c : Char} {s : List Char} (h : isBlank c = true) : Ends (c :: s) := by
  simp only [isBlank, Bool.or_eq_true, beq_iff_eq] at h
  rw [ends_cons_iff]
  rcases h with ((rfl | rfl) | rfl) | rfl <;> decide

theorem Gap.ends_append {g s : List Char} (hg : Gap g) (hs : Ends s) : Ends (g ++ s) := by
  cases g with
  | nil => exact hs
  | cons c g => exact ends_of_isBlank (hg c List.mem_cons_self)

/-! ## First characters -/

theorem Spells.head_value {v : Value} {s : List Char} (h : Spells (.value v) s) :
    ∃ c t, s = c :: t ∧ isBlank c = false ∧ c ≠ ']' := by
  cases h with
  | token h _ => exact h.head
  | emptySeq | seq => exact ⟨'[', _, rfl, by decide⟩
  | emptyMap | map => exact ⟨'{', _, rfl, by decide⟩

/-- No number goes on with what follows an item. -/
theorem Spells.ends_items {vs : List Value} {t rest : List Char} (h : Spells (.items vs) t) :
    Ends (t ++ rest) := by
  cases h with
  | noItems hg =>
    rw [List.append_assoc]
    exact hg.ends_append (ends_cons_iff.2 (by decide))
  | items => exact ends_cons_iff.2 (by decide)

theorem Spells.ends_pairs {ps : List (String × Value)} {t rest : List Char}
    (h : Spells (.pairs ps) t) : Ends (t ++ rest) := by
  cases h with
  | noPairs hg =>
    rw [List.append_assoc]
    exact hg.ends_append (ends_cons_iff.2 (by decide))
  | pairs => exact ends_cons_iff.2 (by decide)

/-! ## Last characters -/

/-- How a text of this form ends. -/
def Form.EndsWell (t : List Char) : Form → Prop
  | value _ => t.getLast? ≠ some '\n'
  | items _ => t.getLast? = some ']'
  | pairs _ => t.getLast? = some '}'

theorem getLast?_suffix {s t : List Char} {c : Char} (h : t.getLast? = some c) (hs : t <:+ s) :
    s.getLast? = some c := by
  obtain ⟨r, rfl⟩ := hs
  rw [List.getLast?_append, h, Option.some_or]

theorem Spells.endsWell {f : Form} {t : List Char} (h : Spells f t) : f.EndsWell t := by
  induction h with
  | token h _ => exact h.last
  | emptySeq | emptyMap => exact nofun
  | @seq v vs g s t hg hs ht ihs iht =>
    rw [Form.EndsWell, getLast?_suffix iht ⟨'[' :: (g ++ s), by simp⟩]
    decide
  | @map k v ps g g' s t hg hg' hs ht ihs iht =>
    have hsuffix : t <:+ '{' :: (g ++ '"' :: keyText k (g' ++ (s ++ t))) :=
      ⟨'{' :: (g ++ '"' :: keyText k (g' ++ s)), by simp [keyText]⟩
    rw [Form.EndsWell, getLast?_suffix iht hsuffix]
    decide
  | noItems hg | noPairs hg => exact List.getLast?_concat
  | @items v vs g s t hg hs ht ihs iht =>
    exact getLast?_suffix iht ⟨',' :: (g ++ s), by simp⟩
  | @pairs k v ps g g' s t hg hg' hs ht ihs iht =>
    exact getLast?_suffix iht ⟨',' :: (g ++ '"' :: keyText k (g' ++ s)), by simp [keyText]⟩

/-! ## Reading items and pairs -/

section

variable {fuel levels : Nat} {v : Value} {k : String} {g s s' rest : List Char}

theorem skipBlank_append (hg : Gap g) {c : Char} (hc : isBlank c = false) (s : List Char) :
    skipBlank (g ++ c :: s) = c :: s := by
  rw [hg.skipBlank_append, skipBlank_cons hc]

theorem value_bracket :
    value (fuel + 1) (levels + 1) ('[' :: s) =
      (items fuel levels s).map fun (vs, rest) => (.seq vs, rest) := by
  rw [value, skipBlank_cons (by decide)]
  rfl

theorem value_brace :
    value (fuel + 1) (levels + 1) ('{' :: s) =
      (pairs fuel levels s).map fun (ps, rest) => (.map ps, rest) := by
  rw [value, skipBlank_cons (by decide)]
  rfl

theorem items_open (hg : Gap g) (hs : ∃ c t, s = c :: t ∧ isBlank c = false ∧ c ≠ ']') :
    items (fuel + 1) levels (g ++ (s ++ rest)) = item fuel levels (s ++ rest) := by
  obtain ⟨c, t, rfl, hblank, hclose⟩ := hs
  rw [items, List.cons_append, skipBlank_append hg hblank]
  split
  · next heq => cases heq
  · next heq => exact absurd (List.cons.inj heq).1 hclose
  · rfl

theorem item_close (hg : Gap g) (hv : value fuel levels s = .ok (v, g ++ ']' :: rest)) :
    item (fuel + 1) levels s = .ok ([v], rest) := by
  rw [item, hv]
  simp only [Except.bind]
  rw [skipBlank_append hg (by decide)]
  rfl

theorem item_comma (hg : Gap g) (hs : ∃ c t, s' = c :: t ∧ isBlank c = false ∧ c ≠ ']')
    (hv : value fuel levels s = .ok (v, ',' :: (g ++ (s' ++ rest)))) :
    item (fuel + 1) levels s =
      (item fuel levels (s' ++ rest)).map fun (vs, rest) => (v :: vs, rest) := by
  obtain ⟨c, t, rfl, hblank, hclose⟩ := hs
  rw [item, hv]
  simp only [Except.bind]
  rw [skipBlank_cons (by decide), List.cons_append]
  simp only
  rw [skipBlank_append hg hblank]
  split
  · next heq => cases heq
  · next heq => exact absurd (List.cons.inj heq).1 hclose
  · rfl

theorem pairs_open (hg : Gap g) :
    pairs (fuel + 1) levels (g ++ '"' :: rest) = pair fuel levels rest := by
  rw [pairs, skipBlank_append hg (by decide)]
  rfl

theorem pair_close (hg : Gap g) (hk : key s = .ok (k, s'))
    (hv : value fuel levels s' = .ok (v, g ++ '}' :: rest)) :
    pair (fuel + 1) levels s = .ok ([(k, v)], rest) := by
  rw [pair, hk]
  simp only [Except.bind]
  rw [hv]
  simp only
  rw [skipBlank_append hg (by decide)]
  rfl

theorem pair_comma (hg : Gap g) (hk : key s = .ok (k, s'))
    (hv : value fuel levels s' = .ok (v, ',' :: (g ++ '"' :: rest))) :
    pair (fuel + 1) levels s =
      (pair fuel levels rest).map fun (ps, rest) => ((k, v) :: ps, rest) := by
  rw [pair, hk]
  simp only [Except.bind]
  rw [hv]
  simp only
  rw [skipBlank_cons (by decide)]
  simp only
  rw [skipBlank_append hg (by decide)]
  rfl

end

/-! ## Reading back -/

/-- How a text of this form is read: within three calls a character, and within the depth of what it
says. -/
def Form.ReadsBack (t : List Char) : Form → Prop
  | value v => ∀ fuel levels rest, 3 * t.length ≤ fuel → v.depth ≤ levels → Ends rest →
    Json.value fuel levels (t ++ rest) = .ok (v, rest)
  | items vs => ∀ fuel levels v s rest, 3 * t.length ≤ fuel → Value.depthItems vs ≤ levels →
    Json.value fuel levels s = .ok (v, t ++ rest) →
      Json.item (fuel + 1) levels s = .ok (v :: vs, rest)
  | pairs ps => ∀ fuel levels k v s s' rest, 3 * t.length ≤ fuel → Value.depthPairs ps ≤ levels →
    key s = .ok (k, s') → Json.value fuel levels s' = .ok (v, t ++ rest) →
      Json.pair (fuel + 1) levels s = .ok ((k, v) :: ps, rest)

theorem Spells.readsBack {f : Form} {t : List Char} (h : Spells f t) : f.ReadsBack t := by
  -- No step of the reader takes more calls than three for each character the case spells itself.
  induction h with
  | token h _ =>
    intro fuel levels rest hfuel _ hr
    obtain ⟨c, t, rfl, -⟩ := h.head
    rw [List.length_cons] at hfuel
    obtain ⟨n, rfl⟩ : ∃ n, fuel = n + 1 := ⟨fuel - 1, by omega⟩
    exact h.read n levels rest hr
  | emptySeq =>
    intro fuel levels rest hfuel hdepth _
    simp only [List.length_cons, List.length_nil] at hfuel
    obtain ⟨n, rfl⟩ : ∃ n, fuel = n + 2 := ⟨fuel - 2, by omega⟩
    rw [Value.depth] at hdepth
    obtain ⟨l, rfl⟩ : ∃ l, levels = l + 1 := ⟨levels - 1, by omega⟩
    rw [List.cons_append, value_bracket, Json.items, List.cons_append, skipBlank_cons (by decide)]
    rfl
  | @seq v vs g s t hg hs ht ihs iht =>
    intro fuel levels rest hfuel hdepth hr
    simp only [List.length_cons, List.length_append] at hfuel
    obtain ⟨n, rfl⟩ : ∃ n, fuel = n + 3 := ⟨fuel - 3, by omega⟩
    rw [Value.depth, Value.depthItems] at hdepth
    obtain ⟨l, rfl⟩ : ∃ l, levels = l + 1 := ⟨levels - 1, by omega⟩
    have hv : value n l (s ++ (t ++ rest)) = .ok (v, t ++ rest) :=
      ihs n l _ (by omega) (by omega) ht.ends_items
    rw [List.cons_append, List.append_assoc, List.append_assoc, value_bracket,
      items_open hg hs.head_value, iht n l v _ rest (by omega) (by omega) hv]
    rfl
  | emptyMap =>
    intro fuel levels rest hfuel hdepth _
    simp only [List.length_cons, List.length_nil] at hfuel
    obtain ⟨n, rfl⟩ : ∃ n, fuel = n + 2 := ⟨fuel - 2, by omega⟩
    rw [Value.depth] at hdepth
    obtain ⟨l, rfl⟩ : ∃ l, levels = l + 1 := ⟨levels - 1, by omega⟩
    rw [List.cons_append, value_brace, Json.pairs, List.cons_append, skipBlank_cons (by decide)]
    rfl
  | @map k v ps g g' s t hg hg' hs ht ihs iht =>
    intro fuel levels rest hfuel hdepth hr
    have hkey := length_le_length_keyText k (g' ++ (s ++ t))
    simp only [List.length_cons, List.length_append] at hfuel hkey
    obtain ⟨n, rfl⟩ : ∃ n, fuel = n + 4 := ⟨fuel - 4, by omega⟩
    rw [Value.depth, Value.depthPairs] at hdepth
    obtain ⟨l, rfl⟩ : ∃ l, levels = l + 1 := ⟨levels - 1, by omega⟩
    have hv : value (n + 1) l (g' ++ (s ++ (t ++ rest))) = .ok (v, t ++ rest) := by
      rw [hg'.value_append]
      exact ihs (n + 1) l _ (by omega) (by omega) ht.ends_pairs
    rw [List.cons_append, List.append_assoc, List.cons_append, keyText_append, List.append_assoc,
      List.append_assoc, value_brace, pairs_open hg,
      iht (n + 1) l k v _ _ rest (by omega) (by omega) (key_keyText ..) hv]
    rfl
  | noItems hg =>
    intro fuel levels v s rest _ _ hv
    exact item_close hg (by rwa [List.append_assoc] at hv)
  | @items v vs g s t hg hs ht ihs iht =>
    intro fuel levels v' s' rest hfuel hdepth hv
    simp only [List.length_cons, List.length_append] at hfuel
    obtain ⟨n, rfl⟩ : ∃ n, fuel = n + 1 := ⟨fuel - 1, by omega⟩
    rw [Value.depthItems] at hdepth
    have hnext : value n levels (s ++ (t ++ rest)) = .ok (v, t ++ rest) :=
      ihs n levels _ (by omega) (by omega) ht.ends_items
    rw [List.cons_append, List.append_assoc, List.append_assoc] at hv
    rw [item_comma hg hs.head_value hv, iht n levels v _ rest (by omega) (by omega) hnext]
    rfl
  | noPairs hg =>
    intro fuel levels k v s s' rest _ _ hk hv
    exact pair_close hg hk (by rwa [List.append_assoc] at hv)
  | @pairs k v ps g g' s t hg hg' hs ht ihs iht =>
    intro fuel levels k' v' s₁ s₂ rest hfuel hdepth hk hv
    have hkey := length_le_length_keyText k (g' ++ (s ++ t))
    simp only [List.length_cons, List.length_append] at hfuel hkey
    obtain ⟨n, rfl⟩ : ∃ n, fuel = n + 2 := ⟨fuel - 2, by omega⟩
    rw [Value.depthPairs] at hdepth
    have hnext : value (n + 1) levels (g' ++ (s ++ (t ++ rest))) = .ok (v, t ++ rest) := by
      rw [hg'.value_append]
      exact ihs (n + 1) levels _ (by omega) (by omega) ht.ends_pairs
    rw [List.cons_append, List.append_assoc, List.cons_append, keyText_append, List.append_assoc,
      List.append_assoc] at hv
    rw [pair_comma hg hk hv,
      iht (n + 1) levels k v _ _ rest (by omega) (by omega) (key_keyText ..) hnext]
    rfl

/-- A text of a value with blanks after it holds the value and nothing else. -/
theorem Spells.readAll_append {v : Value} {s g : List Char} (h : Spells (.value v) s)
    (hdepth : v.depth ≤ maxLevels) (hg : Gap g) : readAll (s ++ g) = .ok v := by
  have hread := h.readsBack (3 * (s ++ g).length + 3) maxLevels g
    (by rw [List.length_append]; omega) hdepth (List.append_nil g ▸ hg.ends_append ends_nil)
  have hskip : skipBlank g = [] := by
    rw [← List.append_nil g, hg.skipBlank_append]
    rfl
  rw [readAll, hread]
  simp only [Except.bind, hskip]

end ConfigTree.Json
