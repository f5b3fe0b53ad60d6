import ConfigTree.Proofs.Json.RoundTrip

/-! Beyond the nesting limit.  The reader refuses a value that is nested deeper than the brackets it
may still open, so the text of such a value is no document; given inline it is a literal and stands
for itself. -/

namespace ConfigTree

namespace Json

theorem map_ne_ok {α β : Type} {f : α → β} {e : Except Fault α} (h : ∀ a, e ≠ .ok a) (b : β) :
    e.map f ≠ .ok b := by
  cases e with
  | ok a => exact absurd rfl (h a)
  | error e =>
    intro hb
    cases hb

section

variable {fuel levels : Nat} {s s' : List Char} {k : String}

theorem value_bracket_zero (r : Value × List Char) : value fuel 0 ('[' :: s) ≠ .ok r := by
  cases fuel with
  | zero => simp [value, fail]
  | succ n =>
    rw [value, skipBlank_cons (by decide)]
    simp [fail]

theorem value_brace_zero (r : Value × List Char) : value fuel 0 ('{' :: s) ≠ .ok r := by
  cases fuel with
  | zero => simp [value, fail]
  | succ n =>
    rw [value, skipBlank_cons (by decide)]
    simp [fail]

theorem item_ne_ok (h : ∀ r, value fuel levels s ≠ .ok r) (r : List Value × List Char) :
    item (fuel + 1) levels s ≠ .ok r := by
  rw [item]
  cases hv : value fuel levels s with
  | ok r => exact absurd hv (h r)
  | error e =>
    intro h
    cases h

theorem pair_ne_ok (hk : key s = .ok (k, s')) (h : ∀ r, value fuel levels s' ≠ .ok r)
    (r : List (String × Value) × List Char) : pair (fuel + 1) levels s ≠ .ok r := by
  rw [pair, hk]
  simp only [Except.bind]
  cases hv : value fuel levels s' with
  | ok r => exact absurd hv (h r)
  | error e =>
    intro h
    cases h

end

/-- A text of this form is refused where fewer brackets may be opened than it nests. -/
def Form.Refused (t : List Char) : Form → Prop
  | value v => ∀ fuel levels rest r, 3 * t.length ≤ fuel → levels < v.depth →
    Json.value fuel levels (t ++ rest) ≠ .ok r
  | items vs => ∀ fuel levels v s rest r, 3 * t.length ≤ fuel → levels < Value.depthItems vs →
    Json.value fuel levels s = .ok (v, t ++ rest) → Json.item (fuel + 1) levels s ≠ .ok r
  | pairs ps => ∀ fuel levels k v s s' rest r, 3 * t.length ≤ fuel → levels < Value.depthPairs ps →
    key s = .ok (k, s') → Json.value fuel levels s' = .ok (v, t ++ rest) →
      Json.pair (fuel + 1) levels s ≠ .ok r

theorem Spells.refused {f : Form} {t : List Char} (h : Spells f t) : f.Refused t := by
  induction h with
  | token h hv =>
    intro fuel levels rest r _ hdepth
    omega
  | emptySeq =>
    intro fuel levels rest r _ hdepth
    obtain rfl : levels = 0 := by simpa [Value.depth, Value.depthItems] using hdepth
    exact value_bracket_zero r
  | @seq v vs g s t hg hs ht ihs iht =>
    intro fuel levels rest r hfuel hdepth
    simp only [List.length_cons, List.length_append] at hfuel
    obtain ⟨n, rfl⟩ : ∃ n, fuel = n + 3 := ⟨fuel - 3, by omega⟩
    rw [Value.depth, Value.depthItems] at hdepth
    rw [List.cons_append, List.append_assoc, List.append_assoc]
    cases levels with
    | zero => exact value_bracket_zero r
    | succ l =>
      rw [value_bracket, items_open hg hs.head_value]
      refine map_ne_ok (fun r => ?_) r
      -- Either the first item is too deep already, or it is read and one behind it is.
      by_cases hv : l < v.depth
      · exact item_ne_ok (fun r => ihs n l _ r (by omega) hv) r
      · have hread : value n l (s ++ (t ++ rest)) = .ok (v, t ++ rest) :=
          hs.readsBack n l _ (by omega) (by omega) ht.ends_items
        exact iht n l v _ rest r (by omega) (by omega) hread
  | emptyMap =>
    intro fuel levels rest r _ hdepth
    obtain rfl : levels = 0 := by simpa [Value.depth, Value.depthPairs] using hdepth
    exact value_brace_zero r
  | @map k v ps g g' s t hg hg' hs ht ihs iht =>
    intro fuel levels rest r hfuel hdepth
    have hkey := length_le_length_keyText k (g' ++ (s ++ t))
    simp only [List.length_cons, List.length_append] at hfuel hkey
    obtain ⟨n, rfl⟩ : ∃ n, fuel = n + 4 := ⟨fuel - 4, by omega⟩
    rw [Value.depth, Value.depthPairs] at hdepth
    rw [List.cons_append, List.append_assoc, List.cons_append, keyText_append, List.append_assoc,
      List.append_assoc]
    cases levels with
    | zero => exact value_brace_zero r
    | succ l =>
      rw [value_brace, pairs_open hg]
      refine map_ne_ok (fun r => ?_) r
      by_cases hv : l < v.depth
      · refine pair_ne_ok (key_keyText ..) (fun r => ?_) r
        rw [hg'.value_append]
        exact ihs (n + 1) l _ r (by omega) hv
      · have hread : value (n + 1) l (g' ++ (s ++ (t ++ rest))) = .ok (v, t ++ rest) := by
          rw [hg'.value_append]
          exact hs.readsBack (n + 1) l _ (by omega) (by omega) ht.ends_pairs
        exact iht (n + 1) l k v _ _ rest r (by omega) (by omega) (key_keyText ..) hread
  | noItems hg =>
    intro fuel levels v s rest r _ hdepth
    exact absurd hdepth (Nat.not_lt_zero _)
  | @items v vs g s t hg hs ht ihs iht =>
    intro fuel levels v' s' rest r hfuel hdepth hv
    simp only [List.length_cons, List.length_append] at hfuel
    obtain ⟨n, rfl⟩ : ∃ n, fuel = n + 2 := ⟨fuel - 2, by omega⟩
    rw [Value.depthItems] at hdepth
    rw [List.cons_append, List.append_assoc, List.append_assoc] at hv
    rw [item_comma hg hs.head_value hv]
    refine map_ne_ok (fun r => ?_) r
    by_cases hdeep : levels < v.depth
    · exact item_ne_ok (fun r => ihs (n + 1) levels _ r (by omega) hdeep) r
    · have hnext : value (n + 1) levels (s ++ (t ++ rest)) = .ok (v, t ++ rest) :=
        hs.readsBack (n + 1) levels _ (by omega) (by omega) ht.ends_items
      exact iht (n + 1) levels v _ rest r (by omega) (by omega) hnext
  | noPairs hg =>
    intro fuel levels k v s s' rest r _ hdepth
    exact absurd hdepth (Nat.not_lt_zero _)
  | @pairs k v ps g g' s t hg hg' hs ht ihs iht =>
    intro fuel levels k' v' s₁ s₂ rest r hfuel hdepth hk hv
    have hkey := length_le_length_keyText k (g' ++ (s ++ t))
    simp only [List.length_cons, List.length_append] at hfuel hkey
    obtain ⟨n, rfl⟩ : ∃ n, fuel = n + 2 := ⟨fuel - 2, by omega⟩
    rw [Value.depthPairs] at hdepth
    rw [List.cons_append, List.append_assoc, List.cons_append, keyText_append, List.append_assoc,
      List.append_assoc] at hv
    rw [pair_comma hg hk hv]
    refine map_ne_ok (fun r => ?_) r
    by_cases hdeep : levels < v.depth
    · refine pair_ne_ok (key_keyText ..) (fun r => ?_) r
      rw [hg'.value_append]
      exact ihs (n + 1) levels _ r (by omega) hdeep
    · have hnext : value (n + 1) levels (g' ++ (s ++ (t ++ rest))) = .ok (v, t ++ rest) := by
        rw [hg'.value_append]
        exact hs.readsBack (n + 1) levels _ (by omega) (by omega) ht.ends_pairs
      exact iht (n + 1) levels k v _ _ rest r (by omega) (by omega) (key_keyText ..) hnext

/-- The text of a value beyond the limit is refused, whatever comes after it. -/
theorem Spells.readAll_of_deep {v : Value} {s : List Char} (h : Spells (.value v) s)
    (hdepth : maxLevels < v.depth) (rest : List Char) (r : Value) : readAll (s ++ rest) ≠ .ok r := by
  rw [readAll]
  cases hv : value (3 * (s ++ rest).length + 3) maxLevels (s ++ rest) with
  | ok r =>
    refine absurd hv (h.refused _ maxLevels rest r ?_ hdepth)
    rw [List.length_append]
    omega
  | error e =>
    intro h
    cases h

end Json

namespace Literal

variable {c : Char} {s : List Char}

theorem decimal?_bracket (hc : c = '[' ∨ c = '{') : decimal? (c :: s) = none := by
  rcases hc with rfl | rfl <;> simp [decimal?, Binary64.magnitude?, Text.natural?]

/-- No literal opens a bracket. -/
theorem reading?_bracket (hc : c = '[' ∨ c = '{') : reading? (c :: s) = none := by
  have hquoted : quoted? (c :: s) = none := by rcases hc with rfl | rfl <;> rfl
  have hkeyword : keyword? (c :: s) = none :=
    keyword?_eq_none (by rcases hc with rfl | rfl <;> decide)
  have hint : Text.int64? 10 (c :: s) = none := by
    have hdigit : Text.digit? 10 c = none := by rcases hc with rfl | rfl <;> decide
    rcases hc with rfl | rfl <;>
      simp [Text.int64?, Text.signed?, Text.integer?, Text.natural?, Text.accumulate?, hdigit]
  have hhexadecimal : signedHexadecimal? (c :: s) = none := by rcases hc with rfl | rfl <;> rfl
  have hsuffixed : suffixed? (c :: s) = none := by
    have halpha : c.isAlpha = false := by rcases hc with rfl | rfl <;> decide
    simp [suffixed?, halpha, decimal?_bracket hc]
  rw [reading?, hquoted, hkeyword, hint, hhexadecimal, decimal?_bracket hc, hsuffixed]
  rfl

theorem parse_bracket (hc : c = '[' ∨ c = '{') :
    parse (String.ofList (c :: s)) = .str (String.ofList (c :: s)) := by
  have hblank : Text.isBlank c = false := by rcases hc with rfl | rfl <;> rfl
  obtain ⟨t, ht⟩ := Text.trim_cons_of_not_blank (s := s) hblank
  rw [parse, String.toList_ofList, ht, reading?_bracket hc, Option.getD_none]

end Literal

/-- Given inline, the text of a value beyond the limit is a string. -/
theorem Inline.parse_print_of_deep {v : Value} (hv : v.FloatFree)
    (hdepth : Json.maxLevels < v.depth) (options : ReadOptions) :
    parse (Json.print v) options = .ok (.str (Json.print v)) := by
  have hopen : Json.Opens (Json.compact v) := Json.opens_compact (Nat.zero_lt_of_lt hdepth)
  have hread := (Json.spells_compact v hv).readAll_of_deep hdepth []
  rw [List.append_nil] at hread
  rw [Json.print, parse_opens hopen, Document.parse_opens hopen]
  cases hr : Json.readAll (Json.compact v) with
  | ok w => exact absurd hr (hread w)
  | error fault =>
    obtain ⟨c, t, hs, hc⟩ := hopen
    rw [hs]
    simp only [Literal.parse_bracket hc]

end ConfigTree
