import ConfigTree.Path
import Mathlib.Data.List.TakeWhile

/-! How the cut of a path and its segments agree: the segments of a path that is not the root are
those of its parent and then the final fragment. -/

namespace ConfigTree.Path

/-- The pieces between delimiters that are not empty. -/
def pieces (d : Char) (s : List Char) : List (List Char) := (s.splitOn d).filter (!·.isEmpty)

theorem segments_eq_map_pieces (d : Char) (path : String) :
    segments d path = (pieces d path.toList).map String.ofList := rfl

@[simp] theorem pieces_nil (d : Char) : pieces d [] = [] := rfl

theorem pieces_append_cons (d : Char) (s t : List Char) :
    pieces d (s ++ d :: t) = pieces d s ++ pieces d t := by
  rw [pieces, List.splitOn_append_cons_self, List.filter_append]
  rfl

theorem pieces_cons_self (d : Char) (s : List Char) : pieces d (d :: s) = pieces d s := by
  simpa using pieces_append_cons d [] s

theorem pieces_append_of_head? {d : Char} {t : List Char} (h : t.head? = some d) (s : List Char) :
    pieces d (s ++ t) = pieces d s ++ pieces d t := by
  obtain ⟨u, rfl⟩ := List.head?_eq_some_iff.1 h
  rw [pieces_append_cons, pieces_cons_self]

theorem pieces_concat_self (d : Char) (s : List Char) : pieces d (s ++ [d]) = pieces d s := by
  simpa using pieces_append_cons d s []

theorem pieces_eq_singleton {d : Char} {s : List Char} (hd : d ∉ s) (hs : s ≠ []) :
    pieces d s = [s] := by
  rw [pieces, List.splitOn_eq_singleton hd]
  simp [hs]

/-- A text has no separator, or begins with a stretch without one. -/
@[elab_as_elim]
theorem inductPieces (d : Char) {motive : List Char → Prop} (whole : ∀ s, d ∉ s → motive s)
    (cut : ∀ s t, d ∉ s → motive t → motive (s ++ d :: t)) (s : List Char) : motive s := by
  induction h : s.length using Nat.strongRecOn generalizing s with
  | ind n ih =>
    by_cases hd : d ∈ s
    · obtain ⟨u, v, rfl, hu⟩ := List.eq_append_cons_of_mem hd
      refine cut u v hu (ih v.length ?_ v rfl)
      rw [← h, List.length_append, List.length_cons]
      omega
    · exact whole s hd

theorem pieces_eq_nil_iff {d : Char} {s : List Char} : pieces d s = [] ↔ ∀ c ∈ s, c = d := by
  induction s with
  | nil => simp
  | cons c s ih =>
    by_cases h : c = d
    · simp [h, pieces_cons_self, ih]
    · refine iff_of_false (fun hnil => ?_) fun hall => h (hall c List.mem_cons_self)
      rw [pieces, List.splitOn_cons_eq_if_modifyHead, if_neg (by simpa using h)] at hnil
      cases hs : s.splitOn d with
      | nil => exact List.splitOn_ne_nil d s hs
      | cons p ps => simp [hs] at hnil

/-- A piece stands at the start or behind a separator, and has none in it. -/
theorem exists_of_mem_pieces {d : Char} {s p : List Char} (h : p ∈ pieces d s) :
    p ≠ [] ∧ d ∉ p ∧ ∃ u v, s = u ++ p ++ v ∧ (u = [] ∨ u.getLast? = some d) := by
  induction s using inductPieces d with
  | whole s hs =>
    by_cases hnil : s = []
    · cases hnil
      cases h
    · rw [pieces_eq_singleton hs hnil, List.mem_singleton] at h
      cases h
      exact ⟨hnil, hs, [], [], by simp, .inl rfl⟩
  | cut s t hs ih =>
    rw [pieces_append_cons, List.mem_append] at h
    rcases h with h | h
    · by_cases hnil : s = []
      · cases hnil
        cases h
      · rw [pieces_eq_singleton hs hnil, List.mem_singleton] at h
        cases h
        exact ⟨hnil, hs, [], d :: t, by simp, .inl rfl⟩
    · obtain ⟨hne, hd, u, v, rfl, hu⟩ := ih h
      refine ⟨hne, hd, s ++ d :: u, v, by simp, .inr ?_⟩
      rcases hu with rfl | hu
      · exact List.getLast?_concat
      · rw [List.getLast?_append, List.getLast?_cons, hu]
        rfl

/-- The first piece of a text that starts with none of its separators starts like it. -/
theorem exists_pieces_cons {d c : Char} (hc : c ≠ d) (s : List Char) :
    ∃ p ps, pieces d (c :: s) = (c :: p) :: ps := by
  induction h : c :: s using inductPieces d with
  | whole t ht =>
    exact ⟨s, [], by rw [pieces_eq_singleton ht (h ▸ List.cons_ne_nil c s), h]⟩
  | cut t u ht _ =>
    cases t with
    | nil => exact absurd (List.cons.inj h).1 hc
    | cons b t =>
      obtain ⟨rfl, -⟩ := List.cons.inj h
      exact ⟨t, pieces d u, by
        rw [pieces_append_cons, pieces_eq_singleton ht (List.cons_ne_nil _ _)]
        rfl⟩

/-- The last piece of a text that ends in none of its separators ends like it. -/
theorem exists_pieces_concat {d c : Char} (hc : c ≠ d) (s : List Char) :
    ∃ ps p, pieces d (s ++ [c]) = ps ++ [p ++ [c]] := by
  induction s using inductPieces d with
  | whole s hs =>
    have hd : d ∉ s ++ [c] := by simp [hs, hc.symm]
    exact ⟨[], s, pieces_eq_singleton hd (by simp)⟩
  | cut s t hs ih =>
    obtain ⟨ps, p, ht⟩ := ih
    exact ⟨pieces d s ++ ps, p, by
      rw [List.append_assoc, List.cons_append, pieces_append_cons, ht, List.append_assoc]⟩

/-- The pieces of a text all start with the character that the text starts with, if no other follows
a separator. -/
theorem forall_pieces_head?_iff {d c : Char} {s : List Char} (hc : c ≠ d) (hs : s.head? = some c) :
    (∀ p ∈ pieces d s, p.head? = some c) ↔ ∀ u b v, s = u ++ d :: b :: v → b = d ∨ b = c := by
  constructor
  · rintro h u b v rfl
    by_cases hb : b = d
    · exact .inl hb
    · obtain ⟨p, ps, hpieces⟩ := exists_pieces_cons hb v
      have hp := h (b :: p) (by simp [pieces_append_cons, hpieces])
      exact .inr (Option.some.inj hp)
  · intro h p hp
    obtain ⟨hne, hd, u, v, rfl, hu⟩ := exists_of_mem_pieces hp
    obtain ⟨b, q, rfl⟩ := List.exists_cons_of_ne_nil hne
    rcases hu with rfl | hu
    · exact hs
    · obtain ⟨w, rfl⟩ := List.getLast?_eq_some_iff.1 hu
      have hb : b = d ∨ b = c := h w b (q ++ v) (by simp)
      rw [hb.resolve_left (by rintro rfl; simp at hd)]
      rfl

theorem eq_of_pieces_eq_singleton {d : Char} {s p : List Char} (hhead : s.head? ≠ some d)
    (hlast : s.getLast? ≠ some d) (h : pieces d s = [p]) : s = p := by
  induction s using inductPieces d with
  | whole s hs =>
    have hnil : s ≠ [] := by
      rintro rfl
      cases h
    rw [pieces_eq_singleton hs hnil] at h
    exact (List.cons.inj h).1
  | cut s t hs _ =>
    have hnil : s ≠ [] := by
      rintro rfl
      exact hhead rfl
    rw [pieces_append_cons, pieces_eq_singleton hs hnil] at h
    have ht : ∀ c ∈ t, c = d := pieces_eq_nil_iff.1 (List.cons.inj h).2
    refine absurd ?_ hlast
    rw [List.getLast?_append, List.getLast?_eq_some_getLast (List.cons_ne_nil d t), Option.some_or]
    congr 1
    rcases List.mem_cons.1 (List.getLast_mem (List.cons_ne_nil d t)) with hc | hc
    · exact hc
    · exact ht _ hc

/-- Pieces with one separator between them are the same pieces. -/
theorem pieces_intercalate (d : Char) (s : List Char) :
    pieces d ([d].intercalate (pieces d s)) = pieces d s := by
  by_cases hnil : pieces d s = []
  · rw [hnil]
    rfl
  · have hkept : ∀ p ∈ pieces d s, (!p.isEmpty) = true := fun p hp => by
      simp [(exists_of_mem_pieces hp).1]
    rw [pieces, List.splitOn_intercalate d (fun p hp => (exists_of_mem_pieces hp).2.1) hnil,
      List.filter_eq_self.2 hkept]

theorem pieces_dropLeading (d : Char) (s : List Char) :
    pieces d (dropLeading d s) = pieces d s := by
  cases s with
  | nil => rfl
  | cons c s =>
    by_cases h : c = d
    · simp [dropLeading, h, pieces_cons_self]
    · simp [dropLeading, h]

theorem pieces_dropTrailing (d : Char) (s : List Char) :
    pieces d (dropTrailing d s) = pieces d s := by
  have h (t : List Char) :
      pieces d (t.dropWhile (· == d)).reverse = pieces d t.reverse := by
    induction t with
    | nil => rfl
    | cons c t ih =>
      by_cases hc : c = d
      · simp [hc, ih, pieces_concat_self]
      · simp [hc]
  simpa [dropTrailing] using h s.reverse

@[simp] theorem segments_normalize (d : Char) (path : String) :
    segments d (normalize d path) = segments d path := by
  simp [segments_eq_map_pieces, normalize, pieces_dropTrailing, pieces_dropLeading]

theorem not_mem_of_splitLast {d : Char} {s before after : List Char}
    (h : splitLast d s = some (before, after)) : d ∉ after := by
  induction s generalizing before with
  | nil => cases h
  | cons c s ih =>
    unfold splitLast at h
    split at h
    · next b a hs => cases h; exact ih hs
    · next hs =>
      split at h
      · cases h; exact splitLast_eq_none_iff.1 hs
      · cases h

theorem getLast?_dropTrailing (d : Char) (s : List Char) :
    (dropTrailing d s).getLast? ≠ some d := by
  intro h
  have hhead := List.head?_dropWhile_not (· == d) s.reverse
  rw [dropTrailing, List.getLast?_reverse] at h
  rw [h] at hhead
  simp at hhead

/-- The segments that lead to the parent. -/
def parentSegments (d : Char) (path : String) : List String :=
  (cut d path).parent.elim [] (segments d)

theorem segments_eq_of_cut {d : Char} {path : String} (h : (cut d path).isRoot = false) :
    segments d path = parentSegments d path ++ [(cut d path).fragment] := by
  rw [← segments_normalize, segments_eq_map_pieces, parentSegments]
  unfold cut at h ⊢
  simp only at h ⊢
  split at h
  · next before after hs =>
    have hd : d ∉ after := not_mem_of_splitLast hs
    have hafter : after ≠ [] := by
      rintro rfl
      apply getLast?_dropTrailing d (dropLeading d path.toList)
      have := splitLast_eq_some hs
      simp only [normalize, String.toList_ofList] at this
      simp [this]
    rw [splitLast_eq_some hs, pieces_append_cons, pieces_eq_singleton hd hafter]
    simp [segments_eq_map_pieces]
  · next hs =>
    have hd : d ∉ (normalize d path).toList := splitLast_eq_none_iff.1 hs
    have hpath : (normalize d path).toList ≠ [] := by
      intro he
      simp [Cut.isRoot, String.toList_eq_nil_iff.1 he] at h
    rw [pieces_eq_singleton hd hpath]
    simp

theorem segments_eq_nil_of_isRoot {d : Char} {path : String} (h : (cut d path).isRoot = true) :
    segments d path = [] := by
  rw [← segments_normalize]
  unfold cut at h
  simp only at h
  split at h
  · cases h
  · have hpath : normalize d path = "" := by simpa [Cut.isRoot] using h
    rw [hpath]
    rfl

theorem cut_eq_of_splitLast {d : Char} {path : String} {before after : List Char}
    (h : splitLast d (normalize d path).toList = some (before, after)) :
    cut d path = ⟨some (String.ofList before), String.ofList after⟩ := by
  simp only [cut, h]

theorem cut_eq_of_not_mem {d : Char} {path : String} (h : d ∉ (normalize d path).toList) :
    cut d path = ⟨none, normalize d path⟩ := by
  simp only [cut, splitLast_eq_none_iff.2 h]

theorem not_mem_fragment (d : Char) (path : String) : d ∉ (cut d path).fragment.toList := by
  cases h : splitLast d (normalize d path).toList with
  | none =>
    rw [cut_eq_of_not_mem (splitLast_eq_none_iff.1 h)]
    exact splitLast_eq_none_iff.1 h
  | some r =>
    rw [cut_eq_of_splitLast h]
    simpa using not_mem_of_splitLast h

/-- The path of the parent and the fragment with the delimiter between them. -/
def Cut.joined (d : Char) (cut : Cut) : String :=
  match cut.parent with
  | some parent => parent ++ String.singleton d ++ cut.fragment
  | none => cut.fragment

theorem joined_cut (d : Char) (path : String) : (cut d path).joined d = normalize d path := by
  cases h : splitLast d (normalize d path).toList with
  | none => rw [cut_eq_of_not_mem (splitLast_eq_none_iff.1 h), Cut.joined]
  | some r =>
    rw [cut_eq_of_splitLast h, Cut.joined, ← String.toList_inj, splitLast_eq_some h]
    simp

theorem dropLeading_of_head?_ne {d : Char} {s : List Char} (h : s.head? ≠ some d) :
    dropLeading d s = s := by
  cases s with
  | nil => rfl
  | cons c s =>
    rw [dropLeading, if_neg]
    exact fun hc => h (congrArg some hc)

theorem dropTrailing_of_getLast?_ne {d : Char} {s : List Char} (h : s.getLast? ≠ some d) :
    dropTrailing d s = s := by
  rcases List.eq_nil_or_concat s with rfl | ⟨before, c, rfl⟩
  · rfl
  · rw [List.concat_eq_append] at h ⊢
    have hc : c ≠ d := fun hc => h (hc ▸ List.getLast?_concat)
    simp [dropTrailing, hc]

theorem dropTrailing_append {d : Char} {t : List Char} (h : ∃ c ∈ t, c ≠ d) (s : List Char) :
    dropTrailing d (s ++ t) = s ++ dropTrailing d t := by
  obtain ⟨c, hc, hne⟩ := h
  have hkept : (t.reverse.dropWhile (· == d)).isEmpty = false := by
    rw [List.isEmpty_eq_false_iff, ne_eq, List.dropWhile_eq_nil_iff]
    exact fun hall => hne (eq_of_beq (hall c (List.mem_reverse.2 hc)))
  rw [dropTrailing, List.reverse_append, List.dropWhile_append, hkept, if_neg Bool.false_ne_true,
    List.reverse_append, List.reverse_reverse, dropTrailing]

theorem dropTrailing_eq_nil_iff {d : Char} {s : List Char} :
    dropTrailing d s = [] ↔ ∀ c ∈ s, c = d := by
  simp [dropTrailing, List.dropWhile_eq_nil_iff]

theorem normalize_eq_empty_iff {d : Char} {path : String} :
    normalize d path = "" ↔ ∀ c ∈ path.toList, c = d := by
  rw [normalize, ← String.toList_inj, String.toList_ofList, String.toList_empty,
    dropTrailing_eq_nil_iff]
  cases path.toList with
  | nil => simp [dropLeading]
  | cons c s => by_cases h : c = d <;> simp [dropLeading, h]

theorem isRoot_cut_iff {d : Char} {path : String} :
    (cut d path).isRoot = true ↔ ∀ c ∈ path.toList, c = d := by
  rw [← normalize_eq_empty_iff]
  cases h : splitLast d (normalize d path).toList with
  | none =>
    rw [cut_eq_of_not_mem (splitLast_eq_none_iff.1 h)]
    simp [Cut.isRoot]
  | some r =>
    have hne : normalize d path ≠ "" := by
      intro he
      rw [he] at h
      cases h
    rw [cut_eq_of_splitLast h]
    simp [Cut.isRoot, hne]

theorem isRoot_cut_iff_segments {d : Char} {path : String} :
    (cut d path).isRoot = true ↔ segments d path = [] := by
  refine ⟨segments_eq_nil_of_isRoot, fun h => Bool.of_not_eq_false fun hroot => ?_⟩
  rw [segments_eq_of_cut hroot] at h
  exact List.append_ne_nil_of_right_ne_nil _ (List.cons_ne_nil _ _) h

theorem cut_of_isRoot {d : Char} {path : String} (h : (cut d path).isRoot = true) :
    cut d path = ⟨none, ""⟩ := by
  generalize cut d path = cut at h
  obtain ⟨parent, fragment⟩ := cut
  simpa [Cut.isRoot] using h

/-- The segments settle the last fragment and the way to its parent. -/
theorem cut_of_segments {d : Char} {p q : String} (h : segments d p = segments d q) :
    (cut d p).isRoot = (cut d q).isRoot ∧ (cut d p).fragment = (cut d q).fragment ∧
      parentSegments d p = parentSegments d q := by
  have hroot : (cut d p).isRoot = (cut d q).isRoot := by
    rw [Bool.eq_iff_iff, isRoot_cut_iff_segments, isRoot_cut_iff_segments, h]
  refine ⟨hroot, ?_⟩
  cases hp : (cut d p).isRoot with
  | true => simp only [parentSegments, cut_of_isRoot hp, cut_of_isRoot (hroot ▸ hp), and_self]
  | false =>
    rw [segments_eq_of_cut hp, segments_eq_of_cut (hroot ▸ hp)] at h
    -- Comparing segments must not unfold the cuts of the paths.
    generalize (cut d p).fragment = s at h ⊢
    generalize (cut d q).fragment = t at h ⊢
    obtain ⟨hparents, hfragments⟩ := List.append_inj' h rfl
    exact ⟨List.head_eq_of_cons_eq hfragments, hparents⟩

end ConfigTree.Path

namespace ConfigTree.Node

theorem parentOf?_eq_follow? (d : Char) (path : String) (root : Node) :
    root.parentOf? d path = root.follow? (Path.parentSegments d path) := by
  rw [parentOf?, Path.parentSegments]
  cases (Path.cut d path).parent <;> rfl

theorem updateParentOf?_eq_update? {β : Type} (d : Char) (path : String) (f : Node → Node × β)
    (root : Node) :
    root.updateParentOf? d path f = root.update? f (Path.parentSegments d path) := by
  rw [updateParentOf?, Path.parentSegments]
  cases (Path.cut d path).parent <;> rfl

theorem lookup?_of_isRoot {d : Char} {path : String} (h : (Path.cut d path).isRoot = true)
    (root : Node) : root.lookup? d path = some root := by
  rw [lookup?, Path.segments_eq_nil_of_isRoot h, follow?]

/-- What a path names is the child of its parent under the final fragment. -/
theorem lookup?_eq_bind_child? {d : Char} {path : String} (h : (Path.cut d path).isRoot = false)
    (root : Node) :
    root.lookup? d path = (root.parentOf? d path).bind (·.child? (Path.cut d path).fragment) := by
  rw [lookup?, Path.segments_eq_of_cut h, follow?_append, parentOf?_eq_follow?]
  cases root.follow? (Path.parentSegments d path) with
  | none => rfl
  | some parent =>
    simp only [Option.bind_some, follow?]
    cases parent.child? (Path.cut d path).fragment <;> rfl

end ConfigTree.Node
