import ConfigTree.Text.Blank
import Mathlib.Data.List.TakeWhile

/-! Trimming: nothing is left exactly of a text of blanks, what is left has no blank at either end,
and a text without a blank at either end is left as it is. -/

namespace ConfigTree.Text

theorem trimStart_cons_of_not_blank {c : Char} {s : List Char} (h : isBlank c = false) :
    trimStart (c :: s) = c :: s := by
  simp [trimStart, h]

theorem isBlank_of_head?_trimStart {s : List Char} {c : Char} (h : (trimStart s).head? = some c) :
    isBlank c = false := by
  have hhead := List.head?_dropWhile_not isBlank s
  rw [trimStart] at h
  rw [h] at hhead
  exact hhead

theorem trimStart_eq_self {s : List Char} (h : ∀ c, s.head? = some c → isBlank c = false) :
    trimStart s = s := by
  cases s with
  | nil => rfl
  | cons c s => exact trimStart_cons_of_not_blank (h c rfl)

theorem trimEnd_eq_self {s : List Char} (h : ∀ c, s.getLast? = some c → isBlank c = false) :
    trimEnd s = s := by
  rw [trimEnd, trimStart_eq_self, List.reverse_reverse]
  intro c hc
  exact h c (by rwa [List.head?_reverse] at hc)

theorem trim_eq_self {s : List Char} (hhead : ∀ c, s.head? = some c → isBlank c = false)
    (hlast : ∀ c, s.getLast? = some c → isBlank c = false) : trim s = s := by
  rw [trim, trimStart_eq_self hhead, trimEnd_eq_self hlast]

theorem mem_of_mem_trimStart {s : List Char} {c : Char} (h : c ∈ trimStart s) : c ∈ s :=
  (List.dropWhile_sublist isBlank).mem h

theorem mem_of_mem_trim {s : List Char} {c : Char} (h : c ∈ trim s) : c ∈ s := by
  rw [trim, trimEnd, List.mem_reverse] at h
  exact mem_of_mem_trimStart (List.mem_reverse.1 (mem_of_mem_trimStart h))

/-- Trimming keeps a first character that is no blank. -/
theorem trim_cons_of_not_blank {c : Char} {s : List Char} (h : isBlank c = false) :
    ∃ t, trim (c :: s) = c :: t := by
  rw [trim, trimStart_cons_of_not_blank h, trimEnd, List.reverse_cons, trimStart,
    List.dropWhile_append]
  split
  · exact ⟨[], by simp [h]⟩
  · exact ⟨(s.reverse.dropWhile isBlank).reverse, by simp⟩

theorem isBlank_of_head?_trim {s : List Char} {c : Char} (h : (trim s).head? = some c) :
    isBlank c = false := by
  rw [trim] at h
  cases hs : trimStart s with
  | nil =>
    rw [hs] at h
    cases h
  | cons b t =>
    have hb : isBlank b = false := isBlank_of_head?_trimStart (by rw [hs]; rfl)
    obtain ⟨u, hu⟩ := trim_cons_of_not_blank (s := t) hb
    rw [trim, trimStart_cons_of_not_blank hb] at hu
    rw [hs, hu] at h
    cases h
    exact hb

theorem isBlank_of_getLast?_trim {s : List Char} {c : Char} (h : (trim s).getLast? = some c) :
    isBlank c = false := by
  rw [trim, trimEnd, List.getLast?_reverse] at h
  exact isBlank_of_head?_trimStart h

@[simp] theorem trim_trim (s : List Char) : trim (trim s) = trim s :=
  trim_eq_self (fun _ => isBlank_of_head?_trim) fun _ => isBlank_of_getLast?_trim

theorem trimStart_eq_nil_iff {s : List Char} : trimStart s = [] ↔ ∀ c ∈ s, isBlank c = true :=
  List.dropWhile_eq_nil_iff

theorem trim_eq_nil_iff {s : List Char} : trim s = [] ↔ trimStart s = [] := by
  refine ⟨fun h => ?_, fun h => by rw [trim, h]; rfl⟩
  rw [trim, trimEnd, List.reverse_eq_nil_iff, trimStart_eq_nil_iff] at h
  cases hs : trimStart s with
  | nil => rfl
  | cons c t =>
    have hc : isBlank c = false := isBlank_of_head?_trimStart (by rw [hs]; rfl)
    rw [hs] at h
    rw [h c (by simp)] at hc
    cases hc

end ConfigTree.Text
