import ConfigTree.Text.Word

/-! Where the word characters begin. -/

namespace ConfigTree.Text

theorem le_fst_of_mem_wordRanges : ∀ r ∈ wordRanges, 0x30 ≤ r.1 := by
  have h : ∀ r ∈ wordRanges.toList, 0x30 ≤ r.1 := by decide +kernel
  exact fun r hr => h r (Array.mem_def.1 hr)

/-- No character below the digits is a word character. -/
theorem le_toNat_of_isWord {c : Char} (h : isWord c = true) : 0x30 ≤ c.toNat := by
  obtain ⟨r, hr, hlow, -⟩ := inRanges_iff.1 h
  exact Nat.le_trans (le_fst_of_mem_wordRanges r hr) hlow

end ConfigTree.Text
