import HalConstants.Proofs.Text.Uppercase
import HalConstants.Text.Alphanumeric

/-!
# Letters and digits

In ASCII the letters and digits are the usual ones, and nowhere is one of them a blank.
-/

namespace HalConstants.Text

variable {c : Char}

theorem alphanumericRuns_ascii : ∀ run ∈ alphanumericRuns, run.1 < 128 →
    run ∈ [(0x30, 0x39), (0x41, 0x5A), (0x61, 0x7A)] := by
  decide +kernel

theorem blankRanges_le : ∀ r ∈ blankRanges, r.2 ≤ 0x3000 := by
  decide

theorem alphanumericRuns_avoid : ∀ run ∈ alphanumericRuns, run.1 ≤ 0x3000 →
    ∀ r ∈ blankRanges, run.2 < r.1 ∨ r.2 < run.1 := by
  decide +kernel

theorem isAlphanumeric_iff : isAlphanumeric c ↔ ∃ run ∈ alphanumericRuns, run.1 ≤ c.toNat ∧ c.toNat ≤ run.2 := by
  simp only [isAlphanumeric, List.any_eq_true, Bool.and_eq_true, decide_eq_true_eq]

theorem isDigit_iff : c.isDigit ↔ 0x30 ≤ c.toNat ∧ c.toNat ≤ 0x39 := by
  change (decide (c.val ≥ 0x30) && decide (c.val ≤ 0x39)) = true ↔ _
  rw [Bool.and_eq_true, decide_eq_true_eq, decide_eq_true_eq]
  rfl

theorem isAlpha_iff : c.isAlpha ↔ 0x41 ≤ c.toNat ∧ c.toNat ≤ 0x5A ∨ 0x61 ≤ c.toNat ∧ c.toNat ≤ 0x7A := by
  change (decide (c.val ≥ 0x41 ∧ c.val ≤ 0x5A) || (decide (c.val ≥ 0x61) && decide (c.val ≤ 0x7A))) = true ↔ _
  rw [Bool.or_eq_true, Bool.and_eq_true, decide_eq_true_eq, decide_eq_true_eq, decide_eq_true_eq]
  rfl

/-- **The letters and digits of ASCII** are the usual ones. -/
theorem isAlphanumeric_iff_of_ascii (h : c.toNat < 128) : isAlphanumeric c ↔ c.isAlpha ∨ c.isDigit := by
  rw [isAlphanumeric_iff, isAlpha_iff, isDigit_iff]
  constructor
  · rintro ⟨run, hrun, hfirst, hlast⟩
    have hascii := alphanumericRuns_ascii run hrun (Nat.lt_of_le_of_lt hfirst h)
    simp only [List.mem_cons, List.not_mem_nil, or_false] at hascii
    rcases hascii with rfl | rfl | rfl
    · exact .inr ⟨hfirst, hlast⟩
    · exact .inl (.inl ⟨hfirst, hlast⟩)
    · exact .inl (.inr ⟨hfirst, hlast⟩)
  · rintro ((hcapital | hsmall) | hdigit)
    · exact ⟨(0x41, 0x5A), .tail _ (.head _), hcapital⟩
    · exact ⟨(0x61, 0x7A), .tail _ (.tail _ (.head _)), hsmall⟩
    · exact ⟨(0x30, 0x39), .head _, hdigit⟩

theorem isInk_of_isAlphanumeric (h : isAlphanumeric c) : isInk c := by
  obtain ⟨run, hrun, hfirst, hlast⟩ := isAlphanumeric_iff.mp h
  rw [isInk_iff, Bool.eq_false_iff]
  intro hblank
  obtain ⟨r, hr, hlow, hhigh⟩ := exists_blankRange hblank
  have hfront : run.1 ≤ 0x3000 := Nat.le_trans hfirst (Nat.le_trans hhigh (blankRanges_le r hr))
  have havoid := alphanumericRuns_avoid run hrun hfront r hr
  omega

end HalConstants.Text
