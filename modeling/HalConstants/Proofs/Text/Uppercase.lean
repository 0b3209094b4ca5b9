import HalConstants.Proofs.Text.Words
import HalConstants.Text.Uppercase

/-!
# Upper case

Upper-casing leaves a character as it is or turns it into ink other than the underscore, so it brings no blank
into a text, in particular no line break, and no underscore. A small ASCII letter is turned into its capital.
What is in upper case stays as it is when it is upper-cased again (`upperCase_of_mem_upperCase`).
-/

namespace HalConstants.Text

variable {c d : Char} {cs : List Char} {n : Nat} {ns : List Nat}

/-- The code points of the blanks, from and to. -/
def blankRanges : List (Nat × Nat) :=
  [(0x9, 0xD), (0x20, 0x20), (0x85, 0x85), (0xA0, 0xA0), (0x1680, 0x1680), (0x2000, 0x200A),
    (0x2028, 0x2029), (0x202F, 0x202F), (0x205F, 0x205F), (0x3000, 0x3000)]

theorem exists_blankRange (h : isBlank c) : ∃ r ∈ blankRanges, r.1 ≤ c.toNat ∧ c.toNat ≤ r.2 := by
  simp only [isBlank, Bool.or_eq_true, Bool.and_eq_true, decide_eq_true_eq, beq_iff_eq] at h
  simp only [blankRanges, List.mem_cons, List.not_mem_nil, or_false, exists_eq_or_imp, exists_eq_left]
  omega

/-- No stride of small letters is mapped onto a blank. -/
theorem capitalStrides_avoid : ∀ s ∈ capitalStrides, ∀ r ∈ blankRanges,
    (s.1.last + s.2 < r.1 ∨ (r.2 : Int) < s.1.first + s.2) ∧ 0 < s.1.first + s.2 := by
  decide +kernel

theorem isInk_of_capitalSequences : ∀ s ∈ capitalSequences, ∀ n ∈ s.2, isInk (Char.ofNat n) := by
  decide +kernel

/-- A number that is no code point is taken for the null character. -/
theorem toNat_ofNat_of_ne_null {n : Nat} (h : Char.ofNat n ≠ '\x00') : (Char.ofNat n).toNat = n := by
  by_cases hn : n.isValidChar
  · rw [Char.ofNat, dif_pos hn]
    rfl
  · rw [Char.ofNat, dif_neg hn] at h
    contradiction

theorem isInk_ofNat_of_stride {s : Stride × Int} {n : Nat} (hs : s ∈ capitalStrides)
    (hn : s.1.holds n) : isInk (Char.ofNat (n + s.2).toNat) := by
  rw [isInk_iff, Bool.eq_false_iff]
  intro hblank
  obtain ⟨r, hr, hfirst, hlast⟩ := exists_blankRange hblank
  have hnull : Char.ofNat (n + s.2).toNat ≠ '\x00' := by
    intro hnull
    rw [hnull] at hblank
    contradiction
  rw [toNat_ofNat_of_ne_null hnull] at hfirst hlast
  have havoid := capitalStrides_avoid s hs r hr
  simp only [Stride.holds, Bool.and_eq_true, decide_eq_true_eq] at hn
  omega

theorem mem_capitalSequences_of_lookup {seq : List Nat} (h : capitalSequences.lookup n = some seq) :
    (n, seq) ∈ capitalSequences := by
  obtain ⟨before, after, hsplit, -⟩ := List.lookup_eq_some_iff.mp h
  exact hsplit ▸ List.mem_append_right before (.head after)

/-- Upper-casing keeps a character or takes its upper case from one of the tables. -/
theorem mem_upperCase_cases (h : d ∈ upperCase c) : d = c ∧ upperCase c = [c] ∨
    (∃ s ∈ capitalSequences, ∃ n ∈ s.2, d = Char.ofNat n) ∨
      ∃ s ∈ capitalStrides, ∃ n : Nat, s.1.holds n ∧ d = Char.ofNat (n + s.2).toNat := by
  rw [upperCase] at h ⊢
  cases hseq : capitalSequences.lookup c.toNat with
  | some seq =>
      rw [hseq] at h
      obtain ⟨n, hn, rfl⟩ := List.mem_map.mp h
      exact .inr (.inl ⟨_, mem_capitalSequences_of_lookup hseq, n, hn, rfl⟩)
  | none =>
      rw [hseq] at h
      cases hs : capitalStrides.find? (·.1.holds c.toNat) with
      | some s =>
          rw [hs] at h
          have hholds : s.1.holds c.toNat := by simpa using List.find?_some hs
          exact .inr (.inr ⟨s, List.mem_of_find?_eq_some hs, c.toNat, hholds, List.mem_singleton.mp h⟩)
      | none =>
          rw [hs] at h
          exact .inl ⟨List.mem_singleton.mp h, rfl⟩

theorem eq_or_isInk_of_mem_upperCase (h : d ∈ upperCase c) : d = c ∨ isInk d := by
  rcases mem_upperCase_cases h with ⟨heq, -⟩ | ⟨s, hs, n, hn, rfl⟩ | ⟨s, hs, n, hn, rfl⟩
  · exact .inl heq
  · exact .inr (isInk_of_capitalSequences s hs n hn)
  · exact .inr (isInk_ofNat_of_stride hs hn)

/-- **Upper-casing brings in no blank.** -/
theorem mem_of_mem_toUpper (hd : isBlank d) (h : d ∈ toUpper cs) : d ∈ cs := by
  obtain ⟨c, hc, hdc⟩ := List.mem_flatMap.mp h
  rcases eq_or_isInk_of_mem_upperCase hdc with rfl | hink
  · exact hc
  · exact absurd hd (not_isBlank_of_isInk hink)

/-! ## Underscores -/

theorem capitalStrides_avoid_underscore : ∀ s ∈ capitalStrides,
    s.1.last + s.2 < 0x5F ∨ 0x5F < s.1.first + s.2 := by
  decide +kernel

theorem ne_underscore_of_capitalSequences : ∀ s ∈ capitalSequences, ∀ n ∈ s.2, Char.ofNat n ≠ '_' := by
  decide +kernel

theorem eq_of_underscore_mem_upperCase (h : '_' ∈ upperCase c) : '_' = c := by
  rcases mem_upperCase_cases h with ⟨heq, -⟩ | ⟨s, hs, n, hn, heq⟩ | ⟨s, hs, n, hn, heq⟩
  · exact heq
  · exact absurd heq.symm (ne_underscore_of_capitalSequences s hs n hn)
  · have hnull : Char.ofNat (n + s.2).toNat ≠ '\x00' := heq ▸ by decide
    have hcode : 0x5F = (n + s.2).toNat := (congrArg Char.toNat heq).trans (toNat_ofNat_of_ne_null hnull)
    have havoid := capitalStrides_avoid_underscore s hs
    simp only [Stride.holds, Bool.and_eq_true, decide_eq_true_eq] at hn
    omega

/-- **Upper-casing brings in no underscore.** -/
theorem underscore_mem_of_mem_toUpper (h : '_' ∈ toUpper cs) : '_' ∈ cs := by
  obtain ⟨c, hc, hmem⟩ := List.mem_flatMap.mp h
  rwa [eq_of_underscore_mem_upperCase hmem]

/-! ## Small letters -/

theorem upperCase_small : ∀ n ∈ List.range' 0x61 26,
    upperCase (Char.ofNat n) = [(Char.ofNat n).toUpper] ∧ isUppercase (Char.ofNat n) = false ∧
      (Char.ofNat n).toUpper.isUpper ∧ (Char.ofNat n).toUpper.toLower = Char.ofNat n := by
  decide +kernel

/-- The upper case of a small ASCII letter is its capital. -/
theorem upperCase_of_isLower (h : c.isLower) : upperCase c = [c.toUpper] ∧ isUppercase c = false ∧
    c.toUpper.isUpper ∧ c.toUpper.toLower = c := by
  have hrange : c.toNat ∈ List.range' 0x61 26 := by
    change (decide (c.val ≥ 0x61) && decide (c.val ≤ 0x7A)) = true at h
    simp only [Bool.and_eq_true, decide_eq_true_eq] at h
    exact List.mem_range'_1.mpr ⟨h.1, Nat.lt_succ_of_le h.2⟩
  have hsmall := upperCase_small c.toNat hrange
  rwa [Char.ofNat_toNat] at hsmall

/-! ## Upper case of upper case -/

def Stride.members (s : Stride) : List Nat := List.range' s.first ((s.last - s.first) / s.step + 1) s.step

theorem Stride.mem_members {s : Stride} (h : s.holds n) : n ∈ s.members := by
  simp only [holds, Bool.and_eq_true, decide_eq_true_eq, beq_iff_eq] at h
  obtain ⟨⟨hfirst, hlast⟩, hstep⟩ := h
  have hindex : (n - s.first) / s.step ≤ (s.last - s.first) / s.step := Nat.div_le_div_right (by omega)
  have hsplit := Nat.div_add_mod (n - s.first) s.step
  exact List.mem_range'.mpr ⟨(n - s.first) / s.step, by omega, by omega⟩

/-- The code points of letters that have an upper case of their own. -/
def smallCodes : List Nat := capitalSequences.map (·.1) ++ capitalStrides.flatMap (·.1.members)

/-- The code points that stand in an upper case. -/
def capitalCodes : List Nat :=
  capitalSequences.flatMap (·.2) ++
    capitalStrides.flatMap fun s => s.1.members.map fun (n : Nat) => (n + s.2).toNat

/-- A set of numbers as the bits of one number, so that two large sets are compared at once. -/
def bits (ns : List Nat) : Nat := ns.foldr (fun n set => 1 <<< n ||| set) 0

theorem testBit_bits : (bits ns).testBit n = decide (n ∈ ns) := by
  induction ns with
  | nil => simp [bits]
  | cons m ns ih =>
      rw [bits, List.foldr_cons, Nat.testBit_or, Nat.one_shiftLeft, Nat.testBit_two_pow, ← bits, ih]
      simp [eq_comm]

theorem bits_smallCodes_and_capitalCodes : bits (0 :: capitalCodes) &&& bits smallCodes = 0 := by
  decide +kernel

/-- No upper case has an upper case of its own. -/
theorem notMem_smallCodes (h : n ∈ 0 :: capitalCodes) : n ∉ smallCodes := by
  intro hsmall
  have hbit := congrArg (Nat.testBit · n) bits_smallCodes_and_capitalCodes
  rw [Nat.testBit_and, testBit_bits, testBit_bits, Nat.zero_testBit] at hbit
  simp [h, hsmall] at hbit

theorem upperCase_of_notMem_smallCodes (h : c.toNat ∉ smallCodes) : upperCase c = [c] := by
  rw [smallCodes, List.mem_append, not_or] at h
  have hsequence : capitalSequences.lookup c.toNat = none := by
    rw [List.lookup_eq_none_iff]
    intro s hs
    rw [bne_iff_ne]
    exact fun hcode => h.1 (List.mem_map.mpr ⟨s, hs, hcode.symm⟩)
  have hstride : capitalStrides.find? (·.1.holds c.toNat) = none := by
    rw [List.find?_eq_none]
    exact fun s hs hholds => h.2 (List.mem_flatMap.mpr ⟨s, hs, Stride.mem_members hholds⟩)
  rw [upperCase, hsequence, hstride]

theorem notMem_smallCodes_of_ofNat (h : n ∈ capitalCodes) : (Char.ofNat n).toNat ∉ smallCodes := by
  by_cases hnull : Char.ofNat n = '\x00'
  · rw [hnull]
    exact notMem_smallCodes (.head capitalCodes)
  · rw [toNat_ofNat_of_ne_null hnull]
    exact notMem_smallCodes (.tail 0 h)

/-- **Upper-casing is done once.** -/
theorem upperCase_of_mem_upperCase (h : d ∈ upperCase c) : upperCase d = [d] := by
  rcases mem_upperCase_cases h with ⟨rfl, hkept⟩ | ⟨s, hs, n, hn, rfl⟩ | ⟨s, hs, n, hn, rfl⟩
  · exact hkept
  · have hcode : n ∈ capitalCodes := List.mem_append_left _ (List.mem_flatMap.mpr ⟨s, hs, hn⟩)
    exact upperCase_of_notMem_smallCodes (notMem_smallCodes_of_ofNat hcode)
  · have hmember : (n + s.2).toNat ∈ s.1.members.map fun (n : Nat) => (n + s.2).toNat :=
      List.mem_map.mpr ⟨n, Stride.mem_members hn, rfl⟩
    have hcode : (n + s.2).toNat ∈ capitalCodes :=
      List.mem_append_right _ (List.mem_flatMap.mpr ⟨s, hs, hmember⟩)
    exact upperCase_of_notMem_smallCodes (notMem_smallCodes_of_ofNat hcode)

theorem capitalSequences_ne_nil : ∀ s ∈ capitalSequences, s.2 ≠ [] := by
  decide +kernel

theorem upperCase_ne_nil (c : Char) : upperCase c ≠ [] := by
  rw [upperCase]
  cases hseq : capitalSequences.lookup c.toNat with
  | some seq =>
      have hne : seq ≠ [] := capitalSequences_ne_nil _ (mem_capitalSequences_of_lookup hseq)
      exact mt List.map_eq_nil_iff.mp hne
  | none =>
      cases capitalStrides.find? (·.1.holds c.toNat) with
      | some s => exact List.cons_ne_nil _ _
      | none => exact List.cons_ne_nil _ _

end HalConstants.Text
