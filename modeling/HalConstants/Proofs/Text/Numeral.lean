import HalConstants.Proofs.Text.Words
import HalConstants.Text.Numeral
import Mathlib.Logic.Basic

/-!
# Reading back written numbers

`WritesNumber v cs` says that `cs` writes the 64-bit number `v`: in decimal or hexadecimal digits, with a minus
sign if it is negative, zeros in front of the digits and blanks around it all. `readInt64?_of_writesNumber`
reads every such text back. The sign is read apart from the magnitude, and that of the smallest number is one
larger than that of the largest: it is the signed value that has to fit, and no digits are too many.
-/

namespace HalConstants.Text

variable {c : Char} {cs ds g g' w : List Char} {radix n m d : Nat} {v : Int64}

/-! ## Writing -/

/-- Digits of the number in a radix, with zeros in front and letters of either case. -/
def WritesDigits (radix n : Nat) (ds : List Char) : Prop :=
  ∃ zeros, ds.map Char.toLower = List.replicate zeros '0' ++ Nat.toDigits radix n

/-- The minus sign of a negative number. -/
def signOf (v : Int64) : List Char := if v.toInt < 0 then ['-'] else []

inductive WritesNumber (v : Int64) : List Char → Prop
  | decimal {g ds g' : List Char} (hg : ∀ c ∈ g, isBlank c) (hg' : ∀ c ∈ g', isBlank c)
      (hds : WritesDigits 10 v.toInt.natAbs ds) : WritesNumber v (g ++ (signOf v ++ ds ++ g'))
  | hex {g ds g' : List Char} {x : Char} (hg : ∀ c ∈ g, isBlank c) (hg' : ∀ c ∈ g', isBlank c)
      (hx : x = 'x' ∨ x = 'X') (hds : WritesDigits 16 v.toInt.natAbs ds) :
      WritesNumber v (g ++ (signOf v ++ '0' :: x :: ds ++ g'))

/-! ## Digits -/

/-- The value of a digit by its code point. -/
theorem digitValue?_eq (c : Char) : digitValue? c =
    if 0x30 ≤ c.toNat ∧ c.toNat ≤ 0x39 then some (c.toNat - 0x30)
    else if 0x61 ≤ c.toNat ∧ c.toNat ≤ 0x66 then some (c.toNat - 0x61 + 10)
    else if 0x41 ≤ c.toNat ∧ c.toNat ≤ 0x46 then some (c.toNat - 0x41 + 10)
    else none :=
  if_congr Iff.rfl rfl (if_congr Iff.rfl rfl (if_congr Iff.rfl rfl rfl))

theorem toNat_toLower (c : Char) : c.toLower.toNat =
    if 0x41 ≤ c.toNat ∧ c.toNat ≤ 0x5A then c.toNat + 32 else c.toNat := by
  split
  · next h =>
      have hlt : c.val.toNat + 32 < 2 ^ 32 := Nat.lt_of_le_of_lt (Nat.add_le_add_right h.2 32) (by decide)
      have hlower : c.toLower.val = c.val + 32 := congrArg Char.val (dif_pos h)
      change c.toLower.val.toNat = c.val.toNat + 32
      rw [hlower, UInt32.toNat_add, UInt32.toNat_ofNat, Nat.mod_eq_of_lt]
      exact hlt
  · next h => exact congrArg Char.toNat (dif_neg h)

theorem digitValue?_toLower (c : Char) : digitValue? c.toLower = digitValue? c := by
  rw [digitValue?_eq, digitValue?_eq, toNat_toLower]
  grind

theorem isInk_of_digitValue? (h : digitValue? c = some d) : isInk c := by
  rw [digitValue?_eq] at h
  apply isInk_of_ascii <;> grind

theorem readDigits_map_toLower (n : Nat) (ds : List Char) :
    readDigits radix n (ds.map Char.toLower) = readDigits radix n ds := by
  induction ds generalizing n with
  | nil => rfl
  | cons c ds ih =>
      rw [List.map_cons, readDigits, readDigits, digitValue?_toLower]
      cases digitValue? c with
      | none => rfl
      | some d =>
          dsimp only
          split
          · exact ih _
          · rfl

theorem readDigits_zeros (h : 0 < radix) (k : Nat) :
    readDigits radix 0 (List.replicate k '0' ++ ds) = readDigits radix 0 ds := by
  induction k with
  | zero => rfl
  | succ k ih =>
      have hzero : digitValue? '0' = some 0 := by decide
      rw [List.replicate_succ, List.cons_append, readDigits, hzero]
      simpa [h] using ih

/-- All characters that are read are digits of the radix. -/
theorem digitValue?_of_readDigits (h : readDigits radix n ds = some m) :
    ∀ c ∈ ds, ∃ d, digitValue? c = some d := by
  induction ds generalizing n with
  | nil => simp
  | cons c ds ih =>
      rw [readDigits] at h
      split at h
      · next d hd =>
          split at h
          · exact List.forall_mem_cons.mpr ⟨⟨d, hd⟩, ih h⟩
          · contradiction
      · contradiction

/-- Printed digits have no capital letters. -/
theorem map_toLower_toDigits (h₁ : 1 < radix) (h₂ : radix ≤ 16) (n : Nat) :
    (Nat.toDigits radix n).map Char.toLower = Nat.toDigits radix n := by
  have hdigit : ∀ d < 16, (Nat.digitChar d).toLower = Nat.digitChar d := by decide
  induction n using Nat.strongRecOn with
  | ind n ih =>
      by_cases hn : n < radix
      · simp [Nat.toDigits_of_lt_base hn, hdigit n (by omega)]
      · have hlt : n / radix < n := Nat.div_lt_self (by omega) h₁
        have hmod : n % radix < radix := Nat.mod_lt _ (by omega)
        rw [Nat.toDigits_of_base_le h₁ (by omega), List.map_append, ih _ hlt]
        simp [hdigit (n % radix) (by omega)]

theorem writesDigits_toDigits (h₁ : 1 < radix) (h₂ : radix ≤ 16) (n : Nat) :
    WritesDigits radix n (Nat.toDigits radix n) :=
  ⟨0, by rw [map_toLower_toDigits h₁ h₂, List.replicate_zero, List.nil_append]⟩

theorem readNat?_of_writesDigits (h₁ : 1 < radix) (h₂ : radix ≤ 16) (h : WritesDigits radix n ds) :
    readNat? radix ds = some n := by
  obtain ⟨zeros, hds⟩ := h
  have hne : ds ≠ [] := by
    rintro rfl
    simp [Nat.toDigits_ne_nil] at hds
  rw [readNat?, if_neg (by simpa using hne), ← readDigits_map_toLower, hds,
    readDigits_zeros (by omega), readDigits_toDigits h₁ h₂]

/-! ## Signs and blanks -/

theorem trim_word (hg : ∀ c ∈ g, isBlank c) (hw : IsWord w) (hg' : ∀ c ∈ g', isBlank c) :
    trim (g ++ (w ++ g')) = w := by
  have hfront : (g ++ (w ++ g')).dropWhile isBlank = w ++ g' := by
    rw [List.dropWhile_append_of_pos hg, dropWhile_of_head hw.head_append]
  have hback : (w ++ g').reverse.dropWhile isBlank = w.reverse := by
    have hhead : ∀ c ∈ (w.reverse ++ []).head?, isBlank c = false := hw.reverse.head_append
    rw [List.append_nil] at hhead
    rw [List.reverse_append, List.dropWhile_append_of_pos (by simpa using hg'), dropWhile_of_head hhead]
  rw [trim, hfront, hback, List.reverse_reverse]

theorem splitSign_signOf (h : '-' ∉ cs) : splitSign (signOf v ++ cs) = (decide (v.toInt < 0), cs) := by
  rw [signOf]
  split
  · next hneg => simp [splitSign, hneg]
  · next hneg =>
      rw [List.nil_append, splitSign.eq_def]
      split
      · simp at h
      · simp [hneg]

theorem splitRadix_digits (h : ∀ c ∈ ds, ∃ d, digitValue? c = some d) : splitRadix ds = (10, ds) := by
  have hx : 'x' ∉ ds ∧ 'X' ∉ ds := by
    constructor <;> intro hmem <;> obtain ⟨d, hd⟩ := h _ hmem <;> simp [digitValue?] at hd
  rw [splitRadix.eq_def]
  split
  · simp at hx
  · simp at hx
  · rfl

theorem int64?_toInt (v : Int64) : int64? v.toInt = some v := by
  rw [int64?, if_pos ⟨v.minValue_le_toInt, v.toInt_le⟩, Int64.ofInt_toInt]

/-- A number is its sign and its magnitude. -/
theorem signed_natAbs (i : Int) : (if decide (i < 0) then -(i.natAbs : Int) else i.natAbs) = i := by
  by_cases h : i < 0
  · rw [if_pos (decide_eq_true h)]
    omega
  · rw [if_neg (by simpa using h)]
    omega

/-- What stands between the blanks is read as sign, radix and digits. -/
theorem readInt64?_of_splitRadix (hg : ∀ c ∈ g, isBlank c) (hg' : ∀ c ∈ g', isBlank c)
    (hcs : IsWord cs) (hsign : '-' ∉ cs) (hradix : splitRadix cs = (radix, ds))
    (hds : readNat? radix ds = some v.toInt.natAbs) :
    readInt64? (g ++ (signOf v ++ cs ++ g')) = some v := by
  have hword : IsWord (signOf v ++ cs) := by
    rw [signOf]
    split
    · have hminus : IsWord ['-'] := by decide
      exact hminus.append hcs
    · exact hcs
  rw [readInt64?, trim_word hg hword hg', splitSign_signOf hsign]
  simp only [hradix, hds, Option.bind_some, signed_natAbs, int64?_toInt]

theorem digits_of_readNat? (h : readNat? radix ds = some n) :
    ds ≠ [] ∧ ∀ c ∈ ds, ∃ d, digitValue? c = some d := by
  rw [readNat?] at h
  split at h
  · contradiction
  · next hne => exact ⟨by simpa using hne, digitValue?_of_readDigits h⟩

theorem minus_notMem_digits (h : ∀ c ∈ ds, ∃ d, digitValue? c = some d) : '-' ∉ ds := by
  intro hmem
  obtain ⟨d, hd⟩ := h _ hmem
  simp [digitValue?] at hd

theorem isInk_of_mem_digits (h : ∀ c ∈ ds, ∃ d, digitValue? c = some d) : ∀ c ∈ ds, isInk c := by
  intro c hc
  obtain ⟨d, hd⟩ := h c hc
  exact isInk_of_digitValue? hd

/-- **Every written number is read back.** -/
theorem readInt64?_of_writesNumber (h : WritesNumber v cs) : readInt64? cs = some v := by
  cases h with
  | @decimal g ds g' hg hg' hds =>
      have hread := readNat?_of_writesDigits (by decide) (by decide) hds
      obtain ⟨hne, hdigits⟩ := digits_of_readNat? hread
      exact readInt64?_of_splitRadix hg hg' ⟨hne, isInk_of_mem_digits hdigits⟩
        (minus_notMem_digits hdigits) (splitRadix_digits hdigits) hread
  | @hex g ds g' x hg hg' hx hds =>
      have hread := readNat?_of_writesDigits (by decide) (by decide) hds
      obtain ⟨-, hdigits⟩ := digits_of_readNat? hread
      have hword : IsWord ('0' :: x :: ds) := by
        refine ⟨by simp, List.forall_mem_cons.mpr ⟨by decide, List.forall_mem_cons.mpr ⟨?_, ?_⟩⟩⟩
        · rcases hx with rfl | rfl <;> decide
        · exact isInk_of_mem_digits hdigits
      have hminus : '-' ∉ '0' :: x :: ds := by
        have := minus_notMem_digits hdigits
        rcases hx with rfl | rfl <;> simpa
      have hradix : splitRadix ('0' :: x :: ds) = (16, ds) := by
        rcases hx with rfl | rfl <;> rfl
      exact readInt64?_of_splitRadix hg hg' hword hminus hradix hread

theorem writesNumber_hexLiteral (v : Int64) : WritesNumber v (hexLiteral v.toInt) := by
  have hnone : ∀ c ∈ ([] : List Char), isBlank c := by simp
  have h := WritesNumber.hex hnone hnone (.inl rfl)
    (writesDigits_toDigits (by decide) (by decide) v.toInt.natAbs)
  simpa only [hexLiteral, signOf, List.nil_append, List.append_nil] using h

end HalConstants.Text
