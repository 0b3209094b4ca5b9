import HalConstants.Proofs.Text.Numeral
import Mathlib.Data.List.Forall2
import Mathlib.Data.Nat.Digits.Defs

/-!
# Which texts are numbers

A text denotes an integer if it is a numeral between blanks: perhaps one minus sign, and then decimal digits,
or `0x` and hexadecimal digits, of any number. `readInt64?_eq_some_iff` says that reading finds exactly the
integers that a text denotes and that fit 64 bits, so nothing else is accepted and no value wraps. A text
denotes at most one integer.
-/

namespace HalConstants.Text

variable {c : Char} {cs ds g g' text : List Char} {radix n m d : Nat} {i j : Int} {v : Int64}

/-- The character is the digit `d` of a radix up to sixteen, a letter in either case. -/
def IsFigure (radix : Nat) (c : Char) (d : Nat) : Prop :=
  d < radix ∧ (c = d.digitChar ∨ c = d.digitChar.toUpper)

/-- At least one digit, and the number that the digits write with the last one as the units. -/
def WritesNat (radix n : Nat) (ds : List Char) : Prop :=
  ds ≠ [] ∧ ∃ figures, List.Forall₂ (IsFigure radix) ds figures ∧ n = Nat.ofDigits radix figures.reverse

/-- A number without a sign. -/
inductive Magnitude (n : Nat) : List Char → Prop
  | decimal {ds : List Char} (h : WritesNat 10 n ds) : Magnitude n ds
  | hex {x : Char} {ds : List Char} (hx : x = 'x' ∨ x = 'X') (h : WritesNat 16 n ds) :
      Magnitude n ('0' :: x :: ds)

inductive Numeral : Int → List Char → Prop
  | unsigned {n : Nat} {cs : List Char} (h : Magnitude n cs) : Numeral n cs
  | negative {n : Nat} {cs : List Char} (h : Magnitude n cs) : Numeral (-n) ('-' :: cs)

/-- The text without the blanks around it is a numeral of the integer. -/
def Denotes (text : List Char) (i : Int) : Prop :=
  ∃ g cs g', text = g ++ (cs ++ g') ∧ (∀ c ∈ g, isBlank c) ∧ (∀ c ∈ g', isBlank c) ∧ Numeral i cs

def FitsInt64 (i : Int) : Prop := -2 ^ 63 ≤ i ∧ i ≤ 2 ^ 63 - 1

/-- What keeps a text from being a number: a plus sign or an underscore, a second sign, a second `x`, a blank
between ink, or nothing where the digits should stand. -/
inductive Flawed (text : List Char) : Prop
  | foreign {c : Char} (hc : c = '+' ∨ c = '_') (h : c ∈ text)
  | signs (h : 1 < text.count '-')
  | marks (h : 1 < text.count 'x' + text.count 'X')
  | space {a b c : Char} (ha : isInk a) (hb : isBlank b) (hc : isInk c) (h : [a, b, c].Sublist text)
  | digitless (h : trim text ∈ [[], ['-'], ['0', 'x'], ['0', 'X'], ['-', '0', 'x'], ['-', '0', 'X']])

/-! ## Digits -/

theorem digitValue?_eq_some_iff :
    digitValue? c = some d ↔ d < 16 ∧ (c = d.digitChar ∨ c = d.digitChar.toUpper) := by
  have hfigures : ∀ n < 0x67, ∀ d ∈ digitValue? (Char.ofNat n),
      d < 16 ∧ (Char.ofNat n = d.digitChar ∨ Char.ofNat n = d.digitChar.toUpper) := by decide
  have hvalues : ∀ d < 16, digitValue? (Nat.digitChar d) = some d ∧
      digitValue? (Nat.digitChar d).toUpper = some d := by decide
  constructor
  · intro h
    have hlt : c.toNat < 0x67 := by
      rw [digitValue?_eq] at h
      grind
    rw [← Char.ofNat_toNat c] at h ⊢
    exact hfigures c.toNat hlt d h
  · rintro ⟨hd, rfl | rfl⟩
    · exact (hvalues d hd).1
    · exact (hvalues d hd).2

/-- Reading on behind a number puts it in front of the digits. -/
theorem readDigits_eq_some_iff (h₂ : radix ≤ 16) : readDigits radix n ds = some m ↔
    ∃ figures, List.Forall₂ (IsFigure radix) ds figures ∧
      m = Nat.ofDigits radix (figures.reverse ++ [n]) := by
  induction ds generalizing n with
  | nil =>
      rw [readDigits]
      constructor
      · intro h
        obtain rfl := Option.some.inj h
        exact ⟨[], .nil, Nat.ofDigits_singleton.symm⟩
      · rintro ⟨figures, hfigures, rfl⟩
        obtain rfl := List.forall₂_nil_left_iff.mp hfigures
        exact congrArg some Nat.ofDigits_singleton.symm
  | cons c ds ih =>
      have hstep : ∀ figures d, Nat.ofDigits radix (List.reverse (d :: figures) ++ [n]) =
          Nat.ofDigits radix (figures.reverse ++ [radix * n + d]) := by
        intro figures d
        rw [List.reverse_cons, List.append_assoc, Nat.ofDigits_append, Nat.ofDigits_append,
          Nat.ofDigits_append, Nat.ofDigits_singleton, Nat.ofDigits_singleton, Nat.ofDigits_singleton,
          List.length_singleton, Nat.pow_one, Nat.add_comm d]
      rw [readDigits]
      constructor
      · intro h
        split at h
        · next d hd =>
            split at h
            · next hlt =>
                obtain ⟨figures, hfigures, rfl⟩ := ih.mp h
                refine ⟨d :: figures, .cons ⟨hlt, ?_⟩ hfigures, (hstep figures d).symm⟩
                exact (digitValue?_eq_some_iff.mp hd).2
            · contradiction
        · contradiction
      · rintro ⟨_, hfigures, rfl⟩
        obtain ⟨d, figures, ⟨hlt, hc⟩, hmore, rfl⟩ := List.forall₂_cons_left_iff.mp hfigures
        have hd : digitValue? c = some d := digitValue?_eq_some_iff.mpr ⟨by omega, hc⟩
        rw [hd]
        dsimp only
        rw [if_pos hlt, ih]
        exact ⟨figures, hmore, hstep figures d⟩

/-- **Digits are read exactly**, however many there are. -/
theorem readNat?_eq_some_iff (h₂ : radix ≤ 16) : readNat? radix ds = some n ↔ WritesNat radix n ds := by
  rw [readNat?, WritesNat]
  by_cases hds : ds = []
  · simp [hds]
  · rw [if_neg (by simpa using hds), readDigits_eq_some_iff h₂]
    simp [hds, Nat.ofDigits_append]

/-! ## Numerals -/

theorem magnitude_iff : Magnitude n cs ↔ readNat? (splitRadix cs).1 (splitRadix cs).2 = some n := by
  constructor
  · rintro (h | ⟨rfl | rfl, h⟩)
    · have hread := (readNat?_eq_some_iff (by decide)).mpr h
      rwa [splitRadix_digits (digits_of_readNat? hread).2]
    · exact (readNat?_eq_some_iff (Nat.le_refl 16)).mpr h
    · exact (readNat?_eq_some_iff (Nat.le_refl 16)).mpr h
  · intro h
    rw [splitRadix.eq_def] at h
    split at h
    · exact .hex (.inl rfl) ((readNat?_eq_some_iff (by decide)).mp h)
    · exact .hex (.inr rfl) ((readNat?_eq_some_iff (by decide)).mp h)
    · exact .decimal ((readNat?_eq_some_iff (by decide)).mp h)

/-- A numeral is a sign, a mark of its radix and digits, of which only the digits must be there. -/
theorem Numeral.exists_parts (h : Numeral i cs) :
    ∃ sign mark ds, cs = sign ++ (mark ++ ds) ∧ sign ∈ [[], ['-']] ∧
      mark ∈ [[], ['0', 'x'], ['0', 'X']] ∧ ds ≠ [] ∧ ∀ c ∈ ds, ∃ d, digitValue? c = some d := by
  have hmagnitude : ∀ n cs, Magnitude n cs → ∃ mark ds, cs = mark ++ ds ∧
      mark ∈ [[], ['0', 'x'], ['0', 'X']] ∧ ds ≠ [] ∧ ∀ c ∈ ds, ∃ d, digitValue? c = some d := by
    rintro n cs (h | ⟨hx, h⟩)
    · have hdigits := digits_of_readNat? ((readNat?_eq_some_iff (by decide)).mpr h)
      exact ⟨[], _, rfl, by simp, hdigits⟩
    · have hdigits := digits_of_readNat? ((readNat?_eq_some_iff (by decide)).mpr h)
      exact ⟨['0', _], _, rfl, by simpa using hx, hdigits⟩
  cases h with
  | unsigned h =>
      obtain ⟨mark, ds, rfl, hparts⟩ := hmagnitude _ _ h
      exact ⟨[], mark, ds, rfl, by simp, hparts⟩
  | negative h =>
      obtain ⟨mark, ds, rfl, hparts⟩ := hmagnitude _ _ h
      exact ⟨['-'], mark, ds, rfl, by simp, hparts⟩

theorem Numeral.isWord (h : Numeral i cs) : IsWord cs := by
  obtain ⟨sign, mark, ds, rfl, hsign, hmark, hne, hdigits⟩ := h.exists_parts
  have hds : IsWord ds := ⟨hne, isInk_of_mem_digits hdigits⟩
  have hmarked : IsWord (mark ++ ds) := by
    simp only [List.mem_cons, List.not_mem_nil, or_false] at hmark
    rcases hmark with rfl | rfl | rfl
    · exact hds
    · exact IsWord.append (by decide) hds
    · exact IsWord.append (by decide) hds
  simp only [List.mem_cons, List.not_mem_nil, or_false] at hsign
  rcases hsign with rfl | rfl
  · exact hmarked
  · exact IsWord.append (by decide) hmarked

theorem numeral_iff : Numeral i cs ↔ ∃ n, Magnitude n (splitSign cs).2 ∧
    i = if (splitSign cs).1 then -(n : Int) else n := by
  constructor
  · rintro (@⟨n, _, h⟩ | @⟨n, _, h⟩)
    · have hsplit : splitSign cs = (false, cs) := by
        rw [splitSign.eq_def]
        split
        · -- no magnitude starts with a sign
          exact absurd (magnitude_iff.mp h) (by simp [splitRadix, readNat?, readDigits, digitValue?])
        · rfl
      exact ⟨n, by rwa [hsplit], by simp [hsplit]⟩
    · exact ⟨n, h, rfl⟩
  · rintro ⟨n, h, rfl⟩
    rw [splitSign.eq_def] at h ⊢
    split at h
    · exact .negative h
    · exact .unsigned h

/-! ## Blanks around a numeral -/

/-- A text is its trimmed form between blanks. -/
theorem exists_trim (text : List Char) : ∃ g g', text = g ++ (trim text ++ g') ∧
    (∀ c ∈ g, isBlank c) ∧ ∀ c ∈ g', isBlank c := by
  refine ⟨text.takeWhile isBlank, ((text.dropWhile isBlank).reverse.takeWhile isBlank).reverse, ?_, ?_, ?_⟩
  · rw [trim, ← List.reverse_append, List.takeWhile_append_dropWhile, List.reverse_reverse,
      List.takeWhile_append_dropWhile]
  · exact List.all_eq_true.mp List.all_takeWhile
  · intro c hc
    exact List.all_eq_true.mp List.all_takeWhile c (List.mem_reverse.mp hc)

theorem denotes_iff : Denotes text i ↔ Numeral i (trim text) := by
  constructor
  · rintro ⟨g, cs, g', rfl, hg, hg', h⟩
    rwa [trim_word hg h.isWord hg']
  · intro h
    obtain ⟨g, g', htext, hg, hg'⟩ := exists_trim text
    exact ⟨g, trim text, g', htext, hg, hg', h⟩

theorem int64?_eq_some_iff : int64? i = some v ↔ v.toInt = i := by
  constructor
  · intro h
    rw [int64?] at h
    split at h
    · next hi =>
        obtain rfl := Option.some.inj h
        exact Int64.toInt_ofInt_of_le hi.1 (Int.lt_add_one_of_le hi.2)
    · contradiction
  · rintro rfl
    exact int64?_toInt v

/-- **Reading a text** gives the integer that it denotes, if that fits 64 bits. -/
theorem readInt64?_eq_some_iff : readInt64? text = some v ↔ Denotes text v.toInt := by
  rw [denotes_iff, numeral_iff, readInt64?]
  simp only [Option.bind_eq_some_iff, int64?_eq_some_iff, magnitude_iff]

theorem Denotes.unique (h : Denotes text i) (h' : Denotes text j) : i = j := by
  rw [denotes_iff, numeral_iff] at h h'
  obtain ⟨n, hn, rfl⟩ := h
  obtain ⟨m, hm, rfl⟩ := h'
  rw [magnitude_iff] at hn hm
  obtain rfl := Option.some.inj (hn.symm.trans hm)
  rfl

theorem fitsInt64_toInt (v : Int64) : FitsInt64 v.toInt := ⟨v.le_toInt, Int.le_sub_one_of_lt v.toInt_lt⟩

theorem FitsInt64.exists_toInt (h : FitsInt64 i) : ∃ v : Int64, v.toInt = i :=
  ⟨Int64.ofInt i, Int64.toInt_ofInt_of_le h.1 (Int.lt_of_le_sub_one h.2)⟩

/-! ## What is refused -/

/-- Of the characters of a numeral that are no digits, only the sign and the mark of the radix are there. -/
theorem Denotes.exists_count (h : Denotes text i) : ∃ sign mark, sign ∈ [[], ['-']] ∧
    mark ∈ [[], ['0', 'x'], ['0', 'X']] ∧
    ∀ c, isInk c → digitValue? c = none → text.count c = sign.count c + mark.count c := by
  obtain ⟨g, cs, g', rfl, hg, hg', hnumeral⟩ := h
  obtain ⟨sign, mark, ds, rfl, hsign, hmark, -, hdigits⟩ := hnumeral.exists_parts
  refine ⟨sign, mark, hsign, hmark, ?_⟩
  intro c hink hc
  have hgap : ∀ g : List Char, (∀ c ∈ g, isBlank c) → g.count c = 0 := by
    intro g hg
    exact List.count_eq_zero.mpr fun hmem => not_isBlank_of_isInk hink (hg c hmem)
  have hds : ds.count c = 0 := by
    apply List.count_eq_zero.mpr
    intro hmem
    obtain ⟨d, hd⟩ := hdigits c hmem
    rw [hc] at hd
    contradiction
  simp only [List.count_append, hgap g hg, hgap g' hg', hds, Nat.zero_add, Nat.add_zero]

theorem Denotes.not_flawed (h : Denotes text i) : ¬ Flawed text := by
  obtain ⟨sign, mark, hsign, hmark, hcount⟩ := h.exists_count
  simp only [List.mem_cons, List.not_mem_nil, or_false] at hsign hmark
  rintro (⟨hc, hmem⟩ | hsigns | hmarks | ⟨ha, hb, hc, hsub⟩ | hempty)
  · have hpos := List.count_pos_iff.mpr hmem
    rcases hc with rfl | rfl
    all_goals
      rw [hcount _ (by decide) (by decide)] at hpos
      rcases hsign with rfl | rfl <;> rcases hmark with rfl | rfl | rfl <;> simp at hpos
  · rw [hcount _ (by decide) (by decide)] at hsigns
    rcases hsign with rfl | rfl <;> rcases hmark with rfl | rfl | rfl <;> simp at hsigns
  · rw [hcount _ (by decide) (by decide), hcount _ (by decide) (by decide)] at hmarks
    rcases hsign with rfl | rfl <;> rcases hmark with rfl | rfl | rfl <;> simp at hmarks
  · obtain ⟨g, cs, g', rfl, hg, hg', hnumeral⟩ := h
    exact not_sublist_word hg hnumeral.isWord.2 hg' ha hb hc hsub
  · have htrim := denotes_iff.mp h
    simp only [List.mem_cons, List.not_mem_nil, or_false] at hempty
    rcases hempty with h | h | h | h | h | h <;> rw [h] at htrim
    all_goals
      obtain ⟨n, hn, -⟩ := numeral_iff.mp htrim
      cases magnitude_iff.mp hn

/-- **A text is read as the integer that it denotes**, if that fits 64 bits, and otherwise not at all. It
denotes at most one integer, and a flawed text none. -/
theorem readInt64?_denotes (s : String) :
    (∀ i, (readInt64? s.toList).map Int64.toInt = some i ↔ Denotes s.toList i ∧ FitsInt64 i) ∧
    (∀ i j, Denotes s.toList i → Denotes s.toList j → i = j) ∧
    (Flawed s.toList → readInt64? s.toList = none) := by
  refine ⟨?_, fun i j => Denotes.unique, ?_⟩
  · intro i
    rw [Option.map_eq_some_iff]
    constructor
    · rintro ⟨v, hv, rfl⟩
      exact ⟨readInt64?_eq_some_iff.mp hv, fitsInt64_toInt v⟩
    · rintro ⟨hdenotes, hfits⟩
      obtain ⟨v, rfl⟩ := hfits.exists_toInt
      exact ⟨v, readInt64?_eq_some_iff.mpr hdenotes, rfl⟩
  · intro hflawed
    apply Option.eq_none_iff_forall_ne_some.mpr
    intro v hv
    exact (readInt64?_eq_some_iff.mp hv).not_flawed hflawed

end HalConstants.Text
