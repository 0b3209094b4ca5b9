import HalConstants.Header.Property
import HalConstants.Header.Stem
import HalConstants.Proofs.Pattern.Matches
import HalConstants.Proofs.Text.Occurrence
import HalConstants.Proofs.Text.Words

/-!
# Where property blocks stand

A property block starts at `opening`, and its comment ends at the first `closing` that a matching define
follows. `Closes` says that it ends at the start of a text, and the pattern agrees
(`split?_definePattern`, `closes_of_split?`). `split?_propertyPattern` reads a block whose parts are given;
`exists_append_of_mem_propertyBlocks` takes a block that was found apart again.
-/

namespace HalConstants.Header

open Text (byteLength isBlank isInk IsWord IsGap Breaks)

variable {stem text comment gap suffix gap' value define after cs before : List Char}

/-- What opens a documentation comment. -/
def opening : List Char := ['/', '*', '*']

/-- What stands between a documentation comment and the name of its define. -/
def closing : List Char := "*/\n#define".toList

/-- The define of a property behind the word `#define`: blanks, the name, which is the stem and a suffix,
blanks, and the value. -/
inductive Defines (stem suffix value : List Char) : List Char → Prop
  | intro {gap gap' : List Char} (hgap : IsGap gap) (hsuffix : IsWord suffix) (hgap' : IsGap gap')
      (hvalue : IsWord value) :
      Defines stem suffix value (gap ++ (stem ++ (suffix ++ (gap' ++ value))))

/-- `cs` starts with the end of a comment and the define of a property, whose value runs up to the next
blank. -/
def Closes (stem cs : List Char) : Prop :=
  ∃ suffix value define after, cs = closing ++ (define ++ after) ∧
    Defines stem suffix value define ∧ Breaks after

theorem isInk_of_isAlphanum {c : Char} (h : c.isAlphanum) : isInk c := by
  have hclass : (decide ('A'.val ≤ c.val ∧ c.val ≤ 'Z'.val) ||
      (decide ('a'.val ≤ c.val) && decide (c.val ≤ 'z'.val)) ||
      (decide ('0'.val ≤ c.val) && decide (c.val ≤ '9'.val))) = true := h
  simp only [Bool.or_eq_true, Bool.and_eq_true, decide_eq_true_eq, UInt32.le_iff_toNat_le] at hclass
  change ((65 ≤ c.toNat ∧ c.toNat ≤ 90) ∨ (97 ≤ c.toNat ∧ c.toNat ≤ 122)) ∨
    (48 ≤ c.toNat ∧ c.toNat ≤ 57) at hclass
  apply Text.isInk_of_ascii <;> omega

theorem isWord_of_isStem (h : isStem stem) : IsWord stem := by
  simp only [isStem, Bool.and_eq_true, Bool.not_eq_true', List.isEmpty_eq_false_iff,
    List.all_eq_true, Bool.or_eq_true, beq_iff_eq] at h
  obtain ⟨hne, hall⟩ := h
  refine ⟨hne, ?_⟩
  intro c hc
  rcases hall c hc with halnum | rfl
  · exact isInk_of_isAlphanum halnum
  · decide

theorem consumes_propertyPattern : (propertyPattern stem).Consumes :=
  Pattern.consumes_text (by simp)

theorem split?_propertyPattern_eq_none (h : ¬ opening <+: cs) :
    (propertyPattern stem).split? cs = none :=
  Pattern.split?_text_eq_none h

/-- No block starts in a text without an opening, also with a block behind it. -/
theorem split?_propertyPattern_front {front r s : List Char} (hfront : ¬ opening <:+: front)
    (hrs : front = r ++ s) (hs : s ≠ []) (cs : List Char) :
    (propertyPattern stem).split? (s ++ (opening ++ cs)) = none :=
  split?_propertyPattern_eq_none
    (Text.not_prefix_append_cons (c := '/') (n := ['*', '*']) (by decide) hfront hrs hs)

/-! ## The end of a comment -/

/-- The pieces of the pattern from the end of the comment on. -/
def definePattern (stem : List Char) : Pattern :=
  [.text closing, .some isBlank .longest, .text stem, .some isInk .longest, .some isBlank .longest,
    .some isInk .longest]

theorem split?_definePattern (hstem : IsWord stem) (hgap : IsGap gap) (hsuffix : IsWord suffix)
    (hgap' : IsGap gap') (hvalue : IsWord value) (hafter : Breaks after) :
    (definePattern stem).split?
        (closing ++ (gap ++ (stem ++ (suffix ++ (gap' ++ (value ++ after)))))) =
      some ([closing, gap, stem, suffix, gap', value], after) := by
  refine Pattern.split?_text ?_
  refine Pattern.split?_some_longest hgap.1 hgap.2 hstem.head_append ?_
  refine Pattern.split?_text ?_
  refine Pattern.split?_some_longest hsuffix.1 hsuffix.2 hgap'.breaks_append.head_ink ?_
  refine Pattern.split?_some_longest hgap'.1 hgap'.2 hvalue.head_append ?_
  exact Pattern.split?_some_longest hvalue.1 hvalue.2 hafter.head_ink rfl

/-- Where the pattern finds the end of a comment there is one. -/
theorem closes_of_split? {texts : List (List Char)}
    (h : (definePattern stem).split? cs = some (texts, after)) : Closes stem cs := by
  have hcs := Pattern.eq_flatten_append_of_split? h
  have hfits := Pattern.fits_of_split? h
  simp only [definePattern, List.forall₂_cons_left_iff, List.forall₂_nil_left_iff, Piece.Fits]
    at hfits
  obtain ⟨_, _, rfl, ⟨gap, _, hgap, ⟨_, _, rfl, ⟨suffix, _, hsuffix, ⟨gap', _, hgap', ⟨value, _,
    hvalue, rfl, rfl⟩, rfl⟩, rfl⟩, rfl⟩, rfl⟩, rfl⟩ := hfits
  -- the value may run on behind the match
  refine ⟨suffix, value ++ after.takeWhile isInk, _, after.dropWhile isInk, ?_,
    .intro hgap hsuffix hgap' (IsWord.append_takeWhile hvalue after), Text.breaks_dropWhile⟩
  rw [hcs]
  simp only [List.flatten_cons, List.flatten_nil, List.append_nil, List.append_assoc,
    List.takeWhile_append_dropWhile]

/-- **A block is read in the parts it is written in**, if nothing closes its comment earlier. -/
theorem split?_propertyPattern_of_first (hstem : IsWord stem) (hgap : IsGap gap)
    (hsuffix : IsWord suffix) (hgap' : IsGap gap') (hvalue : IsWord value) (hafter : Breaks after)
    (hfirst : ∀ r s, comment ++ (closing ++ (gap ++ (stem ++ (suffix ++ (gap' ++ (value ++ after)))))) =
      r ++ s → r.length < comment.length → ¬ Closes stem s) :
    (propertyPattern stem).split? (opening ++ (comment ++ (closing ++ (gap ++ (stem ++ (suffix ++
      (gap' ++ (value ++ after)))))))) =
      some ([opening, comment, closing, gap, stem, suffix, gap', value], after) := by
  refine Pattern.split?_text ?_
  refine Pattern.split?_many_shortest (by simp)
    (split?_definePattern hstem hgap hsuffix hgap' hvalue hafter) ?_
  intro r s heq hlt
  apply Option.eq_none_iff_forall_ne_some.mpr
  rintro ⟨texts, after'⟩ h
  exact hfirst r s heq hlt (closes_of_split? h)

theorem split?_propertyPattern (hstem : IsWord stem) (hcomment : ¬ closing <:+: comment)
    (hgap : IsGap gap) (hsuffix : IsWord suffix) (hgap' : IsGap gap') (hvalue : IsWord value)
    (hafter : Breaks after) :
    (propertyPattern stem).split? (opening ++ (comment ++ (closing ++ (gap ++ (stem ++ (suffix ++
      (gap' ++ (value ++ after)))))))) =
      some ([opening, comment, closing, gap, stem, suffix, gap', value], after) := by
  refine split?_propertyPattern_of_first hstem hgap hsuffix hgap' hvalue hafter ?_
  -- an earlier end of the comment would need another `closing`
  rintro r s heq hlt ⟨_, _, define, after', rfl, -, -⟩
  obtain ⟨m, hne, hm, hrest⟩ := Pattern.exists_append_of_length_lt heq hlt
  refine Text.not_prefix_append_cons (c := '*') (n := "/\n#define".toList) (by decide) hcomment hm
    hne (z := ("/\n#define".toList ++ (gap ++ (stem ++ (suffix ++ (gap' ++ (value ++ after))))))) ?_
  exact ⟨define ++ after', hrest⟩

/-- The pieces of the pattern in front of the value. -/
def frontPattern (stem : List Char) : Pattern :=
  [.text opening, .many (fun _ => true) .shortest, .text closing, .some isBlank .longest, .text stem,
    .some isInk .longest, .some isBlank .longest]

theorem exists_append_of_mem_propertyBlocks {b : PropertyBlock} (h : b ∈ propertyBlocks stem text) :
    ∃ before gap gap' after, text = before ++ (opening ++ (b.comment ++ (closing ++ (gap ++ (stem ++
      (b.suffix ++ (gap' ++ (b.value ++ after)))))))) ∧ b.start = byteLength (before ++ opening) ∧
      IsGap gap ∧ IsWord b.suffix ∧ IsGap gap' ∧ IsWord b.value ∧ Breaks after := by
  obtain ⟨m, hm, hb⟩ := List.mem_filterMap.mp h
  obtain ⟨before, s, after, rfl, hstart, hs⟩ := Pattern.exists_of_mem_findAll hm
  have htext := Pattern.eq_flatten_append_of_split? hs
  have hfits := Pattern.fits_of_split? hs
  have hafter : Breaks after := fun c hc =>
    Text.isInk_eq_false_iff.mp (Pattern.head_of_split?_append_some (p := frontPattern stem) hs c hc)
  simp only [PropertyBlock.ofMatch?] at hb
  split at hb
  · next o comment c gap st suffix gap' value heq =>
      obtain rfl := Option.some.inj hb
      rw [heq] at htext hfits
      simp only [propertyPattern, List.forall₂_cons, Piece.Fits] at hfits
      obtain ⟨rfl, -, rfl, hgap, rfl, hsuffix, hgap', hvalue, -⟩ := hfits
      refine ⟨before, gap, gap', after, ?_, ?_, hgap, hsuffix, hgap', hvalue, hafter⟩
      · rw [htext]
        simp only [List.flatten_cons, List.flatten_nil, List.append_nil, List.append_assoc]
        rfl
      · rw [hstart, Text.byteLength_append, Nat.zero_add]
        rfl
  · contradiction

end HalConstants.Header
