import HalConstants.Proofs.Header.EnumerationWriting
import HalConstants.Proofs.Pattern.Sweep

/-!
# The linear scan for enumerations

The pattern of an enumeration gives way in its glued ink, the one of an entry in its name, and how far depends
on what stands behind. `EnumerationStands` and `EntryStands` say in closed form what they end up with: the body
starts behind the glued ink if a closing brace stands there and is empty otherwise, and the name of an entry is
the longest ink that an `=` and a value follow. `enumerations_scan` says that extraction finds what `Sweep` finds
of these, in the text and in every body.
-/

namespace HalConstants.Header

open Text (isBlank isInk IsWord IsGap Breaks)

variable {cs s value body after : List Char} {texts : List (List Char)} {e : Entry}
  {es : List (Found Entry)} {block : Enumeration} {blocks : List (Found Enumeration)}

/-! ## Entries -/

/-- An `=` and a value stand at the start of a text, blanks or none around the `=`; the value is as long as
ink goes. -/
inductive Assigns (value : List Char) : List Char → List Char → Prop
  | assigns {g g' after : List Char} (hg : ∀ c ∈ g, isBlank c) (hg' : ∀ c ∈ g', isBlank c)
      (hvalue : IsWord value) (hafter : Breaks after) :
      Assigns value (g ++ (['='] ++ (g' ++ (value ++ after)))) after

/-- Some ink at the start of a text is followed by an `=` and a value. -/
def EntryStarts (cs : List Char) : Prop :=
  ∃ name s value after, cs = name ++ s ∧ IsWord name ∧ Assigns value s after

/-- An entry stands at the start of a text: no longer ink than its name is followed by an `=` and a value. -/
inductive EntryStands : List Char → Entry → List Char → Prop
  | entry {name value s after : List Char} (hname : IsWord name) (hvalue : Assigns value s after)
      (hlongest : ∀ name' s' value' after', name ++ s = name' ++ s' → IsWord name' →
        Assigns value' s' after' → name'.length ≤ name.length) :
      EntryStands (name ++ s) ⟨String.ofList name, String.ofList (stripComma value)⟩ after

/-- The entries of a body, found from left to right. -/
def EntryScan (body : List Char) (es : List (Found Entry)) : Prop :=
  Sweep EntryStarts EntryStands 0 body es

theorem split?_of_assigns (h : Assigns value s after) :
    ∃ g g', equalsPattern.split? s = some ([g, ['='], g', value], after) := by
  cases h with
  | assigns hg hg' hvalue hafter => exact ⟨_, _, split?_equalsPattern hg hg' hvalue hafter⟩

theorem assigns_of_split? (h : equalsPattern.split? s = some (texts, after)) :
    ∃ g g' value, texts = [g, ['='], g', value] ∧ Assigns value s after := by
  have hfits := Pattern.fits_of_split? h
  have hs := Pattern.eq_flatten_append_of_split? h
  simp only [equalsPattern, List.forall₂_cons_left_iff, List.forall₂_nil_left_iff, Piece.Fits] at hfits
  obtain ⟨g, _, hg, ⟨_, _, rfl, ⟨g', _, hg', ⟨value, _, hvalue, rfl, rfl⟩, rfl⟩, rfl⟩, rfl⟩ := hfits
  -- ink behind the value would be a part of it
  have hcut : after = after.takeWhile isInk ++ after.dropWhile isInk :=
    List.takeWhile_append_dropWhile.symm
  have hlonger : equalsPattern.split?
      (g ++ (['='] ++ (g' ++ (value ++ after.takeWhile isInk ++ after.dropWhile isInk)))) = _ :=
    split?_equalsPattern hg hg' (IsWord.append_takeWhile hvalue after) Text.breaks_dropWhile
  rw [List.append_assoc, ← hcut] at hlonger
  simp only [List.flatten_cons, List.flatten_nil, List.append_nil, List.append_assoc] at hs
  rw [hs, hlonger] at h
  have hafter : after.dropWhile isInk = after := congrArg Prod.snd (Option.some.inj h)
  refine ⟨g, g', value, rfl, ?_⟩
  rw [hs]
  exact .assigns hg hg' hvalue (hafter ▸ Text.breaks_dropWhile)

theorem entryStands_of_split? (h : entryPattern.split? cs = some (texts, after)) :
    ∃ e, EntryStands cs e after := by
  obtain ⟨c, r, s, us, ⟨rfl, hink⟩, rfl, hsplit, hlongest⟩ := Pattern.begins_of_split?_some h
  obtain ⟨g, g', value, rfl, hvalue⟩ := assigns_of_split? hsplit
  refine ⟨_, .entry ⟨by simp, hink⟩ hvalue ?_⟩
  intro name' s' value' after' heq hname' hvalue'
  by_contra hlt
  obtain ⟨d, r', rfl⟩ := List.exists_cons_of_ne_nil hname'.1
  obtain ⟨_, _, hsplit'⟩ := split?_of_assigns hvalue'
  have hnone := hlongest d r' s' ⟨heq, hname'.2⟩ (Nat.lt_of_not_le hlt)
  exact absurd (hsplit'.symm.trans hnone) (by simp)

theorem split?_of_entryStands (pos : Nat) (h : EntryStands cs e after) :
    ∃ texts, entryPattern.split? cs = some (texts, after) ∧ entry? ⟨pos, texts⟩ = some e := by
  cases h with
  | @entry name value s after hname hvalue hlongest =>
      obtain ⟨g, g', hsplit⟩ := split?_of_assigns hvalue
      refine ⟨_, Pattern.split?_some_of_max hname.1 hname.2 hsplit ?_, rfl⟩
      rintro m s' rfl hne hm
      apply Option.eq_none_iff_forall_ne_some.mpr
      rintro ⟨us, after'⟩ hsplit'
      obtain ⟨_, _, value', rfl, hvalue'⟩ := assigns_of_split? hsplit'
      -- the ink in front of the other `=` would be a longer name
      have hword : IsWord (name ++ m) := hname.append ⟨hne, hm⟩
      have hle := hlongest (name ++ m) s' value' after' (List.append_assoc name m s').symm hword hvalue'
      have hpos := List.length_pos_iff.mpr hne
      rw [List.length_append] at hle
      omega

theorem recognizes_entryPattern : entryPattern.Recognizes entry? EntryStarts EntryStands where
  consumes := consumes_entryPattern
  starts h := by
    obtain ⟨e, hstands⟩ := entryStands_of_split? h
    cases hstands with
    | entry hname hvalue => exact ⟨_, _, _, _, rfl, hname, hvalue⟩
  stands h := by
    obtain ⟨name, s, value, after, rfl, hname, hvalue⟩ := h
    obtain ⟨g, g', hsplit⟩ := split?_of_assigns hvalue
    -- the pattern matches, but perhaps with a longer name
    obtain ⟨⟨texts, after'⟩, hmatch⟩ := Pattern.exists_split?_some hname.1 hname.2 hsplit
    obtain ⟨e, hstands⟩ := entryStands_of_split? hmatch
    exact ⟨e, after', hstands⟩
  split := split?_of_entryStands

theorem entryScan_iff :
    EntryScan body es ↔ es = (entryPattern.findAll 0 body).filterMap (Found.ofMatch? entry?) :=
  recognizes_entryPattern.sweep_iff

theorem EntryScan.entries_eq (h : EntryScan body es) : entries body = es.map Found.what := by
  rw [entryScan_iff.mp h, Found.map_what, entries]

/-! ## Enumerations -/

/-- The head of an enumeration: the keyword, a name and an opening brace with gaps between them. -/
inductive IsHead (name : List Char) : List Char → Prop
  | head {gap gap' : List Char} (hgap : IsGap gap) (hname : IsWord name) (hgap' : IsGap gap') :
      IsHead name (keyword ++ (gap ++ (name ++ (gap' ++ [openBrace]))))

/-- A head stands at the start of a text, and a closing brace somewhere behind it. -/
def EnumerationStarts (cs : List Char) : Prop :=
  ∃ name head tail, cs = head ++ tail ∧ IsHead name head ∧ closeBrace ∈ tail

/-- An enumeration stands at the start of a text: a head and a body, behind the glued ink, with its entries. -/
inductive EnumerationStands : List Char → Enumeration → List Char → Prop
  | enumeration {name head tail glued body after : List Char} {es : List (Found Entry)}
      (hhead : IsHead name head) (hbody : TakesBody tail glued body after) (hentries : EntryScan body es) :
      EnumerationStands (head ++ tail) ⟨String.ofList name, es.map Found.what⟩ after

/-- The enumerations of a text, found from left to right. -/
def EnumerationScan (text : List Char) (blocks : List (Found Enumeration)) : Prop :=
  Sweep EnumerationStarts EnumerationStands 0 text blocks

theorem enumerationStarts_of_split? (h : enumerationPattern.split? cs = some (texts, after)) :
    EnumerationStarts cs := by
  obtain ⟨gap, name, gap', glued, body, tail, -, rfl, hgap, hname, hgap', htail⟩ :=
    exists_append_of_split? h
  refine ⟨name, _, tail, rfl, .head hgap hname hgap', ?_⟩
  rw [Pattern.eq_flatten_append_of_split? htail]
  simp

theorem split?_of_enumerationStands (pos : Nat) (h : EnumerationStands cs block after) :
    ∃ texts, enumerationPattern.split? cs = some (texts, after) ∧
      enumeration? ⟨pos, texts⟩ = some block := by
  cases h with
  | @enumeration name _ _ _ body _ _ hhead hbody hentries =>
      cases hhead with
      | head hgap hname hgap' =>
          have hsplit := split?_enumerationPattern hgap hname hgap' (split?_of_takesBody hbody)
          refine ⟨_, by simpa only [List.append_assoc] using hsplit, ?_⟩
          show some (Enumeration.mk (String.ofList name) (entries body)) = _
          rw [hentries.entries_eq]

theorem recognizes_enumerationPattern :
    enumerationPattern.Recognizes enumeration? EnumerationStarts EnumerationStands where
  consumes := consumes_enumerationPattern
  starts := enumerationStarts_of_split?
  stands h := by
    obtain ⟨name, head, tail, rfl, hhead, hclose⟩ := h
    obtain ⟨glued, body, after, hbody⟩ := exists_takesBody hclose
    exact ⟨_, after, .enumeration hhead hbody (entryScan_iff.mpr rfl)⟩
  split := split?_of_enumerationStands

theorem enumerationScan_iff : EnumerationScan cs blocks ↔
    blocks = (enumerationPattern.findAll 0 cs).filterMap (Found.ofMatch? enumeration?) :=
  recognizes_enumerationPattern.sweep_iff

/-- **Extraction is the linear scan.** There is exactly one scan of a text for enumerations and one of a body
for entries; extraction finds what they find, in their order, and nothing that is found overlaps. -/
theorem enumerations_scan (text : String) :
    ∃ blocks, (∀ blocks', EnumerationScan text.toList blocks' ↔ blocks' = blocks) ∧
      enumerations text = blocks.map Found.what ∧
      blocks.Pairwise (fun b c => b.last ≤ c.first) ∧
      ∀ body, ∃ es, (∀ es', EntryScan body es' ↔ es' = es) ∧
        entries body = es.map Found.what ∧
        es.Pairwise fun d e => d.last ≤ e.first := by
  have hscan : EnumerationScan text.toList _ := enumerationScan_iff.mpr rfl
  refine ⟨_, fun _ => enumerationScan_iff, ?_, Sweep.pairwise hscan, ?_⟩
  · rw [Found.map_what, enumerations]
  · intro body
    have hentries : EntryScan body _ := entryScan_iff.mpr rfl
    exact ⟨_, fun _ => entryScan_iff, hentries.entries_eq, Sweep.pairwise hentries⟩

example : enumerations "enum a \x7bx\x7dy b==c=d,\n\x7d" = [⟨"a", [⟨"b==c", "d"⟩]⟩] := by
  decide +kernel

end HalConstants.Header
