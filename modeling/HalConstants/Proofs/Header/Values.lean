import HalConstants.Header.Model
import HalConstants.Proofs.Header.EnumerationLinearScan
import HalConstants.Proofs.Header.Items
import HalConstants.Target.JavaClass

/-!
# Values that are left empty

A value is written as a word, which is not empty, and is cut afterwards: a define loses one layer of parentheses,
an entry one comma. The cut leaves nothing exactly of `()` and of a lone comma, so a model has an empty value
exactly if one of these is written as a value (`values_of_model`).
-/

namespace HalConstants.Header

open Text (isInk IsWord Breaks)

variable {stem : String} {text value body : List Char} {sources : Sources}

/-- An entry as it is written, before its comma is dropped. -/
structure EntryBlock where
  name : List Char
  value : List Char
deriving DecidableEq, Repr

namespace EntryBlock

def ofMatch? (m : Pattern.Match) : Option EntryBlock :=
  match m.texts with
  | [name, _, _, _, value] => some ⟨name, value⟩
  | _ => none

def entry (d : EntryBlock) : Entry := ⟨String.ofList d.name, String.ofList (stripComma d.value)⟩

end EntryBlock

def entryBlocks (body : List Char) : List EntryBlock :=
  (entryPattern.findAll 0 body).filterMap EntryBlock.ofMatch?

theorem entry?_eq (m : Pattern.Match) : entry? m = (EntryBlock.ofMatch? m).map EntryBlock.entry := by
  unfold entry? EntryBlock.ofMatch?
  rcases m.texts with _ | ⟨t, _ | ⟨u, _ | ⟨v, _ | ⟨w, _ | ⟨x, _ | more⟩⟩⟩⟩⟩ <;> rfl

theorem entries_eq_map (body : List Char) : entries body = (entryBlocks body).map EntryBlock.entry := by
  rw [entries, entryBlocks, List.map_filterMap]
  congr 1
  funext m
  exact entry?_eq m

/-! ## Where values are written -/

/-- The block is a comment and a define of the text, and its value runs up to a blank or the end. -/
def PropertyBlock.WrittenIn (b : PropertyBlock) (stem text : List Char) : Prop :=
  ∃ before define after, text = before ++ (opening ++ (b.comment ++ (closing ++ (define ++ after)))) ∧
    Defines stem b.suffix b.value define ∧ Breaks after

/-- The entry is a name of the body with `=` and a value behind it, which runs up to a blank or the end. -/
def EntryBlock.WrittenIn (d : EntryBlock) (body : List Char) : Prop :=
  ∃ before s after, body = before ++ (d.name ++ s) ∧ IsWord d.name ∧ Assigns d.value s after

theorem writtenIn_of_mem_propertyBlocks {stem : List Char} {b : PropertyBlock} (h : b ∈ propertyBlocks stem text) :
    b.WrittenIn stem text := by
  obtain ⟨before, gap, gap', after, htext, -, hgap, hsuffix, hgap', hvalue, hafter⟩ :=
    exists_append_of_mem_propertyBlocks h
  refine ⟨before, _, after, ?_, .intro hgap hsuffix hgap' hvalue, hafter⟩
  simpa only [List.append_assoc] using htext

theorem writtenIn_of_mem_entryBlocks {d : EntryBlock} (h : d ∈ entryBlocks body) : d.WrittenIn body := by
  obtain ⟨m, hm, hd⟩ := List.mem_filterMap.mp h
  obtain ⟨before, s, after, rfl, -, hs⟩ := Pattern.exists_of_mem_findAll hm
  obtain ⟨c, r, rest, us, ⟨rfl, hink⟩, htexts, hsplit, -⟩ := Pattern.begins_of_split?_some hs
  obtain ⟨g, g', value, rfl, hvalue⟩ := assigns_of_split? hsplit
  rw [EntryBlock.ofMatch?, htexts] at hd
  obtain rfl := Option.some.inj hd
  exact ⟨before, rest, after, rfl, ⟨List.cons_ne_nil c r, hink⟩, hvalue⟩

theorem PropertyBlock.WrittenIn.isWord {stem : List Char} {b : PropertyBlock} (h : b.WrittenIn stem text) :
    IsWord b.value := by
  obtain ⟨before, define, after, -, hdefine, -⟩ := h
  cases hdefine with
  | intro hgap hsuffix hgap' hvalue => exact hvalue

theorem EntryBlock.WrittenIn.isWord {d : EntryBlock} (h : d.WrittenIn body) : IsWord d.value := by
  obtain ⟨before, s, after, -, -, hvalue⟩ := h
  cases hvalue with
  | assigns hg hg' hvalue hafter => exact hvalue

/-! ## What the cuts leave -/

theorem dropLast_eq_nil_iff {c : Char} (h : value.getLast? = some c) : value.dropLast = [] ↔ value = [c] := by
  rw [← List.dropLast_append_getLast? c h]
  simp

/-- **Only a pair of parentheses is cut to nothing.** -/
theorem stripParens_eq_nil_iff (h : IsWord value) : stripParens value = [] ↔ value = ['(', ')'] := by
  rw [stripParens.eq_def]
  split
  · next rest =>
      split
      · next hlast =>
          rw [dropLast_eq_nil_iff (beq_iff_eq.mp hlast)]
          simp
      · next hlast =>
          have hrest : rest ≠ [')'] := by
            rintro rfl
            exact hlast rfl
          simp [hrest]
  · next hparen =>
      have hvalue : value ≠ ['(', ')'] := hparen [')']
      simp [h.1, hvalue]

/-- **Only a lone comma is cut to nothing.** -/
theorem stripComma_eq_nil_iff (h : IsWord value) : stripComma value = [] ↔ value = [','] := by
  rw [stripComma]
  split
  · next hlast => exact dropLast_eq_nil_iff (beq_iff_eq.mp hlast)
  · next hlast =>
      have hvalue : value ≠ [','] := by
        rintro rfl
        exact hlast rfl
      simp [h.1, hvalue]

/-! ## The values of a model -/

/-- The property is named and valued as the block is written. -/
structure PropertyBlock.Gives (b : PropertyBlock) (stem : String) (text : List Char) (p : Property) : Prop where
  written : b.WrittenIn stem.toList text
  name : p.name = stem ++ String.ofList b.suffix
  value : p.value = String.ofList (stripParens b.value)
  empty : p.value = "" ↔ b.value = ['(', ')']

/-- The entry is named and valued as the block is written. -/
structure EntryBlock.Gives (d : EntryBlock) (body : List Char) (e : Entry) : Prop where
  written : d.WrittenIn body
  name : e.name = String.ofList d.name
  value : e.value = String.ofList (stripComma d.value)
  empty : e.value = "" ↔ d.value = [',']

structure EnumerationBlock.Gives (b : EnumerationBlock) (e : Enumeration) : Prop where
  name : e.name = String.ofList b.name
  entries : List.Forall₂ (·.Gives b.body) (entryBlocks b.body) e.entries

theorem gives_of_read {b : PropertyBlock} {p : Property} (hb : b ∈ propertyBlocks stem.toList text)
    (h : b.read stem.toList sources = .ok p) : b.Gives stem text p := by
  obtain ⟨items, -, hdescribes⟩ := read_eq_ok_iff.mp h
  have hwritten := writtenIn_of_mem_propertyBlocks hb
  have hvalue : p.value = String.ofList (stripParens b.value) := hdescribes.value
  refine ⟨hwritten, ?_, hvalue, ?_⟩
  · rw [hdescribes.name, PropertyBlock.property, String.ofList_append, String.ofList_toList]
  · rw [hvalue, String.ofList_eq_empty_iff, stripParens_eq_nil_iff hwritten.isWord]

theorem entryBlock_gives {d : EntryBlock} (h : d ∈ entryBlocks body) : d.Gives body d.entry := by
  have hwritten := writtenIn_of_mem_entryBlocks h
  refine ⟨hwritten, rfl, rfl, ?_⟩
  rw [EntryBlock.entry, String.ofList_eq_empty_iff, stripComma_eq_nil_iff hwritten.isWord]

theorem enumerationBlock_gives (b : EnumerationBlock) : b.Gives b.enumeration := by
  refine ⟨rfl, ?_⟩
  rw [EnumerationBlock.enumeration, entries_eq_map, List.forall₂_map_right_iff, List.forall₂_same]
  exact fun d hd => entryBlock_gives hd

/-- **A value is empty exactly if nothing but parentheses or a comma is written.** The properties and entries of
a model are those of the blocks in their order, and no value is empty unless some define has the value `()` or
some entry a lone comma. -/
theorem values_of_model (stem : String) (sources : Sources) (m : Model) (h : model stem sources = .ok m) :
    List.Forall₂ (·.Gives stem sources.text.toList) (propertyBlocks stem.toList sources.text.toList) m.properties ∧
    List.Forall₂ EnumerationBlock.Gives (enumerationBlocks sources.text.toList) m.enumerations ∧
    ((∀ b ∈ propertyBlocks stem.toList sources.text.toList, b.value ≠ ['(', ')']) ↔
      ∀ p ∈ m.properties, p.value ≠ "") ∧
    ((∀ b ∈ enumerationBlocks sources.text.toList, ∀ d ∈ entryBlocks b.body, d.value ≠ [',']) ↔
      ∀ e ∈ m.enumerations, ∀ entry ∈ e.entries, entry.value ≠ "") := by
  obtain ⟨ps, hps, hm⟩ := bind_eq_ok_iff.mp h
  obtain rfl := Except.ok.inj hm
  have hproperties : List.Forall₂ (·.Gives stem sources.text.toList)
      (propertyBlocks stem.toList sources.text.toList) ps := by
    have hread := (List.forall₂_and_left _ _).mpr ⟨fun b hb => hb, mapM_eq_ok_iff.mp hps⟩
    exact hread.imp fun b p ⟨hb, hp⟩ => gives_of_read hb hp
  have henumerations : List.Forall₂ EnumerationBlock.Gives (enumerationBlocks sources.text.toList)
      (enumerations sources.text) := by
    rw [enumerations_eq_map, List.forall₂_map_right_iff, List.forall₂_same]
    exact fun b _ => enumerationBlock_gives b
  refine ⟨hproperties, henumerations, ?_, ?_⟩
  · exact forall_mem_iff_of_forall₂ hproperties fun b p hp => not_congr hp.empty.symm
  · apply forall_mem_iff_of_forall₂ henumerations
    intro b e he
    exact forall_mem_iff_of_forall₂ he.entries fun d entry hentry => not_congr hentry.empty.symm

/-- Parentheses and commas that are cut, but not to nothing. -/
def punctuation : Sources :=
  ⟨[⟨"vehicle.h", "/** a */\n#define P_A (())\n/** b */\n#define P_B )(\nenum e \x7b X = ,, Y=(,) \x7d;\n"⟩]⟩

theorem values_of_model_punctuation :
    model "P_" punctuation = .ok {
      properties := [{ name := "P_A", value := "()" }, { name := "P_B", value := ")(" }]
      enumerations := [⟨"e", [⟨"X", ","⟩, ⟨"Y", "(,)"⟩]⟩] } ∧
    ∀ b ∈ propertyBlocks "P_".toList punctuation.text.toList, b.value ≠ ['(', ')'] := by
  have hmodel : model "P_" punctuation = .ok {
      properties := [{ name := "P_A", value := "()" }, { name := "P_B", value := ")(" }]
      enumerations := [⟨"e", [⟨"X", ","⟩, ⟨"Y", "(,)"⟩]⟩] } := by decide +kernel
  obtain ⟨-, -, hvalues, -⟩ := values_of_model "P_" punctuation _ hmodel
  refine ⟨hmodel, hvalues.mpr ?_⟩
  decide

/-- A pair of parentheses and a lone comma are declared without a value. -/
theorem values_left_empty :
    model "VEHICLE_PROPERTY_" ⟨[⟨"vehicle.h",
      "/** a */\n#define VEHICLE_PROPERTY_A ()\nenum e \x7b X = , \x7d;\n"⟩]⟩ = .ok {
        properties := [{ name := "VEHICLE_PROPERTY_A", value := "" }], enumerations := [⟨"e", [⟨"X", ""⟩]⟩] } ∧
    (Java.Constant.mk "VEHICLE_PROPERTY_A" "").fragment =
      .line "public static final int VEHICLE_PROPERTY_A = ;" := by
  have hmodel : model "VEHICLE_PROPERTY_" ⟨[⟨"vehicle.h",
      "/** a */\n#define VEHICLE_PROPERTY_A ()\nenum e \x7b X = , \x7d;\n"⟩]⟩ = .ok {
        properties := [{ name := "VEHICLE_PROPERTY_A", value := "" }], enumerations := [⟨"e", [⟨"X", ""⟩]⟩] } := by
    decide +kernel
  exact ⟨hmodel, rfl⟩

end HalConstants.Header
