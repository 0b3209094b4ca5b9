import HalConstants.Proofs.Header.Values
import HalConstants.Proofs.Target.JavaLines

/-!
# The strings of a model

Every string of a model is cut out of a run of ink: the suffix and the value of a define, the words of a comment,
the names and values of an enumeration. So none of them holds a blank, and what is cut out of a body holds no
closing brace. Only the stem is taken as it is given. A generated document has the lines in which it was laid out
exactly if the stem has no line break, or stands in no name.
-/

namespace HalConstants

/-- A text without blanks that is not empty. -/
structure IsSolid (s : String) : Prop where
  ne_empty : s ≠ ""
  blankFree : BlankFree s

theorem IsSolid.isLine {s : String} (h : IsSolid s) : IsLine s := h.blankFree.isLine

namespace Header

open Text (isInk IsWord)

variable {cs value body : List Char} {stem : String} {sources : Sources} {m : Model} {e : Enumeration}

structure ExtractedProperty (stem : String) (p : Property) : Prop where
  name : ∃ suffix, IsSolid suffix ∧ p.name = stem ++ suffix
  value : BlankFree p.value
  valueType : ∀ t ∈ p.valueType, IsSolid t
  changeMode : ∀ t ∈ p.changeMode, IsSolid t
  access : ∀ t ∈ p.access, IsSolid t
  unit : ∀ t ∈ p.unit, IsSolid t

structure ExtractedEntry (e : Entry) : Prop where
  name : IsSolid e.name
  value : BlankFree e.value
  unclosed : closeBrace ∉ e.name.toList ∧ closeBrace ∉ e.value.toList

structure ExtractedEnumeration (e : Enumeration) : Prop where
  name : IsSolid e.name
  entries : ∀ entry ∈ e.entries, ExtractedEntry entry

structure ExtractedModel (stem : String) (m : Model) : Prop where
  properties : ∀ p ∈ m.properties, ExtractedProperty stem p
  enumerations : ∀ e ∈ m.enumerations, ExtractedEnumeration e

/-! ## Cut out of ink -/

theorem isSolid_of_isWord (h : IsWord cs) : IsSolid (String.ofList cs) := by
  constructor
  · rw [Ne, String.ofList_eq_empty_iff]
    exact h.1
  · intro c hc
    rw [String.toList_ofList] at hc
    exact h.2 c hc

theorem blankFree_of_subset (h : cs ⊆ value) (hvalue : IsWord value) : BlankFree (String.ofList cs) := by
  intro c hc
  rw [String.toList_ofList] at hc
  exact hvalue.2 c (h hc)

theorem stripParens_subset (value : List Char) : stripParens value ⊆ value := by
  unfold stripParens
  split
  · next rest =>
      split
      · exact fun c hc => .tail _ (List.dropLast_subset rest hc)
      · exact List.Subset.refl _
  · exact List.Subset.refl value

theorem stripComma_subset (value : List Char) : stripComma value ⊆ value := by
  unfold stripComma
  split
  · exact List.dropLast_subset value
  · exact List.Subset.refl value

/-! ## Properties -/

/-- The words of a comment are words. -/
theorem isWord_of_mem_words {b : PropertyBlock} {w : Text.Word} (h : w ∈ b.words) : IsWord w.text := by
  obtain ⟨_, _, -, -, hword⟩ := Text.exists_append_of_mem_wordsFrom h
  exact hword

theorem isSolid_of_lastValue? {b : PropertyBlock} {items : List Item} {k : AnnotationKey} {t : String}
    (hitems : Splits items b.words) (h : lastValue? k items = some t) : IsSolid t := by
  obtain ⟨i, hi, hvalue⟩ := List.mem_filterMap.mp (List.mem_of_getLast? h)
  cases i with
  | other w => contradiction
  | keyed a =>
      rw [Item.valueOf?] at hvalue
      split at hvalue
      · obtain ⟨w, hw, rfl⟩ := Option.map_eq_some_iff.mp hvalue
        have hword : w ∈ b.words := by
          rw [← hitems.words]
          refine List.mem_flatMap.mpr ⟨.keyed a, hi, ?_⟩
          show w ∈ a.word :: a.value.toList
          rw [hw]
          exact .tail a.word (.head [])
        exact isSolid_of_isWord (isWord_of_mem_words hword)
      · contradiction

theorem extractedProperty_of_read {b : PropertyBlock} {p : Property} {text : List Char}
    (hb : b ∈ propertyBlocks stem.toList text) (h : b.read stem.toList sources = .ok p) :
    ExtractedProperty stem p := by
  have hgives := gives_of_read hb h
  have hsuffix : IsWord b.suffix := by
    obtain ⟨_, _, _, -, hdefine, -⟩ := hgives.written
    cases hdefine with
    | intro hgap hsuffix hgap' hvalue => exact hsuffix
  obtain ⟨items, hitems, hdescribes⟩ := read_eq_ok_iff.mp h
  have hfacts (k : AnnotationKey) : ∀ t ∈ factOf? p k, IsSolid t := by
    have hunstated : factOf? (b.property stem.toList) k = none := by
      cases k <;> rfl
    intro t ht
    rw [hdescribes.facts, hunstated, Option.or_none] at ht
    exact isSolid_of_lastValue? hitems ht
  constructor
  · exact ⟨String.ofList b.suffix, isSolid_of_isWord hsuffix, hgives.name⟩
  · rw [hgives.value]
    exact blankFree_of_subset (stripParens_subset b.value) hgives.written.isWord
  · exact hfacts .valueType
  · exact hfacts .changeMode
  · exact hfacts .access
  · exact hfacts .unit

/-! ## Enumerations -/

theorem closeBrace_notMem_body {glued after : List Char} (h : TakesBody cs glued body after) :
    closeBrace ∉ body := by
  cases h with
  | behind hink hbreaks hbody => exact hbody
  | inside hink hbreaks hmore hrest => exact List.not_mem_nil

theorem extractedEntry_of_mem {d : EntryBlock} (hd : d ∈ entryBlocks body) (hbody : closeBrace ∉ body) :
    ExtractedEntry d.entry := by
  obtain ⟨before, s, after, rfl, hname, hassigns⟩ := writtenIn_of_mem_entryBlocks hd
  cases hassigns with
  | @assigns g g' after hg hg' hvalue hafter =>
      simp only [List.mem_append, not_or] at hbody
      obtain ⟨-, hnotName, -, -, -, hnotValue, -⟩ := hbody
      constructor
      · exact isSolid_of_isWord hname
      · exact blankFree_of_subset (stripComma_subset d.value) hvalue
      · unfold EntryBlock.entry
        rw [String.toList_ofList, String.toList_ofList]
        exact ⟨hnotName, fun hmem => hnotValue (stripComma_subset d.value hmem)⟩

theorem extractedEnumeration_of_mem {text : List Char} {b : EnumerationBlock} (h : b ∈ enumerationBlocks text) :
    ExtractedEnumeration b.enumeration := by
  obtain ⟨_, _, _, _, _, -, -, -, -, hname, -, hbody⟩ := exists_append_of_mem_enumerationBlocks h
  have hunclosed := closeBrace_notMem_body (split?_bodyPattern_iff.mp hbody)
  constructor
  · exact isSolid_of_isWord hname
  · unfold EnumerationBlock.enumeration
    rw [entries_eq_map, List.forall_mem_map]
    exact fun d hd => extractedEntry_of_mem hd hunclosed

/-- **Whatever the stem**, the strings of a model are cut out of ink. -/
theorem extractedModel_of_model (h : model stem sources = .ok m) : ExtractedModel stem m := by
  obtain ⟨ps, hps, hm⟩ := bind_eq_ok_iff.mp h
  obtain rfl := Except.ok.inj hm
  constructor
  · intro p hp
    obtain ⟨b, hb, hread⟩ := exists_of_mem_of_forall₂ (mapM_eq_ok_iff.mp hps) hp
    exact extractedProperty_of_read hb hread
  · show ∀ e ∈ enumerations sources.text, ExtractedEnumeration e
    rw [enumerations_eq_map, List.forall_mem_map]
    exact fun b hb => extractedEnumeration_of_mem hb

/-! ## Lines -/

theorem ExtractedProperty.isLines {p : Property} (h : ExtractedProperty stem p) (hstem : IsLine stem) :
    Java.PropertyIsLines p := by
  obtain ⟨suffix, hsuffix, hname⟩ := h.name
  refine ⟨?_, h.value.isLine, fun t ht => (h.valueType t ht).isLine, fun t ht => (h.changeMode t ht).isLine,
    fun t ht => (h.access t ht).isLine⟩
  rw [hname]
  exact isLine_append hstem hsuffix.isLine

theorem ExtractedEnumeration.isLines (h : ExtractedEnumeration e) : Java.EnumerationIsLines e :=
  ⟨h.name.isLine, fun entry hentry => ⟨(h.entries entry hentry).name.isLine, (h.entries entry hentry).value.isLine⟩⟩

theorem ExtractedModel.isLines (h : ExtractedModel stem m) (hstem : IsLine stem ∨ m.properties = []) :
    Java.ModelIsLines m := by
  constructor
  · intro p hp
    rcases hstem with hstem | hnone
    · exact (h.properties p hp).isLines hstem
    · rw [hnone] at hp
      contradiction
  · exact fun e he => (h.enumerations e he).isLines

/-- A line break of the stem breaks the line of every constant. -/
theorem ExtractedProperty.isLine_stem {p : Property} (h : ExtractedProperty stem p) (hname : IsLine p.name) :
    IsLine stem := by
  obtain ⟨suffix, -, heq⟩ := h.name
  intro hmem
  apply hname
  rw [heq, String.toList_append]
  exact List.mem_append_left suffix.toList hmem

/-- **Only the stem can break a line** of a generated document. -/
theorem linesOf_document_iff {o : Java.Options} (ho : Java.OptionsAreLines o) (h : ExtractedModel stem m) :
    linesOf (Java.document o m).text = Java.layout.linesOfAll 0 (Java.fragments o m) ++ [""] ↔
      IsLine stem ∨ m.properties = [] := by
  show linesOf (Java.layout.render (Java.fragments o m)) = _ ↔ _
  rw [linesOf_render_iff]
  constructor
  · intro hlines
    cases hps : m.properties with
    | nil => exact .inr rfl
    | cons p ps =>
        have hp : p ∈ m.properties := hps ▸ .head ps
        have hline := hlines _ (Java.constantLine_mem o hp)
        exact .inl ((h.properties p hp).isLine_stem (Java.isLine_name_of_constantLine hline))
  · intro hstem
    exact isLine_linesOfAll (Java.plain_fragments_of_isLines ho (h.isLines hstem))

/-- **The strings of a model are solid.** Names, values and facts that are extracted have no blanks, those of an
entry no closing brace either, and only a line break of the stem can break a line of the generated document. -/
theorem strings_of_model (stem : String) (sources : Sources) (m : Model) (h : model stem sources = .ok m) :
    ExtractedModel stem m ∧
    ∀ o, Java.OptionsAreLines o →
      (linesOf (Java.document o m).text = Java.layout.linesOfAll 0 (Java.fragments o m) ++ [""] ↔
        IsLine stem ∨ m.properties = []) :=
  ⟨extractedModel_of_model h, fun _ ho => linesOf_document_iff ho (extractedModel_of_model h)⟩

/-- A stem with a bar, values in parentheses, and a comma behind a value. -/
def solidText : Sources :=
  ⟨[⟨"vehicle.h", "/** @unit m/s */\n#define P|A\t(1)\nenum e \x7b X = 1,Y= 2, \x7d;\n"⟩]⟩

theorem optionsAreLines : Java.OptionsAreLines { year := 2017 } := by
  constructor <;> exact isLine_ofList (by decide)

theorem strings_of_model_bar : ∃ m, model "P|" solidText = .ok m ∧ m.properties ≠ [] ∧
    linesOf (Java.document { year := 2017 } m).text =
      Java.layout.linesOfAll 0 (Java.fragments { year := 2017 } m) ++ [""] := by
  have hmodel : model "P|" solidText = .ok {
      properties := [{ name := "P|A", value := "1", unit := some "m/s" }]
      enumerations := [⟨"e", [⟨"X", "1,Y="⟩]⟩] } := by decide +kernel
  obtain ⟨-, hlines⟩ := strings_of_model "P|" solidText _ hmodel
  exact ⟨_, hmodel, List.cons_ne_nil _ _, (hlines _ optionsAreLines).mpr (.inl (by decide))⟩

/-- **A stem with a line break** is written into two lines of the document. -/
theorem name_over_two_lines : ∃ m,
    model "A\n" ⟨[⟨"input.h", "/** a */\n#define A\nB 1\n"⟩]⟩ = .ok m ∧
      m.properties = [{ name := "A\nB", value := "1" }] ∧
      linesOf (Java.document { year := 2017 } m).text ≠
        Java.layout.linesOfAll 0 (Java.fragments { year := 2017 } m) ++ [""] := by
  have hmodel : model "A\n" ⟨[⟨"input.h", "/** a */\n#define A\nB 1\n"⟩]⟩ =
      .ok { properties := [{ name := "A\nB", value := "1" }] } := by decide +kernel
  refine ⟨_, hmodel, rfl, ?_⟩
  rw [Ne, linesOf_document_iff optionsAreLines (extractedModel_of_model hmodel)]
  rintro (hstem | hnone)
  · exact absurd hstem (by decide)
  · contradiction

end Header

end HalConstants
