import HalConstants.Proofs.Header.OwnComment
import HalConstants.Proofs.Input.Sources

/-!
# The span of a key without its value

The fault of a comment is placed in the file in which its key starts. The files are scanned as one text, so
the key may run on into the next file. `properties_fault_span` says what the span of a fault is worth: the key
stands in the whole text at the place of the span, and the span spells the key in the text of the file exactly
when it does not run over the end of that file. It never does where no word runs from one file into the
next.
-/

namespace HalConstants.Header

open Text (byteLength isBlank isInk Word IsWord Breaks wordsFrom)

variable {stem text : List Char} {b : PropertyBlock} {w : Word} {k : AnnotationKey}

/-- The bytes of the file in the span are the key. -/
def SpellsKey (file : SourceFile) (offset length : Nat) (k : AnnotationKey) : Prop :=
  ∃ front back, file.text.toList = front ++ (k.token.toList ++ back) ∧ byteLength front = offset ∧
    byteLength k.token.toList = length

theorem SpellsKey.le {file : SourceFile} {offset length : Nat} (h : SpellsKey file offset length k) :
    offset + length ≤ file.size := by
  obtain ⟨front, back, htext, rfl, rfl⟩ := h
  rw [← file.byteLength_text, htext, Text.byteLength_append, Text.byteLength_append]
  omega

/-- No word runs over the end of a file: the file ends in a blank, or what follows it starts with one. -/
def SeamsBreak (files : List SourceFile) : Prop :=
  ∀ before file after, files = before ++ file :: after →
    (∀ c ∈ file.text.toList.getLast?, isBlank c) ∨ Breaks (charsOf after)

theorem isWord_token (k : AnnotationKey) : IsWord k.token.toList := by
  cases k <;> decide

/-- A key without its value stands in the text at the byte that it names. -/
theorem exists_append_of_danglingKey? (hb : b ∈ propertyBlocks stem text)
    (h : danglingKey? b.words = some (w, k)) :
    ∃ front back, text = front ++ (k.token.toList ++ back) ∧ w.start = byteLength front ∧
      w.text = k.token.toList := by
  obtain ⟨hlast, hw⟩ := getLast?_of_danglingKey? h
  obtain ⟨front, back, hcomment, hstart, -⟩ :=
    Text.exists_append_of_mem_wordsFrom (List.mem_of_getLast? hlast)
  obtain ⟨before, gap, gap', after, htext, hbstart, -⟩ := exists_append_of_mem_propertyBlocks hb
  rw [text_of_keyOf? hw] at hcomment
  refine ⟨before ++ (opening ++ front), back ++ (closing ++ (gap ++ (stem ++ (b.suffix ++ (gap' ++
    (b.value ++ after)))))), ?_, ?_, text_of_keyOf? hw⟩
  · rw [htext, hcomment]
    simp only [List.append_assoc]
  · rw [hstart, hbstart]
    simp only [Text.byteLength_append, Nat.add_assoc]

section Cut

variable {files : List SourceFile} {front back : List Char}

/-- The key runs on behind the file only where the file is too short for it. -/
theorem spellsKey_iff (c : FileCut files front (k.token.toList ++ back)) :
    SpellsKey c.file (byteLength c.own) (byteLength k.token.toList) k ↔
      byteLength c.own + byteLength k.token.toList ≤ c.file.size := by
  refine ⟨SpellsKey.le, fun hle => ?_⟩
  rw [← c.file.byteLength_text, c.text_eq, Text.byteLength_append] at hle
  obtain ⟨more, hmore, -⟩ := Text.exists_append_of_byteLength_le c.rest_eq (by omega)
  exact ⟨c.own, more, by rw [c.text_eq, hmore], rfl, rfl⟩

/-- A key that runs on behind the file has ink on both sides of the seam. -/
theorem spellsKey_of_seamsBreak (c : FileCut files front (k.token.toList ++ back))
    (h : SeamsBreak files) : SpellsKey c.file (byteLength c.own) (byteLength k.token.toList) k := by
  rw [spellsKey_iff c, ← c.file.byteLength_text, c.text_eq, Text.byteLength_append]
  by_contra hlt
  obtain ⟨beyond, htoken, hafter⟩ :=
    Text.exists_append_of_byteLength_le c.rest_eq.symm (y := charsOf c.after) (by omega)
  have hink : ∀ ch ∈ c.more ++ beyond, isInk ch := htoken ▸ (isWord_token k).2
  have hbeyond : beyond ≠ [] := by
    rintro rfl
    have hlen := congrArg byteLength htoken
    rw [List.append_nil] at hlen
    omega
  rcases h c.before c.file c.after c.files_eq with hfile | hbreaks
  · have hlast := List.getLast?_eq_some_getLast c.more_ne_nil
    have hblank := hfile (c.more.getLast c.more_ne_nil) (by
      rw [c.text_eq, List.getLast?_append, hlast]
      rfl)
    exact Text.not_isBlank_of_isInk
      (hink _ (List.mem_append_left beyond (List.getLast_mem c.more_ne_nil))) hblank
  · cases beyond with
    | nil => contradiction
    | cons ch beyond =>
        rw [hafter, List.cons_append] at hbreaks
        exact Text.not_isBlank_of_isInk (hink ch (by simp)) (Text.breaks_cons.mp hbreaks)

end Cut

/-- **What the span of a fault is worth.** Reading the properties of the sources fails only at a key without
its value. The fault names a file in which the key starts, and the key stands there in the text of that file
and the files behind it; the span lies in the file and spells the key exactly when it ends in front of the end
of the file, and always where no word runs from one file into the next. -/
theorem properties_fault_span (stem : String) (sources : Sources) :
    match properties stem sources with
    | .ok _ => True
    | .error (.missingValue file offset length k _) =>
      (∃ before after front rest back, sources.files = before ++ file :: after ∧
        file.text.toList = front ++ rest ∧ rest ≠ [] ∧ byteLength front = offset ∧
        rest ++ charsOf after = k.token.toList ++ back ∧ length = byteLength k.token.toList) ∧
      (SpellsKey file offset length k ↔ offset + length ≤ file.size) ∧
      (SeamsBreak sources.files → SpellsKey file offset length k)
    | .error _ => False := by
  have hown := (properties_own_comment stem sources).2
  cases hread : properties stem sources with
  | ok ps => trivial
  | error e =>
      rw [hread] at hown
      obtain ⟨b, hb, w, k, hdangling, -, rfl⟩ := hown
      obtain ⟨front, back, htext, hstart, hword⟩ := exists_append_of_danglingKey? hb hdangling
      rw [Sources.toList_text] at htext
      obtain ⟨c, hc⟩ := exists_fileCut htext (by simp [(isWord_token k).1])
      have hsize : w.size = byteLength k.token.toList := by rw [Word.size, hword]
      rw [missingValue, Sources.locate?, hstart, hc, hsize]
      exact ⟨⟨c.before, c.after, c.own, c.more, back, c.files_eq, c.text_eq, c.more_ne_nil, rfl,
        c.rest_eq.symm, rfl⟩, spellsKey_iff c, spellsKey_of_seamsBreak c⟩

/-- The key `@unit` starts in the first file, which ends behind its third character. -/
theorem properties_span_behind_end :
    properties "P_" ⟨[⟨"a.h", "/**\n@un"⟩, ⟨"b.h", "it */\n#define P_A 1\n"⟩]⟩ =
      .error (.missingValue ⟨"a.h", "/**\n@un"⟩ 4 5 .unit "P_A") ∧
    ¬ 4 + 5 ≤ (SourceFile.mk "a.h" "/**\n@un").size := by
  decide +kernel

end HalConstants.Header
