import HalConstants.Input.Sources
import HalConstants.Proofs.Text.Bytes

/-!
# Bytes of the sources and their files

Every byte of the whole text belongs to one file: the one that holds the first character of what follows the
byte (`exists_fileCut`). Files that are put behind others keep their bytes, moved by what is in front of them.
In the files themselves, every offset in front of the end of the whole text is one place in one file that is
not empty (`StandsIn`), and locating the offset finds that place (`locate?_ofPushes`).
-/

namespace HalConstants

variable {files : List SourceFile} {front rest : List Char}

/-- The text of files that follow each other. -/
def charsOf (files : List SourceFile) : List Char := files.flatMap (·.text.toList)

theorem charsOf_cons (file : SourceFile) (files : List SourceFile) :
    charsOf (file :: files) = file.text.toList ++ charsOf files := rfl

theorem charsOf_append (files more : List SourceFile) :
    charsOf (files ++ more) = charsOf files ++ charsOf more := List.flatMap_append

theorem Sources.toList_text (s : Sources) : s.text.toList = charsOf s.files := by
  rw [Sources.text, String.toList_join, List.flatMap_map, charsOf]

theorem SourceFile.byteLength_text (file : SourceFile) :
    Text.byteLength file.text.toList = file.size := Text.byteLength_toList file.text

/-- Where a cut of the whole text falls: into `file`, behind its part `own`. What follows the cut starts in
that file. -/
structure FileCut (files : List SourceFile) (front rest : List Char) where
  before : List SourceFile
  file : SourceFile
  after : List SourceFile
  own : List Char
  more : List Char
  files_eq : files = before ++ file :: after
  text_eq : file.text.toList = own ++ more
  more_ne_nil : more ≠ []
  front_eq : front = charsOf before ++ own
  rest_eq : rest = more ++ charsOf after

/-- The same cut with one more file in front. -/
def FileCut.behind (file : SourceFile) (c : FileCut files front rest) :
    FileCut (file :: files) (file.text.toList ++ front) rest :=
  ⟨file :: c.before, c.file, c.after, c.own, c.more, congrArg (file :: ·) c.files_eq, c.text_eq,
    c.more_ne_nil,
    (congrArg (file.text.toList ++ ·) c.front_eq).trans (List.append_assoc ..).symm, c.rest_eq⟩

theorem locateIn_behind (file : SourceFile) (n : Nat) (files : List SourceFile) :
    Sources.locateIn (file.size + n) (file :: files) = Sources.locateIn n files := by
  rw [Sources.locateIn, if_neg (by omega), Nat.add_sub_cancel_left]

/-- More files behind do not move the bytes of the files in front. -/
theorem locateIn_append_left {offset : Nat} {place : SourceFile × Nat}
    (h : Sources.locateIn offset files = some place) (more : List SourceFile) :
    Sources.locateIn offset (files ++ more) = some place := by
  induction files generalizing offset with
  | nil => contradiction
  | cons file files ih =>
      rw [Sources.locateIn] at h
      rw [List.cons_append, Sources.locateIn]
      split at h
      · next hlt => rw [if_pos hlt, h]
      · next hle => rw [if_neg hle, ih h]

/-- Files in front move the bytes of the files behind by as much as they hold. -/
theorem locateIn_append_right (files more : List SourceFile) (offset : Nat) :
    Sources.locateIn (Text.byteLength (charsOf files) + offset) (files ++ more) =
      Sources.locateIn offset more := by
  induction files with
  | nil =>
      show Sources.locateIn (0 + offset) more = _
      rw [Nat.zero_add]
  | cons file files ih =>
      rw [charsOf_cons, Text.byteLength_append, file.byteLength_text, Nat.add_assoc, List.cons_append,
        locateIn_behind, ih]

/-- **A byte lies in the file of the character that starts there**, also where empty files stand in
between. -/
theorem exists_fileCut (h : charsOf files = front ++ rest) (hrest : rest ≠ []) :
    ∃ c : FileCut files front rest,
      Sources.locateIn (Text.byteLength front) files = some (c.file, Text.byteLength c.own) := by
  induction files generalizing front with
  | nil => exact absurd (List.append_eq_nil_iff.mp h.symm).2 hrest
  | cons file files ih =>
      have hcut : (∃ as, front = file.text.toList ++ as ∧ charsOf files = as ++ rest) ∨
          ∃ c as, file.text.toList = front ++ c :: as ∧ rest = c :: as ++ charsOf files := by
        rw [charsOf_cons] at h
        rcases List.append_eq_append_iff.mp h with behind | ⟨as, htext, hend⟩
        · exact .inl behind
        · cases as with
          | nil => exact .inl ⟨[], by simpa using htext.symm, by simpa using hend.symm⟩
          | cons c as => exact .inr ⟨c, as, htext, hend⟩
      rcases hcut with ⟨as, rfl, hfiles⟩ | ⟨c, as, htext, hend⟩
      · obtain ⟨c, hc⟩ := ih hfiles
        refine ⟨c.behind file, ?_⟩
        rw [Text.byteLength_append, SourceFile.byteLength_text, locateIn_behind, hc, FileCut.behind]
      · refine ⟨⟨[], file, files, front, c :: as, rfl, htext, by simp, rfl, hend⟩, ?_⟩
        have hsize := file.byteLength_text
        have hc := c.utf8Size_pos
        rw [htext, Text.byteLength_append, Text.byteLength_cons] at hsize
        rw [Sources.locateIn, if_pos (by omega)]

/-! ## Where each byte stands -/

variable {file file' : SourceFile} {offset k k' l l' : Nat}

/-- The bytes that files have together. -/
def totalSize : List SourceFile → Nat
  | [] => 0
  | file :: files => file.size + totalSize files

/-- The sources that files give when they are pushed one after the other. -/
def Sources.ofPushes (files : List SourceFile) : Sources := files.foldl push {}

/-- The byte at an offset of files that follow each other is byte `l` of the file with index `k`. -/
structure StandsIn (files : List SourceFile) (offset k : Nat) (file : SourceFile) (l : Nat) : Prop where
  file_eq : files[k]? = some file
  lt_size : l < file.size
  offset_eq : offset = totalSize (files.take k) + l

theorem length_flatMap_bytes (files : List SourceFile) :
    (files.flatMap fun f => Text.bytes f.text).length = totalSize files := by
  induction files with
  | nil => rfl
  | cons file files ih =>
      rw [List.flatMap_cons, List.length_append, Text.length_bytes, ih]
      rfl

theorem standsIn_zero_iff :
    StandsIn (file' :: files) offset 0 file l ↔ file' = file ∧ offset = l ∧ offset < file'.size := by
  constructor
  · rintro ⟨hfile, hl, hoffset⟩
    obtain rfl : file' = file := Option.some.inj hfile
    obtain rfl : offset = l := hoffset.trans (Nat.zero_add l)
    exact ⟨rfl, rfl, hl⟩
  · rintro ⟨rfl, rfl, hl⟩
    exact ⟨rfl, hl, (Nat.zero_add offset).symm⟩

theorem standsIn_succ_iff : StandsIn (file' :: files) offset (k + 1) file l ↔
    file'.size ≤ offset ∧ StandsIn files (offset - file'.size) k file l := by
  constructor
  · rintro ⟨hfile, hl, hoffset⟩
    rw [List.take_succ_cons, totalSize] at hoffset
    exact ⟨by omega, hfile, hl, by omega⟩
  · rintro ⟨hle, hfile, hl, hoffset⟩
    refine ⟨hfile, hl, ?_⟩
    rw [List.take_succ_cons, totalSize]
    omega

/-- **Locating a byte** finds the file in which it stands. -/
theorem locateIn_eq_some_iff :
    Sources.locateIn offset files = some (file, l) ↔ ∃ k, StandsIn files offset k file l := by
  induction files generalizing offset with
  | nil =>
      constructor
      · intro h
        contradiction
      · rintro ⟨k, hfile, -⟩
        contradiction
  | cons first files ih =>
      rw [Sources.locateIn]
      by_cases hlt : offset < first.size
      · rw [if_pos hlt]
        constructor
        · intro h
          obtain ⟨rfl, rfl⟩ := Prod.mk.inj (Option.some.inj h)
          exact ⟨0, standsIn_zero_iff.mpr ⟨rfl, rfl, hlt⟩⟩
        · rintro ⟨k, h⟩
          cases k with
          | zero =>
              obtain ⟨rfl, rfl, -⟩ := standsIn_zero_iff.mp h
              rfl
          | succ k => exact absurd (standsIn_succ_iff.mp h).1 (Nat.not_le.mpr hlt)
      · rw [if_neg hlt, ih]
        constructor
        · rintro ⟨k, h⟩
          exact ⟨k + 1, standsIn_succ_iff.mpr ⟨Nat.not_lt.mp hlt, h⟩⟩
        · rintro ⟨k, h⟩
          cases k with
          | zero => exact absurd (standsIn_zero_iff.mp h).2.2 hlt
          | succ k => exact ⟨k, (standsIn_succ_iff.mp h).2⟩

theorem locateIn_eq_none_iff : Sources.locateIn offset files = none ↔ totalSize files ≤ offset := by
  induction files generalizing offset with
  | nil => exact ⟨fun _ => Nat.zero_le offset, fun _ => rfl⟩
  | cons file files ih =>
      rw [Sources.locateIn, totalSize]
      split
      · next hlt => exact ⟨fun h => by contradiction, fun h => by omega⟩
      · next hle =>
          rw [ih]
          omega

/-- Every offset in front of the end is located. -/
theorem exists_standsIn_of_lt (h : offset < totalSize files) : ∃ k file l,
    Sources.locateIn offset files = some (file, l) ∧ StandsIn files offset k file l := by
  have hne : Sources.locateIn offset files ≠ none := mt locateIn_eq_none_iff.mp (Nat.not_le.mpr h)
  obtain ⟨⟨file, l⟩, hplace⟩ := Option.ne_none_iff_exists'.mp hne
  obtain ⟨k, hstands⟩ := locateIn_eq_some_iff.mp hplace
  exact ⟨k, file, l, hplace, hstands⟩

/-- **A byte stands in one file only**, also where empty files lie at the same offset. -/
theorem StandsIn.unique (h : StandsIn files offset k file l) (h' : StandsIn files offset k' file' l') :
    k = k' ∧ file = file' ∧ l = l' := by
  induction files generalizing offset k k' with
  | nil =>
      have := h.file_eq
      contradiction
  | cons first files ih =>
      cases k with
      | zero =>
          obtain ⟨rfl, rfl, hlt⟩ := standsIn_zero_iff.mp h
          cases k' with
          | zero =>
              obtain ⟨rfl, rfl, -⟩ := standsIn_zero_iff.mp h'
              exact ⟨rfl, rfl, rfl⟩
          | succ k' => exact absurd (standsIn_succ_iff.mp h').1 (Nat.not_le.mpr hlt)
      | succ k =>
          obtain ⟨hle, hstands⟩ := standsIn_succ_iff.mp h
          cases k' with
          | zero => exact absurd (standsIn_zero_iff.mp h').2.2 (Nat.not_lt.mpr hle)
          | succ k' =>
              obtain ⟨rfl, rfl, rfl⟩ := ih hstands (standsIn_succ_iff.mp h').2
              exact ⟨rfl, rfl, rfl⟩

theorem StandsIn.text_ne_empty (h : StandsIn files offset k file l) : file.text ≠ "" := by
  intro hempty
  have hlt := h.lt_size
  rw [SourceFile.size, hempty] at hlt
  exact Nat.not_lt_zero l hlt

/-- The byte of the whole text is that of the file in which it stands. -/
theorem StandsIn.getElem?_bytes (h : StandsIn files offset k file l) :
    (files.flatMap fun f => Text.bytes f.text)[offset]? = (Text.bytes file.text)[l]? := by
  induction files generalizing offset k with
  | nil =>
      have := h.file_eq
      contradiction
  | cons first files ih =>
      rw [List.flatMap_cons]
      cases k with
      | zero =>
          obtain ⟨rfl, rfl, hlt⟩ := standsIn_zero_iff.mp h
          exact List.getElem?_append_left (Nat.lt_of_lt_of_eq hlt (Text.length_bytes first.text).symm)
      | succ k =>
          obtain ⟨hle, hstands⟩ := standsIn_succ_iff.mp h
          rw [List.getElem?_append_right (Text.length_bytes first.text ▸ hle), Text.length_bytes]
          exact ih hstands

theorem StandsIn.exists_byte (h : StandsIn files offset k file l) :
    ∃ byte, (files.flatMap fun f => Text.bytes f.text)[offset]? = some byte ∧
      (Text.bytes file.text)[l]? = some byte := by
  have hl : l < (Text.bytes file.text).length := Nat.lt_of_lt_of_eq h.lt_size (Text.length_bytes _).symm
  have hbyte := List.getElem?_eq_getElem hl
  exact ⟨(Text.bytes file.text)[l], h.getElem?_bytes.trans hbyte, hbyte⟩

/-! ## Pushing files -/

theorem Sources.files_foldl_push (files : List SourceFile) (s : Sources) :
    (files.foldl push s).files = s.files ++ files := by
  induction files generalizing s with
  | nil => exact (List.append_nil s.files).symm
  | cons file files ih =>
      rw [List.foldl_cons, ih, push, List.append_assoc, List.singleton_append]

theorem Sources.text_push (s : Sources) (file : SourceFile) : (s.push file).text = s.text ++ file.text := by
  rw [text, push, List.map_append, String.join_append]
  simp [text]

theorem Sources.text_foldl_push (files : List SourceFile) (s : Sources) :
    (files.foldl push s).text = s.text ++ String.join (files.map (·.text)) := by
  induction files generalizing s with
  | nil => exact String.append_empty.symm
  | cons file files ih =>
      rw [List.foldl_cons, ih, text_push, List.map_cons, String.join_cons, String.append_assoc]

/-- **Every byte of pushed sources is located.** The whole text is that of the files in order; an offset is located
unless it is behind the whole text, at the one place where the byte stands, whose file is not empty and holds that
byte, and a further push leaves it there. -/
theorem locate?_ofPushes (files : List SourceFile) :
    (Sources.ofPushes files).text = String.join (files.map (·.text)) ∧
    (Sources.ofPushes files).text.utf8ByteSize = totalSize files ∧
    ∀ offset,
      ((Sources.ofPushes files).locate? offset = none ↔ totalSize files ≤ offset) ∧
      (offset < totalSize files → ∃ k file l,
        (Sources.ofPushes files).locate? offset = some (file, l) ∧
        StandsIn files offset k file l ∧
        (∀ k' file' l', StandsIn files offset k' file' l' → k' = k ∧ file' = file ∧ l' = l) ∧
        file.text ≠ "" ∧
        (∃ byte, (Text.bytes (Sources.ofPushes files).text)[offset]? = some byte ∧
          (Text.bytes file.text)[l]? = some byte) ∧
        ∀ more, ((Sources.ofPushes files).push more).locate? offset = some (file, l)) := by
  have hfiles : (Sources.ofPushes files).files = files := Sources.files_foldl_push files {}
  have htext : (Sources.ofPushes files).text = String.join (files.map (·.text)) := by
    rw [Sources.ofPushes, Sources.text_foldl_push]
    exact String.empty_append
  have hbytes : Text.bytes (Sources.ofPushes files).text = files.flatMap fun f => Text.bytes f.text := by
    rw [htext, Text.bytes_join, List.flatMap_map]
  refine ⟨htext, ?_, ?_⟩
  · rw [← Text.length_bytes, hbytes, length_flatMap_bytes]
  · intro offset
    rw [Sources.locate?, hfiles, hbytes]
    refine ⟨locateIn_eq_none_iff, ?_⟩
    intro hlt
    obtain ⟨k, file, l, hplace, hstands⟩ := exists_standsIn_of_lt hlt
    refine ⟨k, file, l, hplace, hstands, fun k' file' l' h => h.unique hstands, hstands.text_ne_empty,
      hstands.exists_byte, ?_⟩
    intro more
    rw [Sources.locate?, Sources.push, hfiles]
    exact locateIn_append_left hplace [more]

/-- The first byte behind a character of two bytes and two empty files. -/
theorem locate?_ofPushes_empty_files :
    let files : List SourceFile := [⟨"a.h", ""⟩, ⟨"b.h", "é"⟩, ⟨"c.h", ""⟩, ⟨"d.h", ""⟩, ⟨"e.h", "xy"⟩]
    2 < totalSize files ∧ (Sources.ofPushes files).locate? 2 = some (⟨"e.h", "xy"⟩, 0) := by
  intro files
  have hlt : 2 < totalSize files := by decide
  obtain ⟨k, file, l, hplace, -, hunique, -⟩ := ((locate?_ofPushes files).2.2 2).2 hlt
  obtain ⟨-, rfl, rfl⟩ := hunique 4 ⟨"e.h", "xy"⟩ 0 ⟨rfl, by decide, by decide⟩
  exact ⟨hlt, hplace⟩

end HalConstants
