import HalConstants.Proofs.Manifest.Checks
import HalConstants.Proofs.Text.Search

/-!
# Where the errors of a manifest point

An error of a value points at a place of the file where the value stands: the first one directly between two
double quotes (`StandsQuoted`), or else the first one of all. The search for the value in quotes gives the place of
the first quote, which is one byte long whatever the value holds (`standsQuoted_succ_iff`). So every label spells
the value that the error is about, and there is none only where the file does not show the value as it is
(`labels_of_manifest`).
-/

namespace HalConstants

open Text (bytes StandsAt)

variable {α : Type} {x : α} {xs ys : List α} {file : SourceFile} {value text : String} {n m : Nat}
variable {e : ManifestError}

def quoteByte : UInt8 := 0x22

/-- `value` stands at byte `n`, and directly between two double quotes. -/
structure StandsQuoted (value text : String) (n : Nat) : Prop where
  opened : ∃ m, n = m + 1 ∧ (bytes text)[m]? = some quoteByte
  stands : StandsAt value text n
  closed : (bytes text)[n + value.utf8ByteSize]? = some quoteByte

/-- `n` is the place to show for `value`: the first one in quotes if there is one, and otherwise the first one. -/
structure ShownAt (value text : String) (n : Nat) : Prop where
  stands : StandsAt value text n
  inside : n + value.utf8ByteSize ≤ text.utf8ByteSize
  quoted : (∃ k, StandsQuoted value text k) → IsLeast {k | StandsQuoted value text k} n
  bare : (¬ ∃ k, StandsQuoted value text k) → IsLeast {k | StandsAt value text k} n

theorem ShownAt.unique (h : ShownAt value text n) (h' : ShownAt value text m) : n = m := by
  by_cases hquoted : ∃ k, StandsQuoted value text k
  · exact (h.quoted hquoted).unique (h'.quoted hquoted)
  · exact (h.bare hquoted).unique (h'.bare hquoted)

/-! ## Quotes -/

theorem cons_prefix_drop_iff : x :: xs <+: ys.drop n ↔ ys[n]? = some x ∧ xs <+: ys.drop (n + 1) := by
  rw [← List.head?_drop, ← List.tail_drop]
  cases ys.drop n with
  | nil => simp
  | cons y rest => rw [List.cons_prefix_cons, List.head?_cons, List.tail_cons, Option.some_inj, eq_comm]

theorem append_singleton_prefix_iff : xs ++ [x] <+: ys ↔ xs <+: ys ∧ ys[xs.length]? = some x := by
  constructor
  · rintro ⟨rest, rfl⟩
    refine ⟨⟨x :: rest, by simp⟩, by simp⟩
  · rintro ⟨⟨rest, rfl⟩, hnext⟩
    rw [List.getElem?_append_right (Nat.le_refl _), Nat.sub_self, ← List.head?_eq_getElem?] at hnext
    obtain ⟨more, rfl⟩ := List.head?_eq_some_iff.mp hnext
    exact ⟨more, by simp⟩

/-- **A value in quotes** stands one byte behind the place of its first quote. -/
theorem standsQuoted_succ_iff :
    StandsQuoted value text (n + 1) ↔ StandsAt ("\"" ++ value ++ "\"") text n := by
  have hquote : bytes "\"" = [quoteByte] := rfl
  have hbytes : bytes ("\"" ++ value ++ "\"") = quoteByte :: (bytes value ++ [quoteByte]) := by
    rw [Text.bytes_append, Text.bytes_append, hquote]
    rfl
  rw [StandsAt, hbytes, cons_prefix_drop_iff, append_singleton_prefix_iff, List.getElem?_drop,
    Text.length_bytes]
  constructor
  · rintro ⟨⟨m, hm, hopen⟩, hstands, hclose⟩
    obtain rfl := Nat.succ.inj hm
    exact ⟨hopen, hstands, hclose⟩
  · rintro ⟨hopen, hstands, hclose⟩
    exact ⟨⟨n, rfl, hopen⟩, hstands, hclose⟩

theorem exists_standsQuoted_iff :
    (∃ k, StandsQuoted value text k) ↔ ∃ n, StandsAt ("\"" ++ value ++ "\"") text n := by
  constructor
  · rintro ⟨k, hk⟩
    obtain ⟨n, rfl, -⟩ := hk.opened
    exact ⟨n, standsQuoted_succ_iff.mp hk⟩
  · rintro ⟨n, hn⟩
    exact ⟨n + 1, standsQuoted_succ_iff.mpr hn⟩

theorem isLeast_standsQuoted (h : IsLeast {n | StandsAt ("\"" ++ value ++ "\"") text n} n) :
    IsLeast {k | StandsQuoted value text k} (n + 1) := by
  refine ⟨standsQuoted_succ_iff.mpr h.1, ?_⟩
  intro k hk
  obtain ⟨m, rfl, -⟩ := hk.opened
  exact Nat.succ_le_succ (h.2 (standsQuoted_succ_iff.mp hk))

/-! ## The place of a value -/

/-- Looking for a value is looking for it in quotes, and then for it alone. -/
theorem SourceFile.findValue?_eq (hvalue : value ≠ "") : file.findValue? value =
    ((Text.find? ("\"" ++ value ++ "\"").toList file.text.toList).map (· + 1)).or
      (Text.find? value.toList file.text.toList) := by
  have hne : value.toList.isEmpty = false := by
    rw [List.isEmpty_eq_false_iff, ne_eq, String.toList_eq_nil_iff]
    exact hvalue
  have hquoted : ("\"" ++ value ++ "\"").toList = '"' :: value.toList ++ ['"'] := by
    simp
  rw [findValue?, hquoted]
  simp only [hne, Bool.false_eq_true, if_false]
  cases Text.find? ('"' :: value.toList ++ ['"']) file.text.toList <;> rfl

theorem SourceFile.shownAt_of_findValue? (h : file.findValue? value = some n) (hvalue : value ≠ "") :
    ShownAt value file.text n := by
  have hquotes : "\"" ++ value ++ "\"" ≠ "" := by simp
  rw [findValue?_eq hvalue] at h
  cases hfind : Text.find? ("\"" ++ value ++ "\"").toList file.text.toList with
  | some m =>
      rw [hfind] at h
      obtain rfl := Option.some.inj h
      have hleast := isLeast_standsQuoted ((Text.find?_eq_some_iff hquotes).mp hfind)
      have hstands := hleast.1.stands
      exact ⟨hstands, hstands.le hvalue, fun _ => hleast, fun hnone => absurd ⟨m + 1, hleast.1⟩ hnone⟩
  | none =>
      rw [hfind] at h
      have hleast := (Text.find?_eq_some_iff hvalue).mp h
      have hbare : ¬ ∃ k, StandsQuoted value file.text k := by
        rw [exists_standsQuoted_iff, not_exists]
        exact (Text.find?_eq_none_iff hquotes).mp hfind
      exact ⟨hleast.1, hleast.1.le hvalue, fun hquoted => absurd hquoted hbare, fun _ => hleast⟩

theorem SourceFile.findValue?_eq_none_iff :
    file.findValue? value = none ↔ value = "" ∨ ¬ ∃ n, StandsAt value file.text n := by
  by_cases hvalue : value = ""
  · rw [hvalue]
    exact ⟨fun _ => .inl rfl, fun _ => rfl⟩
  · rw [or_iff_right hvalue, findValue?_eq hvalue, Option.or_eq_none_iff, Option.map_eq_none_iff,
      Text.find?_eq_none_iff hvalue, not_exists, and_iff_right_iff_imp]
    intro hnone
    -- a value in quotes is there without them too
    rw [Text.find?_eq_none_iff (by simp)]
    exact fun n hn => hnone _ (standsQuoted_succ_iff.mpr hn).stands

theorem SourceFile.findValue?_eq_some_iff :
    file.findValue? value = some n ↔ value ≠ "" ∧ ShownAt value file.text n := by
  constructor
  · intro h
    have hvalue : value ≠ "" := by
      rintro rfl
      contradiction
    exact ⟨hvalue, shownAt_of_findValue? h hvalue⟩
  · rintro ⟨hvalue, hshown⟩
    cases hfind : file.findValue? value with
    | some m => rw [(shownAt_of_findValue? hfind hvalue).unique hshown]
    | none =>
        rcases findValue?_eq_none_iff.mp hfind with hempty | hnone
        · exact absurd hempty hvalue
        · exact absurd ⟨n, hshown.stands⟩ hnone

/-! ## Labels -/

/-- The value that an error is about, and the file that holds it. -/
def ManifestError.blamed? : ManifestError → Option (SourceFile × String)
  | invalidName file _ name _ => some (file, name)
  | invalidStem file stem => some (file, stem)
  | invalidHalVersion file version => some (file, version)
  | unreadable .. => none
  | malformed _ => none

/-- The values of a manifest that are checked. -/
def Manifest.checkedValues (m : Manifest) : List String :=
  m.java.package.toList ++ m.java.className.toList ++ m.java.stem.toList ++ m.python.halVersion.toList

theorem ManifestError.exists_labels_eq (h : e.blamed? = some (file, value)) :
    ∃ remark, e.labels = file.labelsAt value remark := by
  cases e with
  | unreadable path kind => contradiction
  | malformed file => contradiction
  | invalidName file' role name fault =>
      obtain ⟨rfl, rfl⟩ := Prod.mk.inj (Option.some.inj h)
      exact ⟨_, rfl⟩
  | invalidStem file' stem =>
      obtain ⟨rfl, rfl⟩ := Prod.mk.inj (Option.some.inj h)
      exact ⟨_, rfl⟩
  | invalidHalVersion file' version =>
      obtain ⟨rfl, rfl⟩ := Prod.mk.inj (Option.some.inj h)
      exact ⟨_, rfl⟩

/-- A manifest is refused for one of the values that are checked. -/
theorem Manifest.blamed?_of_error? {m : Manifest} (h : m.error? file = some e) :
    ∃ value ∈ m.checkedValues, e.blamed? = some (file, value) := by
  unfold error? at h
  simp only [Option.or_eq_some_iff, Option.bind_eq_some_iff, Option.map_eq_some_iff, Option.filter_eq_some_iff,
    nameError?] at h
  simp only [checkedValues, List.mem_append, Option.mem_toList]
  rcases h with ⟨name, hname, fault, -, rfl⟩ | ⟨-, ⟨name, hname, fault, -, rfl⟩ |
    ⟨-, ⟨stem, ⟨hstem, -⟩, rfl⟩ | ⟨-, version, ⟨hversion, -⟩, rfl⟩⟩⟩
  · exact ⟨name, .inl (.inl (.inl hname)), rfl⟩
  · exact ⟨name, .inl (.inl (.inr hname)), rfl⟩
  · exact ⟨stem, .inl (.inr hstem), rfl⟩
  · exact ⟨version, .inr hversion, rfl⟩

/-- A file is refused as a whole, or for one of the values that are checked. -/
theorem Manifest.blamed?_of_parse (h : Manifest.parse file = .error e) : e = .malformed file ∨
    ∃ m value, Manifest.decode? file.text = some m ∧ value ∈ m.checkedValues ∧ e.blamed? = some (file, value) := by
  rcases parse_eq_error_iff.mp h with ⟨-, rfl⟩ | ⟨m, hdecode, herror⟩
  · exact .inl rfl
  · obtain ⟨value, hmem, hblamed⟩ := blamed?_of_error? herror
    exact .inr ⟨m, value, hdecode, hmem, hblamed⟩

/-- A label of a file spells a value: its bytes are those of the value, at the place to show. -/
structure Spells (label : Label) (file : SourceFile) (value : String) : Prop where
  shown : ShownAt value file.text label.offset
  inside : label.offset + label.length ≤ file.size
  bytes : ((bytes file.text).drop label.offset).take label.length = bytes value

theorem spells_of_shownAt {label : Label} (h : ShownAt value file.text label.offset)
    (hlength : label.length = value.utf8ByteSize) : Spells label file value := by
  refine ⟨h, hlength ▸ h.inside, ?_⟩
  rw [hlength, ← Text.length_bytes]
  exact (List.prefix_iff_eq_take.mp h.stands).symm

theorem ManifestError.spells_of_mem_labels (h : e.blamed? = some (file, value)) :
    ∀ label ∈ e.labels, Spells label file value := by
  obtain ⟨remark, hlabels⟩ := exists_labels_eq h
  intro label hlabel
  rw [hlabels, SourceFile.labelsAt, List.mem_map] at hlabel
  obtain ⟨offset, hoffset, rfl⟩ := hlabel
  have hfind := Option.mem_toList.mp hoffset
  exact spells_of_shownAt (SourceFile.findValue?_eq_some_iff.mp hfind).2 rfl

theorem ManifestError.labels_eq_nil_iff (h : e.blamed? = some (file, value)) :
    e.labels = [] ↔ value = "" ∨ ¬ ∃ n, StandsAt value file.text n := by
  obtain ⟨remark, hlabels⟩ := exists_labels_eq h
  rw [hlabels, SourceFile.labelsAt, List.map_eq_nil_iff, Option.toList_eq_nil_iff, SourceFile.findValue?_eq_none_iff]

/-- **Labels spell what they are about.** A value is found unless it is empty or stands nowhere, and then at the
place to show. A file whose text can be read is refused for a value that is checked, and each label of the error
spells that value; there is one unless the file shows the value nowhere. -/
theorem labels_of_manifest (file : SourceFile) (value : String) :
    (file.findValue? value = none ↔ value = "" ∨ ¬ ∃ n, StandsAt value file.text n) ∧
    (∀ n, file.findValue? value = some n ↔ value ≠ "" ∧ ShownAt value file.text n) ∧
    (∀ e : ManifestError, e.blamed? = some (file, value) →
      (∀ label ∈ e.labels, Spells label file value) ∧
      (e.labels = [] ↔ value = "" ∨ ¬ ∃ n, StandsAt value file.text n)) ∧
    ∀ e, Manifest.parse file = .error e → e = .malformed file ∨
      ∃ m value, Manifest.decode? file.text = some m ∧ value ∈ m.checkedValues ∧ e.blamed? = some (file, value) := by
  refine ⟨SourceFile.findValue?_eq_none_iff, fun n => SourceFile.findValue?_eq_some_iff, ?_, ?_⟩
  · intro e h
    exact ⟨ManifestError.spells_of_mem_labels h, ManifestError.labels_eq_nil_iff h⟩
  · exact fun e h => Manifest.blamed?_of_parse h

/-- A class name that also stands in a comment above. -/
theorem labels_of_manifest_comment :
    let file : SourceFile := ⟨"vhalgen.toml", "# é-x\n[java]\nclass = \"é-x\"\n"⟩
    let e : ManifestError := .invalidName file .className "é-x" .badCharacter
    Manifest.parse file = .error e ∧ e.labels = [⟨"invalid identifier", 23, 4⟩] ∧
    ShownAt "é-x" file.text 23 ∧ ∀ label ∈ e.labels, Spells label file "é-x" := by
  intro file e
  have hparse : Manifest.parse file = .error e := by decide +kernel
  have hfind : file.findValue? "é-x" = some 23 := by decide
  have hlabels := labels_of_manifest file "é-x"
  exact ⟨hparse, by decide, ((hlabels.2.1 23).mp hfind).2, (hlabels.2.2.1 e rfl).1⟩

end HalConstants
