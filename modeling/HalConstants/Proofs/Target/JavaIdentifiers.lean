import HalConstants.Proofs.Code.Lines
import HalConstants.Proofs.Text.Alphanumeric
import HalConstants.Target.JavaName

/-!
# Java identifiers

In ASCII a name is accepted exactly if it is an identifier (`IsIdentifier`), a package name exactly if all of its
segments are, and the reason against a name is the one against its first segment that is none (`Refuses`). Of the
names in other letters and digits that are accepted as well it still holds that they have no blanks, and in ASCII
nothing that an identifier has not (`Keeps`).
-/

namespace HalConstants.Java

variable {c : Char} {cs rest : List Char} {fault : NameFault} {word : String}

/-! ## Identifiers -/

/-- A letter, or a mark that counts as one. -/
def IsNameStart (c : Char) : Prop := c.isAlpha ∨ c = '_' ∨ c = '$'

def IsNamePart (c : Char) : Prop := (c.isAlpha ∨ c.isDigit) ∨ c = '_' ∨ c = '$'

/-- An identifier in ASCII. -/
structure IsIdentifier (cs : List Char) : Prop where
  spelled : ∃ c rest, cs = c :: rest ∧ IsNameStart c ∧ ∀ d ∈ rest, IsNamePart d
  free : String.ofList cs ∉ reservedWords

/-- A text of name characters that is not empty. -/
def IsName (cs : List Char) : Prop := cs ≠ [] ∧ ∀ c ∈ cs, isNameChar c

/-- What is against a text that is no identifier in ASCII. -/
inductive Refuses : NameFault → List Char → Prop
  | empty : Refuses .empty []
  | reserved {cs : List Char} (h : String.ofList cs ∈ reservedWords) : Refuses .reserved cs
  | leadingDigit {c : Char} {rest : List Char} (hc : c.isDigit) : Refuses .leadingDigit (c :: rest)
  | badCharacter {c : Char} {rest : List Char} (hc : c.isDigit = false) (h : ∃ d ∈ c :: rest, ¬ IsNamePart d) :
      Refuses .badCharacter (c :: rest)

theorem isNamePart_iff : IsNamePart c ↔ IsNameStart c ∨ c.isDigit := or_right_comm

theorem isNameChar_iff : isNameChar c ↔ Text.isAlphanumeric c ∨ c = '_' ∨ c = '$' := by
  rw [isNameChar, Bool.or_eq_true, Bool.or_eq_true, beq_iff_eq, beq_iff_eq, or_assoc]

theorem isNameChar_iff_of_ascii (h : c.toNat < 128) : isNameChar c ↔ IsNamePart c := by
  rw [isNameChar_iff, Text.isAlphanumeric_iff_of_ascii h, IsNamePart]

theorem empty_notMem_reservedWords : "" ∉ reservedWords := by
  decide

theorem isNameStart_of_mem_reservedWords (h : word ∈ reservedWords) : ∀ c ∈ word.toList, IsNameStart c := by
  have hwords : ∀ word ∈ reservedWords, word.toList.all fun c => c.isAlpha || c == '_' := by decide +kernel
  intro c hc
  have hletter := List.all_eq_true.mp (hwords word h) c hc
  rw [Bool.or_eq_true, beq_iff_eq] at hletter
  exact hletter.imp_right .inl

theorem isDigit_eq_false_of_isNameStart (h : IsNameStart c) : c.isDigit = false := by
  rcases h with halpha | rfl | rfl
  · rw [Text.isAlpha_iff] at halpha
    rw [Bool.eq_false_iff, ne_eq, Text.isDigit_iff]
    omega
  · rfl
  · rfl

/-! ## The check -/

theorem identifierFault?_cons : identifierFault? (c :: rest) =
    if String.ofList (c :: rest) ∈ reservedWords then some .reserved
    else if c.isDigit then some .leadingDigit
    else if (c :: rest).all isNameChar then none
    else some .badCharacter := by
  simp only [identifierFault?, List.contains_iff_mem]

/-- An accepted name is made of name characters. -/
theorem isName_of_identifierFault? (h : identifierFault? cs = none) : IsName cs := by
  cases cs with
  | nil => contradiction
  | cons c rest =>
      rw [identifierFault?_cons] at h
      split at h
      · contradiction
      · split at h
        · contradiction
        · split at h
          · next hnamed => exact ⟨List.cons_ne_nil c rest, List.all_eq_true.mp hnamed⟩
          · contradiction

theorem identifierFault?_of_refuses (hascii : ∀ c ∈ cs, c.toNat < 128) (h : Refuses fault cs) :
    identifierFault? cs = some fault := by
  cases h with
  | empty => rfl
  | reserved hword =>
      cases cs with
      | nil => exact absurd hword empty_notMem_reservedWords
      | cons c rest => rw [identifierFault?_cons, if_pos hword]
  | @leadingDigit c rest hc =>
      have hfree : String.ofList (c :: rest) ∉ reservedWords := by
        intro hword
        have hstart := isNameStart_of_mem_reservedWords hword c (by simp)
        rw [isDigit_eq_false_of_isNameStart hstart] at hc
        contradiction
      rw [identifierFault?_cons, if_neg hfree, if_pos hc]
  | @badCharacter c rest hc hbad =>
      obtain ⟨d, hd, hpart⟩ := hbad
      have hfree : String.ofList (c :: rest) ∉ reservedWords := by
        intro hword
        have hstart := isNameStart_of_mem_reservedWords hword d (by rwa [String.toList_ofList])
        exact hpart (isNamePart_iff.mpr (.inl hstart))
      have hnamed : ¬ (c :: rest).all isNameChar := by
        intro hnamed
        exact hpart ((isNameChar_iff_of_ascii (hascii d hd)).mp (List.all_eq_true.mp hnamed d hd))
      rw [identifierFault?_cons, if_neg hfree, if_neg (Bool.eq_false_iff.mp hc), if_neg hnamed]

theorem identifierFault?_of_isIdentifier (hascii : ∀ c ∈ cs, c.toNat < 128) (h : IsIdentifier cs) :
    identifierFault? cs = none := by
  obtain ⟨⟨c, rest, rfl, hstart, hparts⟩, hfree⟩ := h
  have hnamed : (c :: rest).all isNameChar := by
    rw [List.all_eq_true]
    intro d hd
    rw [isNameChar_iff_of_ascii (hascii d hd)]
    rcases List.mem_cons.mp hd with rfl | hd
    · exact isNamePart_iff.mpr (.inl hstart)
    · exact hparts d hd
  rw [identifierFault?_cons, if_neg hfree, isDigit_eq_false_of_isNameStart hstart, if_neg Bool.false_ne_true,
    if_pos hnamed]

/-- A text is an identifier, or there is something against it. -/
theorem isIdentifier_or_refuses (cs : List Char) : IsIdentifier cs ∨ ∃ fault, Refuses fault cs := by
  cases cs with
  | nil => exact .inr ⟨.empty, .empty⟩
  | cons c rest =>
      by_cases hword : String.ofList (c :: rest) ∈ reservedWords
      · exact .inr ⟨.reserved, .reserved hword⟩
      · by_cases hparts : ∀ d ∈ c :: rest, IsNamePart d
        · rw [List.forall_mem_cons, isNamePart_iff] at hparts
          obtain ⟨hstart | hdigit, hrest⟩ := hparts
          · exact .inl ⟨⟨c, rest, rfl, hstart, hrest⟩, hword⟩
          · exact .inr ⟨.leadingDigit, .leadingDigit hdigit⟩
        · obtain ⟨d, hd, hpart⟩ : ∃ d ∈ c :: rest, ¬ IsNamePart d := by
            simpa only [Classical.not_forall, exists_prop] using hparts
          cases hdigit : c.isDigit with
          | true => exact .inr ⟨.leadingDigit, .leadingDigit hdigit⟩
          | false => exact .inr ⟨.badCharacter, .badCharacter hdigit ⟨d, hd, hpart⟩⟩

/-- **In ASCII the names that are accepted are the identifiers.** -/
theorem identifierFault?_eq_none_iff (hascii : ∀ c ∈ cs, c.toNat < 128) :
    identifierFault? cs = none ↔ IsIdentifier cs := by
  constructor
  · intro h
    rcases isIdentifier_or_refuses cs with hidentifier | ⟨fault, hrefuses⟩
    · exact hidentifier
    · rw [identifierFault?_of_refuses hascii hrefuses] at h
      contradiction
  · exact identifierFault?_of_isIdentifier hascii

theorem identifierFault?_eq_some_iff (hascii : ∀ c ∈ cs, c.toNat < 128) :
    identifierFault? cs = some fault ↔ Refuses fault cs := by
  constructor
  · intro h
    rcases isIdentifier_or_refuses cs with hidentifier | ⟨fault', hrefuses⟩
    · rw [identifierFault?_of_isIdentifier hascii hidentifier] at h
      contradiction
    · rw [identifierFault?_of_refuses hascii hrefuses] at h
      exact Option.some.inj h ▸ hrefuses
  · exact identifierFault?_of_refuses hascii

/-! ## Packages -/

/-- The segments of a text in ASCII are in ASCII. -/
theorem ascii_of_pieces {sep : Char} {segments : List (List Char)} (hascii : ∀ c ∈ cs, c.toNat < 128)
    (h : Pieces sep cs segments) : ∀ segment ∈ segments, ∀ c ∈ segment, c.toNat < 128 := by
  obtain rfl := pieces_iff.mp h
  exact fun segment hsegment c hc => hascii c (mem_of_mem_splitOn hsegment hc)

theorem packageFault?_eq_none_iff_forall {segments : List (List Char)} (h : Pieces '.' cs segments) :
    packageFault? cs = none ↔ ∀ segment ∈ segments, identifierFault? segment = none := by
  rw [packageFault?, ← pieces_iff.mp h, List.findSome?_eq_none_iff]

theorem isName_of_packageFault? {segments : List (List Char)} (h : packageFault? cs = none)
    (hpieces : Pieces '.' cs segments) : ∀ segment ∈ segments, IsName segment := fun segment hsegment =>
  isName_of_identifierFault? ((packageFault?_eq_none_iff_forall hpieces).mp h segment hsegment)

/-- An accepted package name is made of name characters and points. -/
theorem eq_or_isNameChar_of_packageFault? (h : packageFault? cs = none) (hc : c ∈ cs) : c = '.' ∨ isNameChar c := by
  have hpieces : Pieces '.' cs (cs.splitOn '.') := pieces_iff.mpr rfl
  rcases hpieces.mem_cases hc with hpoint | ⟨segment, hsegment, hc⟩
  · exact .inl hpoint
  · exact .inr ((isName_of_packageFault? h hpieces segment hsegment).2 c hc)

/-- **In ASCII the package names that are accepted are identifiers with points between them.** -/
theorem packageFault?_eq_none_iff (hascii : ∀ c ∈ cs, c.toNat < 128) : packageFault? cs = none ↔
    ∃ segments, Pieces '.' cs segments ∧ ∀ segment ∈ segments, IsIdentifier segment := by
  have hpieces : Pieces '.' cs (cs.splitOn '.') := pieces_iff.mpr rfl
  constructor
  · intro h
    refine ⟨_, hpieces, fun segment hsegment => ?_⟩
    have haccepted := (packageFault?_eq_none_iff_forall hpieces).mp h segment hsegment
    exact (identifierFault?_eq_none_iff (ascii_of_pieces hascii hpieces segment hsegment)).mp haccepted
  · rintro ⟨segments, hsegments, hidentifiers⟩
    rw [packageFault?_eq_none_iff_forall hsegments]
    intro segment hsegment
    exact identifierFault?_of_isIdentifier (ascii_of_pieces hascii hsegments segment hsegment)
      (hidentifiers segment hsegment)

/-- **The reason against a package name** is the one against its first segment that is no identifier. -/
theorem packageFault?_eq_some_iff (hascii : ∀ c ∈ cs, c.toNat < 128) : packageFault? cs = some fault ↔
    ∃ before segment after, Pieces '.' cs (before ++ segment :: after) ∧
      (∀ earlier ∈ before, IsIdentifier earlier) ∧ Refuses fault segment := by
  rw [packageFault?, List.findSome?_eq_some_iff]
  constructor
  · rintro ⟨before, segment, after, hsplit, hfault, hbefore⟩
    have hpieces : Pieces '.' cs (before ++ segment :: after) := pieces_iff.mpr hsplit.symm
    obtain ⟨hascii, hascii', -⟩ := by
      simpa only [List.forall_mem_append, List.forall_mem_cons] using ascii_of_pieces hascii hpieces
    refine ⟨before, segment, after, hpieces, ?_, (identifierFault?_eq_some_iff hascii').mp hfault⟩
    exact fun earlier hearlier =>
      (identifierFault?_eq_none_iff (hascii earlier hearlier)).mp (hbefore earlier hearlier)
  · rintro ⟨before, segment, after, hpieces, hbefore, hrefuses⟩
    obtain ⟨hascii, hascii', -⟩ := by
      simpa only [List.forall_mem_append, List.forall_mem_cons] using ascii_of_pieces hascii hpieces
    refine ⟨before, segment, after, (pieces_iff.mp hpieces).symm, identifierFault?_of_refuses hascii' hrefuses, ?_⟩
    exact fun earlier hearlier => identifierFault?_of_isIdentifier (hascii earlier hearlier) (hbefore earlier hearlier)

/-! ## Names in all letters -/

/-- A text that keeps to itself wherever it is written: it is not empty, has no blanks, and in ASCII only what an
identifier has, so neither slashes nor points, quotes or semicolons. -/
structure Keeps (cs : List Char) : Prop where
  ne_nil : cs ≠ []
  ink : ∀ c ∈ cs, Text.isBlank c = false
  ascii : ∀ c ∈ cs, c.toNat < 128 → IsNamePart c
  marks : ∀ c ∈ cs, c ∉ ['/', '.', '"', '\'', ';']

theorem isInk_of_isNameChar (h : isNameChar c) : Text.isInk c := by
  rcases isNameChar_iff.mp h with halphanumeric | rfl | rfl
  · exact Text.isInk_of_isAlphanumeric halphanumeric
  · rfl
  · rfl

theorem keeps_of_isName (h : IsName cs) : Keeps cs := by
  obtain ⟨hne, hnamed⟩ := h
  refine ⟨hne, fun c hc => Text.isInk_iff.mp (isInk_of_isNameChar (hnamed c hc)), ?_, ?_⟩
  · exact fun c hc hascii => (isNameChar_iff_of_ascii hascii).mp (hnamed c hc)
  · intro c hc hmem
    have hmarks : ['/', '.', '"', '\'', ';'].any isNameChar = false := by decide +kernel
    exact List.any_eq_false.mp hmarks c hmem (hnamed c hc)

/-- **An accepted name keeps to itself**, in whatever letters it is written. -/
theorem keeps_of_identifierFault? (h : identifierFault? cs = none) : Keeps cs :=
  keeps_of_isName (isName_of_identifierFault? h)

end HalConstants.Java
