import HalConstants.Proofs.EnumDocument.ReadBack

/-!
# Plain texts of enum documents

Groups whose names need no escapes are written as a document without blanks, every case value as an integer.
The text is read back as the groups, so each list of groups with different plain names has a document.
-/

namespace HalConstants.EnumDocument

open Json

variable {a b : Scan} {va vb : List Char} {vs : List Scan} {texts : List (List Char)} {name : String}
variable {path : String} {c : Case} {g : Group} {gs : List Group}

/-- A text that stands for itself between quotes. -/
def IsPlain (name : String) : Prop := ∀ c ∈ name.toList, 0x20 ≤ c.toNat ∧ c ≠ '"' ∧ c ≠ '\\'

instance : DecidablePred IsPlain := fun name =>
  decidable_of_iff (name.toList.all fun c => 0x20 ≤ c.toNat ∧ c ≠ '"' ∧ c ≠ '\\') (by simp [IsPlain])

def quotedText (name : String) : List Char := '"' :: (name.toList ++ ['"'])

def arrayText (texts : List (List Char)) : List Char := '[' :: ([','].intercalate texts ++ [']'])

def memberText (name : String) (value : List Char) : List Char := quotedText name ++ ':' :: value

def caseText (c : Case) : List Char :=
  '\x7b' :: (memberText "name" (quotedText c.name) ++
    ',' :: (memberText "value" (integerText c.value.toInt) ++ ['\x7d']))

def groupText (g : Group) : List Char :=
  '\x7b' :: (memberText "name" (quotedText g.name) ++
    ',' :: (memberText "cases" (arrayText (g.cases.map caseText)) ++ ['\x7d']))

def plainText (gs : List Group) : List Char :=
  '\x7b' :: (memberText "enums" (arrayText (gs.map groupText)) ++ ['\x7d'])

/-- The names of the groups and cases stand for themselves between quotes. -/
def NamesArePlain (gs : List Group) : Prop :=
  ∀ g ∈ gs, IsPlain g.name ∧ ∀ c ∈ g.cases, IsPlain c.name

instance : DecidablePred NamesArePlain := fun gs =>
  inferInstanceAs (Decidable (∀ g ∈ gs, IsPlain g.name ∧ ∀ c ∈ g.cases, IsPlain c.name))

/-! ## Values -/

theorem spells_quotedText (h : IsPlain name) : Spells (.value (.string (.ok name))) (quotedText name) := by
  have hstring := Spells.string (spellsString_self h)
  rwa [String.ofList_toList] at hstring

theorem spells_integerText (i : Int64) :
    Spells (.value (.number (.ok (.integer i.toInt)))) (integerText i.toInt) := by
  have hbound : Int64.maxValue.toInt < 0x10000000000000000 := by decide
  exact .integer i.minValue_le_toInt (Int.lt_of_le_of_lt i.toInt_le hbound)

theorem spells_items (h : List.Forall₂ (fun v text => Spells (.value v) text) (a :: vs) (va :: texts)) :
    Spells (.items (a :: vs)) ([','].intercalate (va :: texts)) := by
  have hgap : ∀ c ∈ ([] : List Char), IsJsonBlank c := List.forall_mem_nil _
  induction texts generalizing a va vs with
  | nil =>
      obtain ⟨ha, hvs⟩ := List.forall₂_cons.mp h
      obtain rfl := List.forall₂_nil_right_iff.mp hvs
      have hitem := Spells.item hgap ha hgap
      rw [List.nil_append, List.append_nil] at hitem
      rwa [List.intercalate_singleton]
  | cons vb texts ih =>
      obtain ⟨ha, hvs⟩ := List.forall₂_cons.mp h
      obtain ⟨b, vs, hb, hmore, rfl⟩ := List.forall₂_cons_right_iff.mp hvs
      rw [List.intercalate_cons_cons, List.append_assoc]
      exact .items hgap ha hgap (ih (.cons hb hmore))

theorem spells_arrayText (h : List.Forall₂ (fun v text => Spells (.value v) text) vs texts) :
    Spells (.value (.array vs none)) (arrayText texts) := by
  cases h with
  | nil => exact .emptyArray (List.forall_mem_nil _)
  | cons ha hvs => exact .array (spells_items (.cons ha hvs))

theorem spells_member (hname : IsPlain name) (h : Spells (.value a) va) :
    Spells (.members [(name, a)]) (memberText name va) := by
  have hgap : ∀ c ∈ ([] : List Char), IsJsonBlank c := List.forall_mem_nil _
  have hmember := Spells.member hgap (spellsString_self hname) hgap hgap h hgap
  rw [String.ofList_toList] at hmember
  simpa [memberText, quotedText] using hmember

theorem spells_members {ms : List (String × Scan)} {more : List Char} (hname : IsPlain name)
    (h : Spells (.value a) va) (hmore : Spells (.members ms) more) :
    Spells (.members ((name, a) :: ms)) (memberText name va ++ ',' :: more) := by
  have hgap : ∀ c ∈ ([] : List Char), IsJsonBlank c := List.forall_mem_nil _
  have hmembers := Spells.members hgap (spellsString_self hname) hgap hgap h hgap hmore
  rw [String.ofList_toList] at hmembers
  simpa [memberText, quotedText] using hmembers

/-! ## Documents -/

def caseScan (c : Case) : Scan :=
  .object (keyed [("name", .string (.ok c.name)), ("value", .number (.ok (.integer c.value.toInt)))]) none

def groupScan (g : Group) : Scan :=
  .object (keyed [("name", .string (.ok g.name)), ("cases", .array (g.cases.map caseScan) none)]) none

theorem spells_caseText (h : IsPlain c.name) : Spells (.value (caseScan c)) (caseText c) := by
  have hkeys : IsPlain "name" ∧ IsPlain "value" := by decide
  have hmembers := spells_members hkeys.1 (spells_quotedText h)
    (spells_member hkeys.2 (spells_integerText c.value))
  simpa [caseScan, caseText] using Spells.object hmembers

theorem spells_groupText (hname : IsPlain g.name) (hcases : ∀ c ∈ g.cases, IsPlain c.name) :
    Spells (.value (groupScan g)) (groupText g) := by
  have hkeys : IsPlain "name" ∧ IsPlain "cases" := by decide
  have hitems : List.Forall₂ (fun v text => Spells (.value v) text) (g.cases.map caseScan)
      (g.cases.map caseText) := by
    rw [List.forall₂_map_left_iff, List.forall₂_map_right_iff, List.forall₂_same]
    exact fun c hc => spells_caseText (hcases c hc)
  have hmembers := spells_members hkeys.1 (spells_quotedText hname)
    (spells_member hkeys.2 (spells_arrayText hitems))
  simpa [groupScan, groupText] using Spells.object hmembers

theorem showsGroup_groupScan (g : Group) : ShowsGroup g (groupScan g) := by
  have hcases : List.Forall₂ ShowsCase g.cases (g.cases.map caseScan) := by
    rw [List.forall₂_map_right_iff, List.forall₂_same]
    exact fun c _ => .mk .integer .ordered
  exact .listed hcases .ordered

theorem writesDocument_plainText (h : NamesArePlain gs) : WritesDocument gs (plainText gs) := by
  have hgap : ∀ c ∈ ([] : List Char), IsJsonBlank c := List.forall_mem_nil _
  have hkey : IsPlain "enums" := by decide
  have hitems : List.Forall₂ (fun v text => Spells (.value v) text) (gs.map groupScan)
      (gs.map groupText) := by
    rw [List.forall₂_map_left_iff, List.forall₂_map_right_iff, List.forall₂_same]
    exact fun g hg => spells_groupText (h g hg).1 (h g hg).2
  have hgroups : List.Forall₂ ShowsGroup gs (gs.map groupScan) := by
    rw [List.forall₂_map_right_iff, List.forall₂_same]
    exact fun g _ => showsGroup_groupScan g
  have hdocument := Spells.object (spells_member hkey (spells_arrayText hitems))
  have hwrites := WritesDocument.mk hgap hdocument hgap (.mk hgroups rfl)
  rwa [List.append_nil, List.nil_append] at hwrites

/-- **Groups with different plain names have a document.** -/
theorem parse_plainText (h : NamesArePlain gs) (hnames : (gs.map (·.name)).Nodup) :
    parse path (String.ofList (plainText gs)) = .ok gs := by
  have hwrites : WritesDocument gs (String.ofList (plainText gs)).toList := by
    rw [String.toList_ofList]
    exact writesDocument_plainText h
  exact parse_of_writesDocument hwrites hnames

example : String.ofList (plainText [⟨"G", [⟨"A", -1⟩]⟩, ⟨"H", []⟩]) =
    "\x7b\"enums\":[\x7b\"name\":\"G\",\"cases\":[\x7b\"name\":\"A\",\"value\":-1\x7d]\x7d," ++
      "\x7b\"name\":\"H\",\"cases\":[]\x7d]\x7d" := by
  decide +kernel

end HalConstants.EnumDocument
