import HalConstants.Proofs.Code.Lines
import HalConstants.Proofs.Text.Numeral
import HalConstants.Proofs.Text.Uppercase
import HalConstants.Target.PythonDocument

/-!
# The lines of the Python constants module

Between a front and an end that the options decide alone, the module has the lines of its groups one after
the other (`groupLines`). A blank line starts a group, and no other line of a group is blank, so the groups
are told apart whatever their names look like. In the line of a case the number behind the last equals sign
has no blank and is read back as the value.
-/

namespace HalConstants.Python

variable {o : Options} {g g' : Group} {groups groups' : List Group} {c d : Case} {stem : String}

/-- The lines in front of the groups. -/
def front (o : Options) : List String :=
  layout.linesOfAll 0 ({ year := o.year : License }.fragments .hash ++
    [.comment "", .comment "DO NOT EDIT MANUALLY",
      .comment s!"This file was autogenerated by {o.generatorLabel}"])

/-- The lines behind the groups. -/
def back (o : Options) : List String :=
  layout.linesOfAll 0
    ([.blank, .comment "Create a container of value_type constants to be used by vhal_emulator"] ++
      (valueTypesClass o.halVersion).fragments)

def assignmentLine (stem : String) (c : Case) : String :=
  stem ++ c.name ++ " = " ++ hexText c.value

/-- The name of a group as a comment, and a line for each case. -/
def groupBody (g : Group) : List String :=
  CommentStyle.hash.line g.name :: g.cases.map (assignmentLine (constantStem g.name))

def groupLines (g : Group) : List String := "" :: groupBody g

def NamesAreLines (groups : List Group) : Prop :=
  ∀ g ∈ groups, IsLine g.name ∧ ∀ c ∈ g.cases, IsLine c.name

instance : DecidablePred NamesAreLines := fun groups =>
  inferInstanceAs (Decidable (∀ g ∈ groups, IsLine g.name ∧ ∀ c ∈ g.cases, IsLine c.name))

/-! ## The lines of a module -/

theorem margin_zero : layout.margin 0 = "" := rfl

theorem linesOfAll_assignments (g : Group) :
    layout.linesOfAll 0 ((assignments g).map (·.fragment)) =
      g.cases.map (assignmentLine (constantStem g.name)) := by
  unfold Assignment.fragment
  rw [Layout.linesOfAll_map_line, assignments, List.map_map, margin_zero]
  simp only [String.empty_append]
  rfl

theorem lines_groupFragments (g : Group) : layout.linesOfAll 0 (groupFragments g) = groupLines g := by
  rw [groupFragments, Layout.linesOfAll, Layout.linesOfAll, linesOfAll_assignments, Layout.lines, Layout.lines,
    margin_zero, String.empty_append]
  rfl

theorem linesOfAll_fragments :
    layout.linesOfAll 0 (fragments o groups) = front o ++ groups.flatMap groupLines ++ back o := by
  have hgroups : layout.linesOfAll 0 (groups.flatMap groupFragments) = groups.flatMap groupLines := by
    rw [Layout.linesOfAll_eq_flatMap, List.flatMap_assoc]
    simp only [← Layout.linesOfAll_eq_flatMap, lines_groupFragments]
  rw [fragments, List.append_assoc, Layout.linesOfAll_append, Layout.linesOfAll_append, hgroups, front,
    back]

theorem blankFree_hexText (v : Int64) : BlankFree (hexText v) := by
  have hdigits : ∀ c ∈ Nat.toDigits 16 v.toInt.natAbs, Text.isInk c :=
    Text.isInk_of_mem_digits (Text.digitValue?_of_readDigits
      (Text.readDigits_toDigits (by decide) (by decide) v.toInt.natAbs))
  have hsign : ∀ c ∈ (if v.toInt < 0 then ['-'] else []), Text.isInk c := by
    split
    · exact List.forall_mem_singleton.mpr rfl
    · exact List.forall_mem_nil _
  rw [BlankFree, hexText, String.toList_ofList, Text.hexLiteral, List.forall_mem_append, List.forall_mem_cons,
    List.forall_mem_cons]
  exact ⟨hsign, by decide, by decide, hdigits⟩

theorem isLine_constantStem {name : String} (h : IsLine name) : IsLine (constantStem name) := by
  rw [IsLine, constantStem, String.toList_ofList, List.mem_append]
  rintro (hmem | hmem)
  · exact h (Text.mem_of_mem_toUpper (by decide) hmem)
  · contradiction

theorem isLine_valueTypesClass (v : HalVersion) : IsLine s!"class {(valueTypesClass v).name}:" := by
  have hparts : IsLine "class " ∧ IsLine "vhal_types_" ∧ IsLine "_" ∧ IsLine ":" := by decide
  have hsuffix : IsLine v.suffix :=
    isLine_append (isLine_append (isLine_nat _) hparts.2.2.1) (isLine_nat _)
  exact isLine_append (isLine_append hparts.1 (isLine_append hparts.2.1 hsuffix)) hparts.2.2.2

theorem isLine_continuation {margin : String} {items : List String} (hmargin : IsLine margin)
    (h : ∀ item ∈ items, IsLine item) : ∀ text ∈ continuation margin items, IsLine text := by
  have hmarks : IsLine "]" ∧ IsLine "," := by decide
  induction items with
  | nil => simp [continuation]
  | cons item items ih =>
      obtain ⟨hitem, hitems⟩ := List.forall_mem_cons.mp h
      have hstart := isLine_append hmargin hitem
      cases items with
      | nil => simpa [continuation] using isLine_append hstart hmarks.1
      | cons next items =>
          rw [continuation, List.forall_mem_cons]
          · exact ⟨isLine_append hstart hmarks.2, ih hitems⟩
          · simp

theorem isLine_attributeLines {width : Nat} {name : String} {items : List String} (hname : IsLine name)
    (h : ∀ item ∈ items, IsLine item) : ∀ text ∈ attributeLines width name items, IsLine text := by
  have hmarks : IsLine " = [" ∧ IsLine "]" ∧ IsLine "," := by decide
  have hpadded : IsLine (padded width name) := isLine_pushn hname _
  have hhead := isLine_append hpadded hmarks.1
  cases items with
  | nil => simpa [attributeLines] using isLine_append hhead hmarks.2.1
  | cons item items =>
      obtain ⟨hitem, hitems⟩ := List.forall_mem_cons.mp h
      have hstart := isLine_append hhead hitem
      cases items with
      | nil => simpa [attributeLines] using isLine_append hstart hmarks.2.1
      | cons next items =>
          rw [attributeLines, List.forall_mem_cons]
          · exact ⟨isLine_append hstart hmarks.2.2,
              isLine_continuation (isLine_pushn (isLine_ofList List.not_mem_nil) _) hitems⟩
          · simp

/-- The names and the items of a class hold no line breaks. -/
def Class.AttributesAreLines (c : Class) : Prop :=
  ∀ row ∈ c.attributes, IsLine row.1 ∧ ∀ item ∈ row.2, IsLine item

instance : DecidablePred Class.AttributesAreLines := fun c =>
  inferInstanceAs (Decidable (∀ row ∈ c.attributes, IsLine row.1 ∧ ∀ item ∈ row.2, IsLine item))

theorem Class.AttributesAreLines.isLine {c : Class} (h : c.AttributesAreLines) :
    ∀ text ∈ c.bodyLines, IsLine text := by
  rw [Class.bodyLines]
  split
  · simpa using (by decide : IsLine "pass")
  · intro text htext
    obtain ⟨row, hrow, htext⟩ := List.mem_flatMap.mp htext
    exact isLine_attributeLines (h row hrow).1 (h row hrow).2 text htext

theorem isLine_valueTypes : ∀ t ∈ valueTypes, IsLine t.1 ∧ ∀ item ∈ t.2, IsLine item := by
  simp only [valueTypes, List.forall_mem_cons, List.not_mem_nil, false_implies, implies_true, and_true]
  refine ⟨⟨?_, ?_⟩, ⟨?_, ?_⟩, ⟨?_, ?_, ?_⟩, ⟨?_, ?_⟩, ⟨?_, ?_⟩, ⟨?_, ?_⟩, ⟨?_, ?_⟩, ⟨?_, ?_⟩⟩ <;>
    exact isLine_ofList (by decide)

theorem attributesAreLines_valueTypesClass (v : HalVersion) : (valueTypesClass v).AttributesAreLines := by
  have hstem : IsLine (constantStem "VehiclePropertyType") :=
    isLine_constantStem (isLine_ofList (by decide))
  intro row hrow
  obtain ⟨t, ht, rfl⟩ := List.mem_map.mp hrow
  obtain ⟨hname, hitems⟩ := isLine_valueTypes t ht
  refine ⟨hname, ?_⟩
  rw [List.forall_mem_map]
  exact fun item hitem => isLine_append hstem (hitems item hitem)

theorem plain_groupFragments (hname : IsLine g.name) (hcases : ∀ c ∈ g.cases, IsLine c.name) :
    ∀ f ∈ groupFragments g, f.Plain := by
  have hassign : ∀ c ∈ g.cases, IsLine (constantStem g.name ++ c.name ++ " = " ++ hexText c.value) := by
    intro c hc
    have hequals : IsLine " = " := by decide
    exact isLine_append
      (isLine_append (isLine_append (isLine_constantStem hname) (hcases c hc)) hequals)
      (blankFree_hexText c.value).isLine
  rw [groupFragments, assignments, List.forall_mem_cons, List.forall_mem_cons, List.map_map,
    List.forall_mem_map]
  exact ⟨.blank, .comment hname, fun c hc => .line (hassign c hc)⟩

theorem plain_valueTypesClass (v : HalVersion) : ∀ f ∈ (valueTypesClass v).fragments, f.Plain := by
  rw [Class.fragments, List.forall_mem_singleton]
  refine .block (isLine_valueTypesClass v) ?_ (by simp)
  rw [List.forall_mem_map]
  exact fun text htext => .line ((attributesAreLines_valueTypesClass v).isLine text htext)

theorem plain_fragments (hlabel : IsLine o.generatorLabel) (h : NamesAreLines groups) :
    ∀ f ∈ fragments o groups, f.Plain := by
  have hnotice : IsLine s!"This file was autogenerated by {o.generatorLabel}" := by
    have htext : IsLine "This file was autogenerated by " := isLine_ofList (by decide)
    exact isLine_append htext hlabel
  have hfixed : IsLine "" ∧ IsLine "DO NOT EDIT MANUALLY" ∧
      IsLine "Create a container of value_type constants to be used by vhal_emulator" :=
    ⟨isLine_ofList (by decide), isLine_ofList (by decide), isLine_ofList (by decide)⟩
  have hgroups : ∀ f ∈ groups.flatMap groupFragments, f.Plain := by
    intro f hf
    obtain ⟨g, hg, hf⟩ := List.mem_flatMap.mp hf
    exact plain_groupFragments (h g hg).1 (h g hg).2 f hf
  have hholder : IsLine "The Android Open Source Project" := isLine_ofList (by decide)
  have hlicense := License.plain_fragments { year := o.year } hholder .hash
  simp only [fragments, List.forall_mem_append, List.forall_mem_cons, List.not_mem_nil, false_implies,
    implies_true, and_true]
  exact ⟨⟨⟨⟨hlicense, .comment hfixed.1, .comment hfixed.2.1, .comment hnotice⟩, hgroups⟩, .blank,
    .comment hfixed.2.2⟩, plain_valueTypesClass o.halVersion⟩

/-! ## Reading the lines -/

theorem readInt64?_hexText (v : Int64) : Text.readInt64? (hexText v).toList = some v := by
  rw [hexText, String.toList_ofList]
  exact Text.readInt64?_of_writesNumber (Text.writesNumber_hexLiteral v)

theorem hexText_inj {v w : Int64} (h : hexText v = hexText w) : v = w := by
  have hread := readInt64?_hexText v
  rw [h, readInt64?_hexText] at hread
  exact (Option.some.inj hread).symm

theorem assignmentLine_inj (h : assignmentLine stem c = assignmentLine stem d) : c = d := by
  have hcs : stem.toList ++ c.name.toList ++ [' ', '='] ++ ' ' :: (hexText c.value).toList =
      stem.toList ++ d.name.toList ++ [' ', '='] ++ ' ' :: (hexText d.value).toList := by
    have := congrArg String.toList h
    simpa [assignmentLine] using this
  obtain ⟨hname, hvalue⟩ := append_space_inj_right (blankFree_hexText _) (blankFree_hexText _) hcs
  rw [List.append_left_inj, List.append_right_inj, String.toList_inj] at hname
  rw [String.toList_inj] at hvalue
  obtain ⟨name, value⟩ := c
  obtain ⟨name', value'⟩ := d
  obtain rfl : name = name' := hname
  obtain rfl : value = value' := hexText_inj hvalue
  rfl

theorem toList_comment (name : String) : (CommentStyle.hash.line name).toList =
    if name.toList = [] then ['#'] else '#' :: ' ' :: name.toList := by
  rw [CommentStyle.line]
  simp only [String.isEmpty_iff, ← String.toList_eq_nil_iff]
  split <;> simp [CommentStyle.marker]

theorem comment_inj {a b : String} (h : CommentStyle.hash.line a = CommentStyle.hash.line b) : a = b := by
  have hcs := congrArg String.toList h
  rw [toList_comment, toList_comment] at hcs
  apply String.toList_injective
  split at hcs <;> split at hcs <;> simp_all

theorem blank_notMem_groupBody (g : Group) : ∀ l ∈ groupBody g, l ≠ "" := by
  rw [groupBody, List.forall_mem_cons, List.forall_mem_map]
  constructor
  · intro h
    have hcs := congrArg String.toList h
    rw [toList_comment] at hcs
    split at hcs <;> simp at hcs
  · intro c _ h
    have hcs := congrArg String.toList h
    simp [assignmentLine] at hcs

theorem groupBody_inj (g g' : Group) (h : groupBody g = groupBody g') : g = g' := by
  obtain ⟨name, cases⟩ := g
  obtain ⟨name', cases'⟩ := g'
  obtain ⟨hname, hcases⟩ := List.cons.inj h
  obtain rfl : name = name' := comment_inj hname
  obtain rfl : cases = cases' := (List.map_inj_right fun c d => assignmentLine_inj).mp hcases
  rfl

theorem flatMap_groupLines_inj (h : groups.flatMap groupLines = groups'.flatMap groupLines) :
    groups = groups' :=
  flatMap_mark_inj "" [] groupBody (p := (· ≠ "")) (by simp) (fun g _ => blank_notMem_groupBody g)
    (fun g _ => blank_notMem_groupBody g) groupBody_inj h

/-- **The module determines its groups**, and every number in it is read back. -/
theorem document_determines_groups (o : Options) (m m' : Model) (hlabel : IsLine o.generatorLabel)
    (hm : NamesAreLines m.groups) (hm' : NamesAreLines m'.groups) :
    linesOf (document o m).text = front o ++ m.groups.flatMap groupLines ++ back o ++ [""] ∧
      (∀ v : Int64, Text.readInt64? (hexText v).toList = some v) ∧
      ((document o m).text = (document o m').text ↔ m.groups = m'.groups) := by
  have hplain := plain_fragments hlabel hm
  refine ⟨?_, readInt64?_hexText, ?_, ?_⟩
  · rw [document, linesOf_render hplain, linesOfAll_fragments]
  · intro h
    have hlines := linesOfAll_inj_of_render hplain (plain_fragments hlabel hm') h
    rw [linesOfAll_fragments, linesOfAll_fragments, List.append_left_inj, List.append_right_inj] at hlines
    exact flatMap_groupLines_inj hlines
  · intro h
    rw [document, document, h]

/-- A group that is named like the first line behind all groups, and a case like an assignment. -/
def lookalikes : Model where
  groups := [
    ⟨"Create a container of value_type constants to be used by vhal_emulator", [⟨"A = 0x1", .minValue⟩]⟩,
    ⟨"", []⟩]

theorem document_determines_groups_lookalikes :
    linesOf (document { year := 2017 } lookalikes).text = front { year := 2017 } ++ [
        "", "# Create a container of value_type constants to be used by vhal_emulator",
        "CREATE A CONTAINER OF VALUE_TYPE CONSTANTS TO BE USED BY VHAL_EMULATOR_A = 0x1 = -0x8000000000000000",
        "", "#"] ++ back { year := 2017 } ++ [""] ∧
      (document { year := 2017 } lookalikes).text ≠ (document { year := 2017 } {}).text := by
  have hlines : lookalikes.groups.flatMap groupLines = [
      "", "# Create a container of value_type constants to be used by vhal_emulator",
      "CREATE A CONTAINER OF VALUE_TYPE CONSTANTS TO BE USED BY VHAL_EMULATOR_A = 0x1 = -0x8000000000000000",
      "", "#"] := by decide +kernel
  obtain ⟨htext, -, hiff⟩ := document_determines_groups { year := 2017 } lookalikes {}
    (isLine_ofList (by decide)) (by decide +kernel) (by decide)
  rw [hlines] at htext
  exact ⟨htext, fun h => absurd (hiff.mp h) (by decide +kernel)⟩

end HalConstants.Python
