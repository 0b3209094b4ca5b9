import HalConstants.Proofs.Code.Lines
import HalConstants.Proofs.EnumDocument.PlainText
import HalConstants.Proofs.Review.Silence
import HalConstants.Proofs.Text.Uppercase
import HalConstants.Target.PythonDocument
import Mathlib.Data.List.Nodup

/-!
# The names of the Python constants module

The module assigns a name for each case: the name of the group in upper case, an underscore and the name of
the case. A document repeats no name of a group, and without warnings no group repeats a name of a case. Two
cases still get one name in two ways. Their groups have one upper case and the cases one name; or the upper
case of one group ends at an underscore in the upper case of the other, and the name of its case goes on with
the rest. Both need two groups, so no name is assigned twice if and only if no two groups collide.
-/

namespace HalConstants.Python

variable {path content name name' case case' : String} {groups : List Group} {g g' : Group}

/-- The names that a module assigns, in order. -/
def assignedNames (groups : List Group) : List String := (groups.flatMap assignments).map (·.name)

/-- The groups have one upper case and a case in common. -/
def Coincide (g g' : Group) : Prop :=
  Text.toUpper g.name.toList = Text.toUpper g'.name.toList ∧
    ∃ c ∈ g.cases, ∃ c' ∈ g'.cases, c.name = c'.name

/-- The upper case of the second group goes on behind that of the first one as one of its cases does. -/
def RunsInto (g g' : Group) : Prop :=
  ∃ mid, Text.toUpper g'.name.toList = Text.toUpper g.name.toList ++ '_' :: mid ∧
    ∃ c ∈ g.cases, ∃ c' ∈ g'.cases, c.name.toList = mid ++ '_' :: c'.name.toList

def Collide (g g' : Group) : Prop := Coincide g g' ∨ RunsInto g g' ∨ RunsInto g' g

theorem toList_constantName (name case : String) :
    (constantStem name ++ case).toList = Text.toUpper name.toList ++ '_' :: case.toList := by
  rw [constantStem, String.toList_append, String.toList_ofList, List.append_assoc, List.singleton_append]

theorem constantName_eq_iff : constantStem name ++ case = constantStem name' ++ case' ↔
    (Text.toUpper name.toList = Text.toUpper name'.toList ∧ case = case') ∨
      (∃ mid, Text.toUpper name'.toList = Text.toUpper name.toList ++ '_' :: mid ∧
        case.toList = mid ++ '_' :: case'.toList) ∨
      ∃ mid, Text.toUpper name.toList = Text.toUpper name'.toList ++ '_' :: mid ∧
        case'.toList = mid ++ '_' :: case.toList := by
  rw [← String.toList_inj, toList_constantName, toList_constantName, append_cons_eq_append_cons_iff,
    String.toList_inj]

theorem mem_assignments_iff : name ∈ (assignments g).map (·.name) ↔
    ∃ c ∈ g.cases, constantStem g.name ++ c.name = name := by
  rw [assignments, List.map_map, List.mem_map]
  rfl

theorem nodup_assignments (h : (g.cases.map (·.name)).Nodup) : ((assignments g).map (·.name)).Nodup := by
  have hnames : (assignments g).map (·.name) = (g.cases.map (·.name)).map (constantStem g.name ++ ·) := by
    rw [assignments, List.map_map, List.map_map]
    rfl
  rw [hnames]
  exact h.map fun a b hab => (String.append_right_inj _).mp hab

/-- Groups share a name exactly if they collide. -/
theorem disjoint_iff_not_collide :
    List.Disjoint ((assignments g).map (·.name)) ((assignments g').map (·.name)) ↔ ¬ Collide g g' := by
  have hshared : Collide g g' ↔ ∃ c ∈ g.cases, ∃ c' ∈ g'.cases,
      constantStem g.name ++ c.name = constantStem g'.name ++ c'.name := by
    simp only [constantName_eq_iff]
    constructor
    · rintro (⟨hupper, c, hc, c', hc', hname⟩ | ⟨mid, hmid, c, hc, c', hc', hname⟩ |
        ⟨mid, hmid, c', hc', c, hc, hname⟩)
      · exact ⟨c, hc, c', hc', .inl ⟨hupper, hname⟩⟩
      · exact ⟨c, hc, c', hc', .inr (.inl ⟨mid, hmid, hname⟩)⟩
      · exact ⟨c, hc, c', hc', .inr (.inr ⟨mid, hmid, hname⟩)⟩
    · rintro ⟨c, hc, c', hc', ⟨hupper, hname⟩ | ⟨mid, hmid, hname⟩ | ⟨mid, hmid, hname⟩⟩
      · exact .inl ⟨hupper, c, hc, c', hc', hname⟩
      · exact .inr (.inl ⟨mid, hmid, c, hc, c', hc', hname⟩)
      · exact .inr (.inr ⟨mid, hmid, c', hc', c, hc, hname⟩)
  rw [hshared]
  constructor
  · rintro hdisjoint ⟨c, hc, c', hc', hname⟩
    exact hdisjoint (mem_assignments_iff.mpr ⟨c, hc, hname⟩) (mem_assignments_iff.mpr ⟨c', hc', rfl⟩)
  · intro hnone name hname hname'
    obtain ⟨c, hc, rfl⟩ := mem_assignments_iff.mp hname
    obtain ⟨c', hc', heq⟩ := mem_assignments_iff.mp hname'
    exact hnone ⟨c, hc, c', hc', heq.symm⟩

theorem nodup_assignedNames_iff (h : ∀ g ∈ groups, (g.cases.map (·.name)).Nodup) :
    (assignedNames groups).Nodup ↔ groups.Pairwise (¬ Collide · ·) := by
  have hdisjoint : Function.onFun List.Disjoint (fun g => (assignments g).map (·.name)) = (¬ Collide · ·) :=
    funext₂ fun g g' => propext disjoint_iff_not_collide
  rw [assignedNames, List.map_flatMap, List.nodup_flatMap, hdisjoint]
  exact and_iff_right fun g hg => nodup_assignments (h g hg)

/-- Where one group runs into another, the name of the other has an underscore. -/
theorem underscore_mem_of_runsInto (h : RunsInto g g') : '_' ∈ g'.name.toList := by
  obtain ⟨mid, hmid, -⟩ := h
  apply Text.underscore_mem_of_mem_toUpper
  rw [hmid]
  exact List.mem_append_right _ List.mem_cons_self

theorem not_collide (hupper : Text.toUpper g.name.toList ≠ Text.toUpper g'.name.toList)
    (hg : '_' ∉ g.name.toList) (hg' : '_' ∉ g'.name.toList) : ¬ Collide g g' := by
  rintro (⟨heq, -⟩ | hinto | hinto)
  · exact hupper heq
  · exact hg' (underscore_mem_of_runsInto hinto)
  · exact hg (underscore_mem_of_runsInto hinto)

/-- **A name is assigned twice exactly if two groups collide**, in a module of a document that gives no
warnings. Groups whose names differ in upper case and have no underscores do not. -/
theorem assigned_names_of_document (hparse : EnumDocument.parse path content = .ok groups)
    (hwarnings : (Review.ofModel { groups := groups }).warnings = []) :
    (groups.map (·.name)).Nodup ∧
      ((assignedNames groups).Nodup ↔ groups.Pairwise (¬ Collide · ·)) ∧
      ((groups.map (Text.toUpper ·.name.toList)).Nodup → (∀ g ∈ groups, '_' ∉ g.name.toList) →
        (assignedNames groups).Nodup) := by
  have hclean : Model.IsClean { groups := groups } :=
    (warnings_validate_eq_iff { model := { groups := groups } }).mp hwarnings
  have hiff := nodup_assignedNames_iff fun g hg => (hclean.cases g hg).2
  refine ⟨EnumDocument.nodup_names_of_parse hparse, hiff, ?_⟩
  intro hupper hunderscore
  rw [hiff]
  refine (List.pairwise_map.mp hupper).imp_of_mem ?_
  intro g g' hg hg' hne
  exact not_collide hne (hunderscore g hg) (hunderscore g' hg')

/-- Groups that only differ in case, without a case in common, and groups that part from their cases at
different underscores. -/
def nearMisses : List Group :=
  [⟨"Gear", [⟨"PARK", 1⟩]⟩, ⟨"GEAR", [⟨"DRIVE", 8⟩]⟩, ⟨"A", [⟨"B_C", 1⟩]⟩, ⟨"A_B", [⟨"D", 2⟩]⟩]

theorem assigned_names_of_document_near_misses :
    EnumDocument.parse "types.json" (String.ofList (EnumDocument.plainText nearMisses)) = .ok nearMisses ∧
      (Review.ofModel { groups := nearMisses }).warnings = [] ∧ nearMisses.Pairwise (¬ Collide · ·) := by
  have hparse : EnumDocument.parse "types.json" (String.ofList (EnumDocument.plainText nearMisses)) =
      .ok nearMisses := EnumDocument.parse_plainText (by decide +kernel) (by decide +kernel)
  have hwarnings : (Review.ofModel { groups := nearMisses }).warnings = [] := by decide +kernel
  have hnames : (assignedNames nearMisses).Nodup := by decide +kernel
  exact ⟨hparse, hwarnings, (assigned_names_of_document hparse hwarnings).2.1.mp hnames⟩

/-- Groups that only differ in case. -/
def twins : List Group := [⟨"Gear", [⟨"PARK", 1⟩]⟩, ⟨"GEAR", [⟨"PARK", 2⟩]⟩]

/-- Groups that part from their cases at different underscores. -/
def neighbours : List Group := [⟨"A", [⟨"B_C", 1⟩]⟩, ⟨"A_B", [⟨"C", 2⟩]⟩]

/-- Their documents give no warnings, and the second assignment replaces the first. -/
theorem name_assigned_twice :
    (EnumDocument.parse "types.json" (String.ofList (EnumDocument.plainText twins)) = .ok twins ∧
      (Review.ofModel { groups := twins }).warnings = [] ∧
      assignedNames twins = ["GEAR_PARK", "GEAR_PARK"] ∧ ¬ (assignedNames twins).Nodup) ∧
    EnumDocument.parse "types.json" (String.ofList (EnumDocument.plainText neighbours)) = .ok neighbours ∧
      (Review.ofModel { groups := neighbours }).warnings = [] ∧
      assignedNames neighbours = ["A_B_C", "A_B_C"] ∧ ¬ (assignedNames neighbours).Nodup := by
  have htwins : EnumDocument.parse "types.json" (String.ofList (EnumDocument.plainText twins)) =
      .ok twins := EnumDocument.parse_plainText (by decide +kernel) (by decide +kernel)
  have hneighbours : EnumDocument.parse "types.json" (String.ofList (EnumDocument.plainText neighbours)) =
      .ok neighbours := EnumDocument.parse_plainText (by decide +kernel) (by decide +kernel)
  refine ⟨⟨htwins, ?_⟩, hneighbours, ?_⟩
  · decide +kernel
  · decide +kernel

end HalConstants.Python
