import HalConstants.Header.Model
import HalConstants.Proofs.Review.Silence
import HalConstants.Proofs.Target.JavaLines
import Mathlib.Data.List.Nodup

/-!
# The declarations of the Java constants class

The class of a model declares a constant for each property and a nested class for each enumeration, with a
constant for each entry. The constants keep the names of the model, so a model without warnings declares none
of them twice. A nested class is named by `typeName`, which joins the pieces of a name, and no lint looks at
the names of enumerations: the nested classes are distinct exactly if their joined names are. Distinct names
stay distinct where all of them are in snake case, and where all of them start in upper case.
-/

namespace HalConstants.Java

variable {o : Options} {m : Model} {piece : List Char} {name name' : String}

/-- What a class declares besides nested classes. -/
structure Declarations where
  name : String
  fields : List Constant
  methods : List Switch

structure Outline extends Declarations where
  nested : List Declarations

namespace Declarations

def fieldNames (d : Declarations) : List String := d.fields.map (·.name)

def members (d : Declarations) : List (List Fragment) :=
  constantMember d.fields ++ d.methods.map (·.fragments)

def toNested (d : Declarations) : Class where
  name := d.name
  nested := true
  members := d.members

end Declarations

namespace Outline

/-- The class with these declarations. -/
def toClass (d : Outline) : Class where
  name := d.name
  members := d.members ++ d.nested.map (·.toNested.fragments)

/-- No scope declares a name twice. -/
structure ClashFree (d : Outline) : Prop where
  fields : d.fieldNames.Nodup
  nestedFields : ∀ n ∈ d.nested, n.fieldNames.Nodup
  nestedNames : (d.nested.map (·.name)).Nodup

instance (d : Outline) : Decidable d.ClashFree :=
  decidable_of_iff
    (d.fieldNames.Nodup ∧ (∀ n ∈ d.nested, n.fieldNames.Nodup) ∧ (d.nested.map (·.name)).Nodup)
    ⟨fun ⟨hfields, hnested, hnames⟩ => ⟨hfields, hnested, hnames⟩,
      fun ⟨hfields, hnested, hnames⟩ => ⟨hfields, hnested, hnames⟩⟩

end Outline

def enumerationDeclarations (e : Enumeration) : Declarations where
  name := typeName e.name
  fields := e.entries.map entryConstant
  methods := [enumToStringMethod e]

def outline (o : Options) (m : Model) : Outline where
  name := o.className
  fields := m.properties.map propertyConstant
  methods := valueTypeMethod o m.properties :: methods o m.properties
  nested := m.enumerations.map enumerationDeclarations

theorem toNested_enumerationDeclarations (e : Enumeration) :
    (enumerationDeclarations e).toNested = enumerationClass e := by
  rw [enumerationClass_eq]
  rfl

/-- The outline of a model makes up its class. -/
theorem toClass_outline (o : Options) (m : Model) : (outline o m).toClass = constantsClass o m := by
  have hnested : (outline o m).nested.map (·.toNested.fragments) =
      m.enumerations.map fun e => (enumerationClass e).fragments := by
    simp only [outline, List.map_map, Function.comp_def, toNested_enumerationDeclarations]
  rw [constantsClass_eq, Outline.toClass, hnested]
  simp only [outline, Declarations.members, List.map_cons, List.append_assoc, List.cons_append]

theorem fieldNames_enumerationDeclarations (e : Enumeration) :
    (enumerationDeclarations e).fieldNames = e.entries.map (·.name) := by
  rw [Declarations.fieldNames, enumerationDeclarations, List.map_map]
  rfl

theorem fieldNames_outline : (outline o m).fieldNames = m.properties.map (·.name) := by
  rw [Declarations.fieldNames, outline, List.map_map]
  rfl

theorem forall_nested_outline : (∀ n ∈ (outline o m).nested, n.fieldNames.Nodup) ↔
    ∀ e ∈ m.enumerations, (e.entries.map (·.name)).Nodup := by
  simp only [outline, List.forall_mem_map, fieldNames_enumerationDeclarations]

theorem clashFree_outline_iff : (outline o m).ClashFree ↔
    (m.properties.map (·.name)).Nodup ∧ (∀ e ∈ m.enumerations, (e.entries.map (·.name)).Nodup) ∧
      (m.enumerations.map (typeName ·.name)).Nodup := by
  have hnames : (outline o m).nested.map (·.name) = m.enumerations.map (typeName ·.name) := by
    rw [outline, List.map_map]
    rfl
  rw [← fieldNames_outline (o := o), ← forall_nested_outline (o := o), ← hnames]
  constructor
  · rintro ⟨hfields, hnested, hnames⟩
    exact ⟨hfields, hnested, hnames⟩
  · rintro ⟨hfields, hnested, hnames⟩
    exact ⟨hfields, hnested, hnames⟩

/-! ## Names of nested classes -/

/-- A piece of a name in snake case, which has no capital until it is capitalized. -/
def IsSnakePiece (piece : List Char) : Prop :=
  ∃ c cs, piece = c :: cs ∧ c.isLower ∧ ∀ d ∈ cs, d.isUpper = false

/-- Every piece between underscores starts with a small letter and has no capitals. -/
def IsSnake (name : String) : Prop := ∀ piece ∈ name.toList.splitOn '_', IsSnakePiece piece

def StartsInUpperCase (name : String) : Prop := name.toList.head?.any Text.isUppercase

/-- Takes `capitalize` back. -/
def uncapitalize : List Char → List Char
  | [] => []
  | c :: cs => c.toLower :: cs

theorem typeName_of_startsInUpperCase (h : StartsInUpperCase name) : typeName name = name := by
  unfold StartsInUpperCase at h
  rw [typeName, typeNameChars, if_pos h, String.ofList_toList]

theorem isMarked_capitalize (h : IsSnakePiece piece) : IsMarked (·.isUpper = false) (capitalize piece) := by
  obtain ⟨c, cs, rfl, hc, hcs⟩ := h
  obtain ⟨hupper, -, hcapital, -⟩ := Text.upperCase_of_isLower hc
  refine ⟨c.toUpper, cs, ?_, ?_, hcs⟩
  · rw [capitalize, hupper, List.singleton_append]
  · exact ne_false_of_eq_true hcapital

theorem uncapitalize_capitalize (h : IsSnakePiece piece) : uncapitalize (capitalize piece) = piece := by
  obtain ⟨c, cs, rfl, hc, -⟩ := h
  obtain ⟨hupper, -, -, hlower⟩ := Text.upperCase_of_isLower hc
  rw [capitalize, hupper, List.singleton_append, uncapitalize, hlower]

theorem map_uncapitalize {pieces : List (List Char)} (h : ∀ piece ∈ pieces, IsSnakePiece piece) :
    (pieces.map capitalize).map uncapitalize = pieces := by
  have hid : pieces.map (uncapitalize ∘ capitalize) = pieces.map id :=
    List.map_congr_left fun piece hpiece => uncapitalize_capitalize (h piece hpiece)
  rw [List.map_map, hid, List.map_id]

theorem typeNameChars_of_isSnake (h : IsSnake name) :
    typeNameChars name.toList = ((name.toList.splitOn '_').map capitalize).flatten := by
  have hstart : ¬ name.toList.head?.any Text.isUppercase := by
    -- the name starts with the small letter of its first piece
    obtain ⟨first, more, hsplit⟩ := List.exists_cons_of_ne_nil (List.splitOn_ne_nil '_' name.toList)
    obtain ⟨c, cs, rfl, hc, -⟩ := h first (by rw [hsplit]; exact .head more)
    have hname : name.toList = c :: (cs ++ more.flatMap (['_'] ++ ·)) := by
      rw [← List.cons_append, ← intercalate_cons_eq_flatMap, ← hsplit, List.intercalate_splitOn]
    rw [hname, List.head?_cons, Option.any_some, (Text.upperCase_of_isLower hc).2.1]
    exact Bool.noConfusion
  rw [typeNameChars, if_neg hstart, List.flatMap_def]

/-- **Names in snake case are told apart by their classes.** -/
theorem typeName_inj_of_isSnake (h : IsSnake name) (h' : IsSnake name')
    (heq : typeName name = typeName name') : name = name' := by
  have hmarked : ∀ pieces : List (List Char), (∀ piece ∈ pieces, IsSnakePiece piece) →
      ∀ piece ∈ pieces.map capitalize, IsMarked (·.isUpper = false) piece := by
    intro pieces hpieces
    rw [List.forall_mem_map]
    exact fun piece hpiece => isMarked_capitalize (hpieces piece hpiece)
  have hjoined := String.ofList_inj.mp heq
  rw [typeNameChars_of_isSnake h, typeNameChars_of_isSnake h'] at hjoined
  -- every capital of the joined name starts a piece
  have hcapitalized := flatten_inj_of_isMarked (hmarked _ h) (hmarked _ h') hjoined
  have hpieces : name.toList.splitOn '_' = name'.toList.splitOn '_' := by
    rw [← map_uncapitalize h, hcapitalized, map_uncapitalize h']
  have hname := congrArg ['_'].intercalate hpieces
  rw [List.intercalate_splitOn, List.intercalate_splitOn] at hname
  exact String.toList_inj.mp hname

example : typeName "vehicle_gear" = typeName "vehicleGear" := by decide +kernel

/-! ## Models without warnings -/

theorem nodup_typeNames_of_isSnake {es : List Enumeration} (h : (es.map (·.name)).Nodup)
    (hsnake : ∀ e ∈ es, IsSnake e.name) : (es.map (typeName ·.name)).Nodup := by
  have hnames : es.map (typeName ·.name) = (es.map (·.name)).map typeName := by
    rw [List.map_map]
    rfl
  have hsnakes : ∀ name ∈ es.map (·.name), IsSnake name := List.forall_mem_map.mpr hsnake
  rw [hnames]
  apply List.Nodup.map_on _ h
  intro name hname name' hname' heq
  exact typeName_inj_of_isSnake (hsnakes name hname) (hsnakes name' hname') heq

theorem nodup_typeNames_of_startsInUpperCase {es : List Enumeration} (h : (es.map (·.name)).Nodup)
    (hupper : ∀ e ∈ es, StartsInUpperCase e.name) : (es.map (typeName ·.name)).Nodup := by
  have hnames : es.map (typeName ·.name) = es.map (·.name) :=
    List.map_congr_left fun e he => typeName_of_startsInUpperCase (hupper e he)
  rwa [hnames]

/-- **Without warnings, only nested classes clash**, and these exactly if two enumerations share a joined
name. -/
theorem declarations_without_warnings (o : Options) (r : Review)
    (h : (Phase.validate.run r).warnings = r.warnings) :
    (outline o r.model).toClass = constantsClass o r.model ∧
      (outline o r.model).fieldNames.Nodup ∧
      (∀ n ∈ (outline o r.model).nested, n.fieldNames.Nodup) ∧
      ((outline o r.model).ClashFree ↔ (r.model.enumerations.map (typeName ·.name)).Nodup) ∧
      ((r.model.enumerations.map (·.name)).Nodup →
        (∀ e ∈ r.model.enumerations, IsSnake e.name) ∨
            (∀ e ∈ r.model.enumerations, StartsInUpperCase e.name) →
          (outline o r.model).ClashFree) := by
  have hclean := (warnings_validate_eq_iff r).mp h
  have hiff : (outline o r.model).ClashFree ↔ (r.model.enumerations.map (typeName ·.name)).Nodup := by
    rw [clashFree_outline_iff]
    exact ⟨fun hfree => hfree.2.2,
      fun hnames => ⟨hclean.properties, fun e he => (hclean.entries e he).2, hnames⟩⟩
  refine ⟨toClass_outline o r.model, ?_, ?_, hiff, ?_⟩
  · rw [fieldNames_outline]
    exact hclean.properties
  · rw [forall_nested_outline]
    exact fun e he => (hclean.entries e he).2
  · rintro hnames (hsnake | hupper)
    · exact hiff.mpr (nodup_typeNames_of_isSnake hnames hsnake)
    · exact hiff.mpr (nodup_typeNames_of_startsInUpperCase hnames hupper)

/-- Enumerations with an entry in common, and a property of the same name. -/
def gearAndArea : Model where
  properties := [{ name := "PARK", value := "1" }]
  enumerations := [⟨"vehicle_gear", [⟨"PARK", "1"⟩]⟩, ⟨"vehicle_area", [⟨"PARK", "1"⟩]⟩]

theorem declarations_without_warnings_gear_and_area :
    (Phase.validate.run { model := gearAndArea }).warnings = [] ∧
      (outline { year := 2017 } gearAndArea).ClashFree := by
  have hwarnings : (Phase.validate.run { model := gearAndArea }).warnings = [] := by decide +kernel
  have hnames : (gearAndArea.enumerations.map (typeName ·.name)).Nodup := by decide +kernel
  obtain ⟨-, -, -, hiff, -⟩ :=
    declarations_without_warnings { year := 2017 } { model := gearAndArea } hwarnings
  exact ⟨hwarnings, hiff.mpr hnames⟩

/-- An enumeration that is written twice gives no warning, and two classes of one name. -/
theorem nested_classes_clash : ∃ m,
    Header.model "VEHICLE_PROPERTY_" ⟨[⟨"vehicle.h",
      "enum vehicle_gear \x7b PARK = 1, \x7d;\nenum vehicle_gear \x7b DRIVE = 2, \x7d;\n"⟩]⟩ = .ok m ∧
    (Phase.validate.run { model := m }).warnings = [] ∧
    (outline { year := 2017 } m).nested.map (·.name) = ["VehicleGear", "VehicleGear"] ∧
    ¬ (outline { year := 2017 } m).ClashFree := by
  refine ⟨⟨[], [⟨"vehicle_gear", [⟨"PARK", "1"⟩]⟩, ⟨"vehicle_gear", [⟨"DRIVE", "2"⟩]⟩], []⟩, ?_⟩
  decide +kernel

end HalConstants.Java
