import HalConstants.Proofs.Target.JavaDeclarations
import HalConstants.Proofs.Target.JavaReading

/-!
# The methods of the Java constants class

A method of the class is a table from constants to expressions, with an expression for all other values
behind it. Each of the four methods over properties leaves some properties out: those that lack the fact it
gives, and for the names those that only mark a range. As the names are distinct, what a method gives for a
property comes from the case of that very property. The method of a nested class drops the entries that
share a value with an earlier one, and takes its labels from the others.
-/

namespace HalConstants.Java

variable {o : Options} {m : Model} {p : Property} {ps : List Property}
variable {method : List Property → Switch} {expr : Property → Option String}

/-- What a method gives for a constant: the expression of a case, or the one for all other values. -/
inductive Answer where
  | case (expression : String)
  | fallback (expression : String)
deriving DecidableEq

namespace Switch

def labels (s : Switch) : List String := s.cases.map (·.1)

/-- The answer for the constant of that name. -/
def answer (s : Switch) (label : String) : Answer :=
  match s.cases.lookup label with
  | some expression => .case expression
  | none => .fallback s.fallback

end Switch

namespace Declarations

def method? (d : Declarations) (name : String) : Option Switch := d.methods.find? (·.name == name)

def answer? (d : Declarations) (method label : String) : Option Answer :=
  (d.method? method).map (·.answer label)

end Declarations

/-- The labels of a method are constants of the class, none of them twice, in the order of the properties. -/
structure LabelsFollow (d : Declarations) (ps : List Property) (s : Switch) : Prop where
  declared : ∀ label ∈ s.labels, label ∈ d.fieldNames
  distinct : s.labels.Nodup
  ordered : s.labels.Sublist (ps.map (·.name))

/-- The pieces of a change mode between its bars. Every text has exactly one such list. -/
structure BarPieces (mode : String) (pieces : List String) : Prop where
  ne_nil : pieces ≠ []
  barFree : ∀ piece ∈ pieces, '|' ∉ piece.toList
  joined : "|".intercalate pieces = mode

/-- What the four methods of a class give for a property. Only the names look at range markers. -/
structure AnswersFor (o : Options) (d : Declarations) (p : Property) : Prop where
  valueType : d.answer? "getVehicleValueType" p.name = some (match p.valueType with
    | some t => .case (o.valueTypeClass ++ "." ++ t)
    | none => .fallback (o.valueTypeClass ++ "." ++ o.unknownValueType))
  name : d.answer? "getVehiclePropertyName" p.name = some (if p.isRangeMarker
    then .fallback "\"UNKNOWN_PROPERTY\""
    else .case ("\"" ++ p.name ++ "\""))
  changeMode : match p.changeMode with
    | some mode => ∃ pieces, BarPieces mode pieces ∧
        d.answer? "getVehicleChangeMode" p.name = some (.case ("new int[] \x7b " ++
          " , ".intercalate (pieces.map (o.changeModeClass ++ "." ++ ·)) ++ " \x7d"))
    | none => d.answer? "getVehicleChangeMode" p.name = some (.fallback "null")
  access : d.answer? "getVehicleAccess" p.name = some (match p.access with
    | some a => .case (o.accessClass ++ "." ++ a)
    | none => .fallback "0")

/-! ## Tables over properties -/

theorem labels_casesOf (expr : Property → Option String) (ps : List Property) :
    (casesOf expr ps).map (·.1) = (ps.filter fun p => (expr p).isSome).map (·.name) := by
  induction ps with
  | nil => rfl
  | cons p ps ih =>
      rw [casesOf_cons, List.map_append, List.filter_cons, ih]
      cases expr p <;> rfl

/-- A property is looked up at its own case, as no other property has its name. -/
theorem lookup_casesOf (hnodup : (ps.map (·.name)).Nodup) (hp : p ∈ ps) :
    (casesOf expr ps).lookup p.name = expr p := by
  induction ps with
  | nil => contradiction
  | cons q ps ih =>
      rw [List.map_cons, List.nodup_cons] at hnodup
      obtain ⟨hq, hnodup⟩ := hnodup
      rw [casesOf_cons, List.lookup_append]
      rcases List.mem_cons.mp hp with rfl | hp
      · cases hexpr : expr p with
        | none =>
            -- a case further down is labelled by another name
            have hnone : (casesOf expr ps).lookup p.name = none := by
              rw [List.lookup_eq_none_iff]
              intro c hc
              rw [bne_iff_ne]
              intro heq
              apply hq
              rw [heq]
              exact name_of_mem_casesOf hc
            rw [hnone]
            rfl
        | some e => simp
      · have hne : p.name ≠ q.name := by
          intro heq
          apply hq
          rw [← heq]
          exact List.mem_map_of_mem hp
        have hskip : ((expr q).map (q.name, ·)).toList.lookup p.name = none := by
          cases expr q <;> simp [hne]
        rw [hskip, Option.none_or, ih hnodup hp]

theorem Tabulates.labelsFollow {d : Declarations} (hmethod : Tabulates method expr)
    (hfields : d.fieldNames = ps.map (·.name)) (hnodup : (ps.map (·.name)).Nodup) :
    LabelsFollow d ps (method ps) := by
  have hordered : (method ps).labels.Sublist (ps.map (·.name)) := by
    unfold Switch.labels
    rw [hmethod.cases, labels_casesOf]
    exact List.filter_sublist.map Property.name
  refine ⟨?_, hnodup.sublist hordered, hordered⟩
  rw [hfields]
  exact fun label hlabel => hordered.subset hlabel

theorem Tabulates.answer (hmethod : Tabulates method expr) (hnodup : (ps.map (·.name)).Nodup)
    (hp : p ∈ ps) : (method ps).answer p.name = match expr p with
      | some expression => .case expression
      | none => .fallback (method ps).fallback := by
  unfold Switch.answer
  rw [hmethod.cases, lookup_casesOf hnodup hp]

/-! ## Pieces of a change mode -/

theorem barPieces_iff {mode : String} {pieces : List String} :
    BarPieces mode pieces ↔ pieces = (mode.toList.splitOn '|').map String.ofList := by
  constructor
  · rintro ⟨hne, hbarFree, rfl⟩
    have hsplit : (['|'].intercalate (pieces.map String.toList)).splitOn '|' = pieces.map String.toList := by
      apply List.splitOn_intercalate
      · exact List.forall_mem_map.mpr hbarFree
      · rwa [ne_eq, List.map_eq_nil_iff]
    rw [String.toList_intercalate]
    show pieces = ((['|'].intercalate (pieces.map String.toList)).splitOn '|').map String.ofList
    rw [hsplit, List.map_map]
    simp
  · rintro rfl
    refine ⟨?_, ?_, ?_⟩
    · rw [ne_eq, List.map_eq_nil_iff]
      exact List.splitOn_ne_nil '|' mode.toList
    · rw [List.forall_mem_map]
      intro piece hpiece
      rw [String.toList_ofList]
      exact notMem_of_mem_splitOn hpiece
    · rw [← String.toList_inj, String.toList_intercalate, List.map_map]
      have hpieces : (mode.toList.splitOn '|').map (String.toList ∘ String.ofList) = mode.toList.splitOn '|' := by
        simp
      rw [hpieces]
      exact List.intercalate_splitOn '|'

/-! ## The class of a model -/

theorem labelsFollow_of_mem_methods (hnodup : (m.properties.map (·.name)).Nodup) :
    ∀ s ∈ (outline o m).methods, LabelsFollow (outline o m).toDeclarations m.properties s := by
  have hfields : (outline o m).fieldNames = m.properties.map (·.name) := fieldNames_outline
  simp only [outline, methods, List.forall_mem_cons, List.not_mem_nil, false_implies, implies_true, and_true]
  exact ⟨tabulates_valueTypeMethod.labelsFollow hfields hnodup,
    tabulates_propertyNameMethod.labelsFollow hfields hnodup,
    tabulates_changeModeMethod.labelsFollow hfields hnodup, tabulates_accessMethod.labelsFollow hfields hnodup⟩

theorem answersFor_of_mem (hnodup : (m.properties.map (·.name)).Nodup) (hp : p ∈ m.properties) :
    AnswersFor o (outline o m).toDeclarations p where
  valueType := by
    show some ((valueTypeMethod o m.properties).answer p.name) = _
    rw [tabulates_valueTypeMethod.answer hnodup hp, valueTypeExpr]
    cases p.valueType <;> rfl
  name := by
    show some ((propertyNameMethod m.properties).answer p.name) = _
    rw [tabulates_propertyNameMethod.answer hnodup hp, nameExpr]
    cases p.isRangeMarker <;> rfl
  changeMode := by
    have hanswer : (outline o m).answer? "getVehicleChangeMode" p.name =
        some ((changeModeMethod o m.properties).answer p.name) := rfl
    rw [tabulates_changeModeMethod.answer hnodup hp, changeModeExpr] at hanswer
    cases hmode : p.changeMode with
    | none => rwa [hmode] at hanswer
    | some mode =>
        rw [hmode] at hanswer
        refine ⟨p.changeModes, ?_, hanswer⟩
        rw [barPieces_iff, Property.changeModes, hmode]
  access := by
    show some ((accessMethod o m.properties).answer p.name) = _
    rw [tabulates_accessMethod.answer hnodup hp, accessExpr]
    cases p.access <;> rfl

theorem declared_enumToString (e : Enumeration) :
    ∀ label ∈ (enumToStringMethod e).labels, label ∈ (enumerationDeclarations e).fieldNames := by
  have hlabels : (enumToStringMethod e).labels = e.withoutAliases.map (·.name) := by
    unfold Switch.labels enumToStringMethod
    rw [List.map_map]
    rfl
  have hsublist : e.withoutAliases.Sublist e.entries := firstsAfter_sublist Entry.value [] e.entries
  rw [hlabels, fieldNames_enumerationDeclarations]
  exact fun label hlabel => (hsublist.map Entry.name).subset hlabel

/-- **The methods agree with the constants and with the model**: their labels are constants of the class, and
with distinct names each property is answered by its own facts. -/
theorem methods_of_model (o : Options) (m : Model) :
    (outline o m).toClass = constantsClass o m ∧
      (outline o m).methods.map (·.name) =
        ["getVehicleValueType", "getVehiclePropertyName", "getVehicleChangeMode", "getVehicleAccess"] ∧
      ((m.properties.map (·.name)).Nodup →
        (∀ s ∈ (outline o m).methods, LabelsFollow (outline o m).toDeclarations m.properties s) ∧
          ∀ p ∈ m.properties, AnswersFor o (outline o m).toDeclarations p) ∧
      ∀ n ∈ (outline o m).nested, ∃ s, n.methods = [s] ∧ s.name = "enumToString" ∧
        ∀ label ∈ s.labels, label ∈ n.fieldNames := by
  refine ⟨toClass_outline o m, rfl, ?_, ?_⟩
  · intro hnodup
    exact ⟨labelsFollow_of_mem_methods hnodup, fun p hp => answersFor_of_mem hnodup hp⟩
  · intro n hn
    obtain ⟨e, -, rfl⟩ := List.mem_map.mp hn
    exact ⟨enumToStringMethod e, rfl, rfl, declared_enumToString e⟩

/-- A property of two modes, and a marker of a range that states an access. -/
def seats : Model where
  properties := [
    { name := "SEAT_FORE", value := "1", valueType := some "INT32", changeMode := some "STATIC|ON_SET" },
    { name := "SEAT_END", value := "9", access := some "READ", isRangeMarker := true }]

theorem methods_of_model_seats :
    (seats.properties.map (·.name)).Nodup ∧
      (outline { year := 2017 } seats).answer? "getVehiclePropertyName" "SEAT_END" =
        some (.fallback "\"UNKNOWN_PROPERTY\"") ∧
      (outline { year := 2017 } seats).answer? "getVehicleAccess" "SEAT_END" =
        some (.case "VehiclePropAccess.READ") := by
  have hnodup : (seats.properties.map (·.name)).Nodup := by decide
  obtain ⟨-, -, hproperties, -⟩ := methods_of_model { year := 2017 } seats
  have hanswers := (hproperties hnodup).2 _ (.tail _ (.head _))
  exact ⟨hnodup, hanswers.name, hanswers.access⟩

end HalConstants.Java
