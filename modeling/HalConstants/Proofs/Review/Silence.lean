import HalConstants.Review

/-!
# Models without warnings

The lints look at names one list at a time: the properties, the entries of each enumeration, the cases of each
group. They are silent on exactly the models in which none of these lists repeats a name and no enumeration or
group is empty (`warnings_validate_eq_iff`). The names of the enumerations and groups themselves play no part.
-/

namespace HalConstants

variable {m : Model}

/-- What the lints look for is absent from the model. -/
structure Model.IsClean (m : Model) : Prop where
  properties : (m.properties.map (·.name)).Nodup
  entries : ∀ e ∈ m.enumerations, e.entries ≠ [] ∧ (e.entries.map (·.name)).Nodup
  cases : ∀ g ∈ m.groups, g.cases ≠ [] ∧ (g.cases.map (·.name)).Nodup

/-- A property is found under its own name, so each repeat gives a warning. -/
theorem isSome_repeatedProperty {p : Property} (h : p ∈ m.properties) :
    (Lint.repeatedProperty m p).isSome := by
  rw [Lint.repeatedProperty, Option.isSome_map, Model.property?, List.find?_isSome]
  exact ⟨p, h, beq_self_eq_true p.name⟩

theorem check_duplicateProperty_eq_nil_iff :
    Lint.duplicateProperty.check m = [] ↔ (m.properties.map (·.name)).Nodup := by
  have hsublist : (repeats Property.name m.properties).Sublist m.properties :=
    repeatsAfter_sublist _ _ _
  rw [← repeats_eq_nil_iff]
  constructor
  · intro h
    rw [List.eq_nil_iff_forall_not_mem]
    intro p hp
    have hnone := List.filterMap_eq_nil_iff.mp h p hp
    have hsome := isSome_repeatedProperty (hsublist.subset hp)
    rw [hnone] at hsome
    contradiction
  · intro h
    change (repeats Property.name m.properties).filterMap _ = []
    rw [h, List.filterMap_nil]

theorem check_emptyEnum_eq_nil_iff :
    Lint.emptyEnum.check m = [] ↔
      (∀ e ∈ m.enumerations, e.entries ≠ []) ∧ ∀ g ∈ m.groups, g.cases ≠ [] := by
  simp [Lint.emptyEnum, Enumeration.isEmpty]

theorem check_duplicateEnumEntry_eq_nil_iff :
    Lint.duplicateEnumEntry.check m = [] ↔
      (∀ e ∈ m.enumerations, (e.entries.map (·.name)).Nodup) ∧
        ∀ g ∈ m.groups, (g.cases.map (·.name)).Nodup := by
  simp only [Lint.duplicateEnumEntry, List.append_eq_nil_iff, List.flatMap_eq_nil_iff, List.map_eq_nil_iff,
    repeats_eq_nil_iff]

/-- **The lints are silent on clean models and on no others.** -/
theorem warnings_validate_eq_iff (r : Review) :
    (Phase.validate.run r).warnings = r.warnings ↔ r.model.IsClean := by
  have hlints : (Phase.validate.run r).warnings = r.warnings ↔
      Lint.duplicateProperty.check r.model = [] ∧ Lint.emptyEnum.check r.model = [] ∧
        Lint.duplicateEnumEntry.check r.model = [] := by
    simp [Phase.validate, Lint.all]
  rw [hlints, check_duplicateProperty_eq_nil_iff, check_emptyEnum_eq_nil_iff,
    check_duplicateEnumEntry_eq_nil_iff]
  constructor
  · rintro ⟨hproperties, ⟨hentries, hcases⟩, hentryNames, hcaseNames⟩
    exact ⟨hproperties, fun e he => ⟨hentries e he, hentryNames e he⟩,
      fun g hg => ⟨hcases g hg, hcaseNames g hg⟩⟩
  · rintro ⟨hproperties, hentries, hcases⟩
    exact ⟨hproperties, ⟨fun e he => (hentries e he).1, fun g hg => (hcases g hg).1⟩,
      fun e he => (hentries e he).2, fun g hg => (hcases g hg).2⟩

end HalConstants
