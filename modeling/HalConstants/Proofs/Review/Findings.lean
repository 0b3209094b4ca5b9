import HalConstants.Proofs.Review.Silence
import HalConstants.Proofs.Traversal
import Mathlib.Algebra.GroupWithZero.Nat
import Mathlib.Data.Finset.Card

/-!
# The findings of the lints

A lint goes through a list once and keeps what it has seen. What it reports can be said without that: it is
each position whose name stands at an earlier position of the same list, in the order of the positions. So a
name that stands three times is reported twice, both times with the value that it had first, and a list has
as many reports as it has elements beyond its distinct names.
-/

namespace HalConstants

section Positions

variable {α : Type} {name : α → String} {seen : List String} {a : α} {as : List α}

/-- The name at a position stands at an earlier one too. -/
def StandsEarlier (name : α → String) (as : List α) (i : Fin as.length) : Prop :=
  ∃ j < i, name as[j] = name as[i]

instance (i : Fin as.length) : Decidable (StandsEarlier name as i) :=
  inferInstanceAs (Decidable (∃ j < i, name as[j] = name as[i]))

/-- The positions whose names stand earlier, in order. -/
def repeatPositions (name : α → String) (as : List α) : List (Fin as.length) :=
  (List.finRange as.length).filter (StandsEarlier name as ·)

/-- The first of the positions that have the name of the second. -/
structure IsFirst (name : α → String) (as : List α) (first i : Fin as.length) : Prop where
  sameName : name as[first] = name as[i]
  noneEarlier : ∀ j < first, name as[j] ≠ name as[i]

def distinctNames (name : α → String) (as : List α) : Nat := (as.map name).toFinset.card

theorem standsEarlier_zero : ¬ StandsEarlier name (a :: as) (0 : Fin (as.length + 1)) := by
  rintro ⟨j, hj, -⟩
  exact Fin.not_lt_zero j hj

theorem standsEarlier_succ {i : Fin as.length} :
    StandsEarlier name (a :: as) i.succ ↔ name a = name as[i] ∨ StandsEarlier name as i := by
  unfold StandsEarlier
  constructor
  · rintro ⟨j, hj, hname⟩
    cases j using Fin.cases with
    | zero => exact .inl hname
    | succ j => exact .inr ⟨j, Fin.succ_lt_succ_iff.mp hj, hname⟩
  · rintro (hname | ⟨j, hj, hname⟩)
    · exact ⟨(0 : Fin (as.length + 1)), Fin.succ_pos i, hname⟩
    · exact ⟨j.succ, Fin.succ_lt_succ_iff.mpr hj, hname⟩

theorem seen_or_standsEarlier_zero :
    name a ∈ seen ∨ StandsEarlier name (a :: as) (0 : Fin (as.length + 1)) ↔ name a ∈ seen :=
  or_iff_left standsEarlier_zero

/-- Behind the first element, its name counts as seen. -/
theorem seen_or_standsEarlier_succ {i : Fin as.length} :
    name as[i] ∈ seen ∨ StandsEarlier name (a :: as) i.succ ↔
      name as[i] ∈ name a :: seen ∨ StandsEarlier name as i := by
  rw [standsEarlier_succ, List.mem_cons, or_left_comm, or_assoc, eq_comm]

theorem mem_cons_iff_of_mem {b c : String} (h : b ∈ seen) : c ∈ b :: seen ↔ c ∈ seen := by
  rw [List.mem_cons]
  exact or_iff_right_of_imp fun heq => heq ▸ h

/-- The elements at some of the positions. -/
theorem map_filter_finRange_cons (P : Fin (as.length + 1) → Prop) [DecidablePred P] :
    ((List.finRange (as.length + 1)).filter (P ·)).map (fun i => (a :: as)[i]) =
      (if P 0 then [a] else []) ++ ((List.finRange as.length).filter (P ·.succ)).map (as[·]) := by
  rw [List.finRange_succ, List.filter_cons, List.filter_map]
  split
  · next h =>
      rw [if_pos (of_decide_eq_true h), List.map_cons, List.map_map]
      rfl
  · next h =>
      rw [if_neg fun hP => h (decide_eq_true hP), List.map_map]
      rfl

/-- What has been seen stands for the elements in front of the list. -/
theorem repeatsAfter_eq_map : repeatsAfter name seen as =
    ((List.finRange as.length).filter fun i => name as[i] ∈ seen ∨ StandsEarlier name as i).map
      (as[·]) := by
  induction as generalizing seen with
  | nil => rfl
  | cons a as ih =>
      refine Eq.trans ?_ (map_filter_finRange_cons fun i : Fin (as.length + 1) =>
        name (a :: as)[i] ∈ seen ∨ StandsEarlier name (a :: as) i).symm
      show repeatsAfter name seen (a :: as) = (if name a ∈ seen ∨ _ then [a] else []) ++
        ((List.finRange as.length).filter fun i =>
          name as[i] ∈ seen ∨ StandsEarlier name (a :: as) i.succ).map (as[·])
      rw [repeatsAfter]
      simp only [seen_or_standsEarlier_zero, seen_or_standsEarlier_succ, List.contains_iff_mem]
      by_cases hseen : name a ∈ seen
      · simp only [mem_cons_iff_of_mem hseen]
        rw [if_pos hseen, if_pos hseen, ih, List.singleton_append]
      · rw [if_neg hseen, if_neg hseen, ih, List.nil_append]

/-- **The repeats of a list stand at the positions whose names stand earlier.** -/
theorem repeats_eq_map : repeats name as = (repeatPositions name as).map (as[·]) := by
  unfold repeats repeatPositions
  rw [repeatsAfter_eq_map]
  simp only [List.not_mem_nil, false_or]

/-- The elements that are not reported have the distinct names of the list. -/
theorem length_repeatsAfter_add_card (name : α → String) (seen : List String) (as : List α) :
    (repeatsAfter name seen as).length + ((as.map name).toFinset \ seen.toFinset).card = as.length := by
  induction as generalizing seen with
  | nil => simp [repeatsAfter]
  | cons a as ih =>
      rw [repeatsAfter, List.map_cons, List.toFinset_cons]
      by_cases hseen : name a ∈ seen
      · rw [if_pos (List.contains_iff_mem.mpr hseen), List.length_cons, List.length_cons,
          Finset.insert_sdiff_of_mem _ (List.mem_toFinset.mpr hseen), ← ih seen]
        omega
      · have hnew : name a ∉ (as.map name).toFinset \ (name a :: seen).toFinset := by
          simp
        have hinsert : insert (name a) (as.map name).toFinset \ seen.toFinset =
            insert (name a) ((as.map name).toFinset \ (name a :: seen).toFinset) := by
          ext b
          by_cases hb : b = name a <;> simp [hb, hseen]
        rw [if_neg fun h => hseen (List.contains_iff_mem.mp h), List.length_cons, hinsert,
          Finset.card_insert_of_notMem hnew, ← ih (name a :: seen)]
        omega

theorem length_repeatPositions (name : α → String) (as : List α) :
    (repeatPositions name as).length = as.length - distinctNames name as := by
  have hlength := length_repeatsAfter_add_card name [] as
  have hrepeats : (repeatPositions name as).length = (repeatsAfter name [] as).length := by
    rw [← repeats, repeats_eq_map, List.length_map]
  rw [List.toFinset_nil, Finset.sdiff_empty] at hlength
  unfold distinctNames
  omega

end Positions

/-! ## The warnings on a model -/

/-- The warning on a property whose name stands earlier names the first value and the one at its position. -/
def ReportsProperty (ps : List Property) (i : Fin ps.length) (w : Warning) : Prop :=
  ∃ first, IsFirst Property.name ps first i ∧ w = {
    phase := "validate"
    message := s!"property '{ps[i].name}' is defined more than once " ++
      s!"(first value {ps[first].value}, now {ps[i].value})"
    location := some s!"properties.{ps[i].name}" }

def emptyFindings (m : Model) : List Warning :=
  (m.enumerations.filter (·.entries = [])).map (fun e => {
    phase := "validate"
    message := s!"enum '{e.name}' has no entries"
    location := some s!"enums.{e.name}" }) ++
  (m.groups.filter (·.cases = [])).map (fun g => {
    phase := "validate"
    message := s!"enum group '{g.name}' has no cases"
    location := some s!"groups.{g.name}" })

/-- The warnings on one enumeration or group: one for each entry whose name stands earlier in it. -/
def entryFindings {α : Type} (kind owner : String) (name : α → String) (as : List α) : List Warning :=
  (repeatPositions name as).map fun i => {
    phase := "validate"
    message := s!"{kind} '{owner}' repeats entry '{name as[i]}'"
    location := some s!"{owner}.{name as[i]}" }

def repeatFindings (m : Model) : List Warning :=
  m.enumerations.flatMap (fun e => entryFindings "enum" e.name Entry.name e.entries) ++
    m.groups.flatMap fun g => entryFindings "enum group" g.name Case.name g.cases

/-- What is found on a model, in this order. -/
def Finds (m : Model) (ws : List Warning) : Prop :=
  ∃ reports, List.Forall₂ (ReportsProperty m.properties) (repeatPositions Property.name m.properties) reports ∧
    ws = reports ++ emptyFindings m ++ repeatFindings m

/-- The property found under a name is the first that has it. -/
theorem reportsProperty (m : Model) (i : Fin m.properties.length) :
    ∃ w, Lint.repeatedProperty m m.properties[i] = some w ∧ ReportsProperty m.properties i w := by
  obtain ⟨w, hw⟩ := Option.isSome_iff_exists.mp (isSome_repeatedProperty (List.getElem_mem i.isLt))
  obtain ⟨first, hfirst, rfl⟩ := Option.map_eq_some_iff.mp hw
  obtain ⟨hname, j, hj, rfl, hearlier⟩ := List.find?_eq_some_iff_getElem.mp hfirst
  refine ⟨_, hw, ⟨j, hj⟩, ⟨beq_iff_eq.mp hname, ?_⟩, rfl⟩
  intro k hk hsame
  have hdiffers := hearlier k hk
  rw [Bool.not_eq_true', beq_eq_false_iff_ne] at hdiffers
  exact hdiffers hsame

theorem forall₂_check_duplicateProperty (m : Model) :
    List.Forall₂ (ReportsProperty m.properties) (repeatPositions Property.name m.properties)
      (Lint.duplicateProperty.check m) := by
  show List.Forall₂ _ _ ((repeats Property.name m.properties).filterMap (Lint.repeatedProperty m))
  rw [repeats_eq_map, List.filterMap_map]
  exact forall₂_filterMap fun i _ => reportsProperty m i

theorem check_emptyEnum (m : Model) : Lint.emptyEnum.check m = emptyFindings m := by
  have hisEmpty : ∀ {α : Type} (as : List α) [Decidable (as = [])], as.isEmpty = decide (as = []) := by
    intro α as _
    rw [Bool.eq_iff_iff, decide_eq_true_iff, List.isEmpty_iff]
  simp only [Lint.emptyEnum, Enumeration.isEmpty, hisEmpty]
  rfl

theorem check_duplicateEnumEntry (m : Model) : Lint.duplicateEnumEntry.check m = repeatFindings m := by
  have hreports : ∀ {α : Type} (kind owner : String) (name : α → String) (as : List α),
      (repeats name as).map (fun a => Lint.repeatedEntry kind owner (name a)) =
        entryFindings kind owner name as := by
    intro α kind owner name as
    rw [repeats_eq_map, List.map_map]
    rfl
  show (m.enumerations.flatMap fun e =>
    (repeats Entry.name e.entries).map fun entry => Lint.repeatedEntry "enum" e.name entry.name) ++
      (m.groups.flatMap fun g =>
        (repeats Case.name g.cases).map fun c => Lint.repeatedEntry "enum group" g.name c.name) = _
  simp only [hreports]
  rfl

theorem length_emptyFindings (m : Model) : (emptyFindings m).length =
    m.enumerations.countP (·.entries = []) + m.groups.countP (·.cases = []) := by
  unfold emptyFindings
  rw [List.length_append, List.length_map, List.length_map, List.countP_eq_length_filter,
    List.countP_eq_length_filter]

theorem length_repeatFindings (m : Model) : (repeatFindings m).length =
    (m.enumerations.map fun e => e.entries.length - distinctNames Entry.name e.entries).sum +
      (m.groups.map fun g => g.cases.length - distinctNames Case.name g.cases).sum := by
  unfold repeatFindings entryFindings
  simp only [List.length_append, List.length_flatMap, List.length_map, length_repeatPositions]

/-- **What the first phase finds.** It adds the warnings on properties, on what is empty and on entries, in this
order and nothing else. So their number depends on names alone, and there are none exactly where no list
repeats a name and none is empty, whatever the values are and whatever names two enumerations share. -/
theorem findings_of_validate (r : Review) :
    ∃ ws, Phase.validate.run r = { r with warnings := r.warnings ++ ws } ∧ Finds r.model ws ∧
      ws.length = (r.model.properties.length - distinctNames Property.name r.model.properties) +
        (r.model.enumerations.countP (·.entries = []) + r.model.groups.countP (·.cases = [])) +
        ((r.model.enumerations.map fun e => e.entries.length - distinctNames Entry.name e.entries).sum +
          (r.model.groups.map fun g => g.cases.length - distinctNames Case.name g.cases).sum) ∧
      (ws = [] ↔ r.model.IsClean) := by
  have hreports := forall₂_check_duplicateProperty r.model
  have hws : Lint.all.flatMap (·.check r.model) =
      Lint.duplicateProperty.check r.model ++ emptyFindings r.model ++ repeatFindings r.model := by
    rw [← check_emptyEnum, ← check_duplicateEnumEntry, List.append_assoc]
    simp [Lint.all]
  refine ⟨Lint.all.flatMap (·.check r.model), rfl, ⟨_, hreports, hws⟩, ?_, ?_⟩
  · rw [hws, List.length_append, List.length_append, ← hreports.length_eq, length_repeatPositions,
      length_emptyFindings, length_repeatFindings]
  · rw [← warnings_validate_eq_iff]
    exact List.append_right_eq_self.symm

/-- A name that stands three times is reported twice, with the value that it had first. -/
example : (Phase.validate.run { model := { properties :=
      [{ name := "A", value := "1" }, { name := "A", value := "2" }, { name := "A", value := "3" }] } }
    ).warnings.map (·.message) =
      ["property 'A' is defined more than once (first value 1, now 2)",
        "property 'A' is defined more than once (first value 1, now 3)"] := by
  rfl

end HalConstants
