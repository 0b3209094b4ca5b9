import HalConstants.Files.Tree
import HalConstants.Run.Check
import HalConstants.Run.Generate

/-!
# A check and a preview

A check and a dry run review a model on their own, and each writes its warnings in its own way. Both succeed
on every model and tell their user the same (`check_agrees_with_preview`): the same warnings in the same
order, and the preview is the document of the model as it was handed in.
-/

namespace HalConstants

variable {m : Type → Type} [Monad m] {ε ε' α : Type}

/-- The text of a warning that a user is shown. -/
def Notice.warning? : Notice → Option String
  | warning message => some message
  | _ => none

/-- What a dry run without snapshots reports. -/
def previewReport (model : Model) (target : Target) : GenerateReport where
  language := (target.document model).language.name
  warnings := (Review.ofModel model).warnings
  delivery := .shown [((target.document model).fileName, (target.document model).text)]

theorem adapt_pure [LawfulMonad m] (g : ε → ε') (a : α) :
    (pure a : ExceptT ε m α).adapt g = pure a := by
  apply ExceptT.ext
  change Except.mapError g <$> pure (Except.ok a) = pure (Except.ok a)
  rw [map_pure]
  rfl

theorem filterMap_warning (messages : List String) :
    (messages.map Notice.warning).filterMap Notice.warning? = messages := by
  induction messages with
  | nil => rfl
  | cons message messages ih => simpa [Notice.warning?] using ih

theorem warnings_check (model : Model) (label : String) :
    (check model label).notices.filterMap Notice.warning? =
      (Review.ofModel model).warnings.map (·.report) := by
  rw [CheckReport.notices, List.filterMap_append, List.filterMap_append, filterMap_warning]
  split <;> simp [Notice.warning?, check]

theorem notices_previewReport (model : Model) (target : Target) :
    (previewReport model target).notices =
      ((Review.ofModel model).warnings.map (·.report)).map .warning ++
        [.divider (target.document model).fileName, .preformatted (target.document model).text] := by
  simp [GenerateReport.notices, previewReport, Delivery.notices]

theorem warnings_previewReport (model : Model) (target : Target) :
    (previewReport model target).notices.filterMap Notice.warning? =
      (Review.ofModel model).warnings.map (·.report) := by
  rw [notices_previewReport, List.filterMap_append, filterMap_warning]
  simp [Notice.warning?]

/-- A dry run without snapshots cannot fail and writes nothing. -/
theorem generate_preview [LawfulMonad m] [Storage m] (model : Model) (target : Target)
    (output : Option String) :
    generate (m := m) model target { output := output, dryRun := true } =
      pure (previewReport model target) := by
  simp only [generate, Option.toList_none, List.map_nil, Review.run_nil, adapt_pure, pure_bind,
    Document.deliver, if_true]
  rfl

/-- **A check and a preview agree.** On every model and for every target the review, the check and the dry
run succeed. The preview shows the document of the untouched model; its warnings are those of the check, text
by text, one for each warning of the review; and the check shows the counts that the review arrives at. -/
theorem check_agrees_with_preview [LawfulMonad m] [Storage m] (model : Model) (target : Target)
    (label : String) (output : Option String) :
    ∃ (review : Review) (summary : Summary) (report : GenerateReport),
      Review.run ([] : List (Hooks m)) model = pure review ∧
      generate (m := m) model target { output := output, dryRun := true } = pure report ∧
      report.delivery = .shown [((target.document model).fileName, (target.document model).text)] ∧
      report.notices = (report.notices.filterMap Notice.warning?).map .warning ++
        [.divider (target.document model).fileName, .preformatted (target.document model).text] ∧
      report.notices.filterMap Notice.warning? =
        (check model label).notices.filterMap Notice.warning? ∧
      (report.notices.filterMap Notice.warning?).length = report.warnings.length ∧
      report.warnings = review.warnings ∧ (check model label).warnings = review.warnings.map (·.report) ∧
      review.summary = some summary ∧ (check model label).summary = summary ∧
      .keyValue "properties" s!"{summary.properties} ({summary.rangeMarkers} range markers)" ∈
        (check model label).notices ∧
      .keyValue "enums" s!"{summary.enumerations} ({summary.entries} entries)" ∈
        (check model label).notices := by
  refine ⟨Review.ofModel model, model.summary, previewReport model target, Review.run_nil model,
    generate_preview model target output, rfl, ?_, ?_, ?_, rfl, rfl, rfl, rfl, ?_, ?_⟩
  · rw [warnings_previewReport, notices_previewReport]
  · rw [warnings_previewReport, warnings_check]
  · rw [warnings_previewReport, List.length_map]
    rfl
  · simp [CheckReport.notices, check]
  · simp [CheckReport.notices, check]

/-- A name that is defined twice is remarked on alike. -/
theorem check_agrees_with_preview_repeated :
    ∃ report, generate (m := StateM Tree) { properties := [⟨"A", "1", none, none, none, none, false⟩,
        ⟨"A", "2", none, none, none, none, true⟩] } (.java { year := 2015 }) { dryRun := true } =
        pure report ∧
      report.notices.filterMap Notice.warning? =
        ["property 'A' is defined more than once (first value 1, now 2)\n  --> properties.A"] := by
  obtain ⟨_, _, report, -, hgenerate, -, -, hwarnings, -⟩ :=
    check_agrees_with_preview (m := StateM Tree) { properties := [⟨"A", "1", none, none, none, none,
      false⟩, ⟨"A", "2", none, none, none, none, true⟩] } (.java { year := 2015 }) "vehicle.h" none
  refine ⟨report, hgenerate, hwarnings.trans ?_⟩
  decide +kernel

end HalConstants
