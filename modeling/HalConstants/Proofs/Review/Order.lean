import HalConstants.Proofs.Computation
import HalConstants.Review
import Mathlib.Algebra.GroupWithZero.Nat

/-!
# The order of a review

`Review.steps` lists the steps of a review: for each phase the hooks before it, the phase itself and the
hooks after it. `Passes` says that steps succeed one after the other, each on the review and the state that
the one before it left, and `Ends` that a list of steps either passes or stops at the first step that fails.
A review ends as its steps do (`run_in_order`), whatever its hooks do to the review, to the state or by
failing.
-/

namespace HalConstants

variable {m : Type → Type} [Monad m] {σ : Type}

/-- A step of a review: a phase, or what a hook does before or after it. -/
inductive Step (m : Type → Type) [Monad m] where
  | before (hook : Hooks m) (phase : Phase)
  | phase (phase : Phase)
  | after (hook : Hooks m) (phase : Phase)

def Step.run : Step m → Review → ExceptT Failure m Review
  | before hook p, r => hook.before p.name r
  | phase p, r => pure (p.run r)
  | after hook p, r => hook.after p.name r

def Phase.steps (hooks : List (Hooks m)) (phase : Phase) : List (Step m) :=
  hooks.map (.before · phase) ++ .phase phase :: hooks.map (.after · phase)

def Review.steps (hooks : List (Hooks m)) : List (Step m) := Phase.all.flatMap (Phase.steps hooks)

/-- The steps succeed one after the other, each on what the one before it left. -/
inductive Passes : List (Step (StateM σ)) → Review × σ → Review × σ → Prop
  | done (c : Review × σ) : Passes [] c c
  | step {step : Step (StateM σ)} {rest : List (Step (StateM σ))} {r r' : Review} {s s' : σ}
      {c : Review × σ} (h : runIn s (step.run r) = (.ok r', s')) (hrest : Passes rest (r', s') c) :
      Passes (step :: rest) (r, s) c

/-- How a list of steps ends. The steps behind one that fails leave no trace: its error is the outcome, and
the state is the one that it left. -/
inductive Ends (steps : List (Step (StateM σ))) (c : Review × σ) : Except Failure Review × σ → Prop
  | passed {r : Review} {s : σ} (h : Passes steps c (r, s)) : Ends steps c (.ok r, s)
  | failed {front rest : List (Step (StateM σ))} {step : Step (StateM σ)} {r : Review} {s s' : σ}
      {e : Failure} (hsteps : steps = front ++ step :: rest) (hfront : Passes front c (r, s))
      (hstep : runIn s (step.run r) = (.error e, s')) : Ends steps c (.error e, s')

/-- The counts of a model, list by list. -/
def Model.counts (model : Model) : Summary where
  properties := model.properties.length
  rangeMarkers := (model.properties.filter (·.isRangeMarker)).length
  enumerations := model.enumerations.length
  entries := (model.enumerations.map (·.entries.length)).sum
  groups := model.groups.length
  cases := (model.groups.map (·.cases.length)).sum

theorem Model.summary_eq_counts (model : Model) : model.summary = model.counts := by
  simp [Model.summary, Model.counts, Model.rangeMarkerCount, List.countP_eq_length_filter,
    List.length_flatMap]

/-! ## A review and its steps -/

theorem Phase.runWith_eq_foldlM [LawfulMonad m] (hooks : List (Hooks m)) (phase : Phase) (r : Review) :
    Phase.runWith hooks r phase = (phase.steps hooks).foldlM (fun r step => step.run r) r := by
  simp only [Phase.runWith, Phase.steps, List.foldlM_append, List.foldlM_cons, List.foldlM_map,
    Step.run, pure_bind]

theorem Review.run_eq_foldlM [LawfulMonad m] (hooks : List (Hooks m)) (model : Model) :
    Review.run hooks model = (Review.steps hooks).foldlM (fun r step => step.run r) { model := model } := by
  simp only [Review.run, Review.steps, Phase.all, List.foldlM_cons, List.foldlM_nil, List.flatMap_cons,
    List.flatMap_nil, List.append_nil, List.foldlM_append, Phase.runWith_eq_foldlM, bind_pure]

/-- **Steps taken in a row** end at the first one that fails. -/
theorem ends_foldlM (steps : List (Step (StateM σ))) (r : Review) (s : σ) :
    Ends steps (r, s) (runIn s (steps.foldlM (fun r step => step.run r) r)) := by
  induction steps generalizing r s with
  | nil => exact .passed (.done (r, s))
  | cons step rest ih =>
      rw [List.foldlM_cons]
      cases hstep : runIn s (step.run r) with
      | mk result s' =>
          cases result with
          | error e =>
              rw [runIn_bind_error hstep]
              exact .failed (by rfl) (.done (r, s)) hstep
          | ok r' =>
              rw [runIn_bind_ok hstep]
              -- the rest ends as it does from where this step leaves it
              have hrest := ih r' s'
              generalize runIn s' (rest.foldlM (fun r step => step.run r) r') = out at hrest ⊢
              cases hrest with
              | passed h => exact .passed (.step hstep h)
              | failed hsteps hfront hfail =>
                  exact .failed (by rw [hsteps, List.cons_append]) (.step hstep hfront) hfail

/-- **A review takes its steps in order**: all hooks before `validate`, the phase, all hooks after it, and the
same for `analyze`. Each step gets what the one before it left, and the first failure is the outcome. The
phases do not fail: `validate` appends the remarks on the model as it stands then, `analyze` counts it. -/
theorem run_in_order (hooks : List (Hooks (StateM σ))) (model : Model) (s : σ) :
    Ends (Review.steps hooks) ({ model := model }, s) (runIn s (Review.run hooks model)) ∧
    Review.steps hooks =
      hooks.map (.before · .validate) ++ .phase .validate :: hooks.map (.after · .validate) ++
        (hooks.map (.before · .analyze) ++ .phase .analyze :: hooks.map (.after · .analyze)) ∧
    (∀ (phase : Phase) (r : Review) (s : σ), runIn s ((Step.phase phase).run r) = (.ok (phase.run r), s)) ∧
    (∀ r : Review, Phase.validate.run r =
      { r with warnings := r.warnings ++ Lint.all.flatMap (·.check r.model) }) ∧
    ∀ r : Review, Phase.analyze.run r = { r with summary := some r.model.counts } := by
  refine ⟨?_, ?_, fun _ _ _ => runIn_pure _, fun r => rfl, ?_⟩
  · rw [Review.run_eq_foldlM]
    exact ends_foldlM (Review.steps hooks) { model := model } s
  · simp only [Review.steps, Phase.all, List.flatMap_cons, List.flatMap_nil, List.append_nil, Phase.steps]
  · intro r
    rw [← Model.summary_eq_counts]
    rfl

end HalConstants
