import HalConstants.Files.Failure
import HalConstants.Review.Lint

/-!
# Reviews

Before a model is rendered it goes through two phases: `validate` collects the warnings of the lints,
`analyze` counts. Hooks run before and after each phase, in the order in which they are given; each gets
the review that the step before it left, and the first one that fails ends the run.
-/

namespace HalConstants

structure Review where
  model : Model
  summary : Option Summary := none
  warnings : List Warning := []
deriving DecidableEq

structure Phase where
  name : String
  description : String
  run : Review → Review

namespace Phase

def validate : Phase where
  name := "validate"
  description := "Check the extracted model and collect diagnostics"
  run r := { r with warnings := r.warnings ++ Lint.all.flatMap (·.check r.model) }

def analyze : Phase where
  name := "analyze"
  description := "Count extracted definitions"
  run r := { r with summary := some r.model.summary }

def all : List Phase := [validate, analyze]

def ofName? (name : String) : Option Phase := all.find? (·.name == name)

end Phase

/-- What runs around the phases, given the name of the phase. -/
structure Hooks (m : Type → Type) [Monad m] where
  before : String → Review → ExceptT Failure m Review := fun _ r => pure r
  after : String → Review → ExceptT Failure m Review := fun _ r => pure r

variable {m : Type → Type} [Monad m]

def Phase.runWith (hooks : List (Hooks m)) (r : Review) (phase : Phase) :
    ExceptT Failure m Review := do
  let r ← hooks.foldlM (fun r h => h.before phase.name r) r
  hooks.foldlM (fun r h => h.after phase.name r) (phase.run r)

namespace Review

def run (hooks : List (Hooks m)) (model : Model) : ExceptT Failure m Review :=
  Phase.all.foldlM (Phase.runWith hooks) { model := model }

/-- The review of a model without hooks, which cannot fail. -/
def ofModel (model : Model) : Review := Phase.analyze.run (Phase.validate.run { model := model })

theorem run_nil [LawfulMonad m] (model : Model) :
    run ([] : List (Hooks m)) model = pure (ofModel model) := by
  simp [run, Phase.all, Phase.runWith, ofModel]

end Review

end HalConstants
