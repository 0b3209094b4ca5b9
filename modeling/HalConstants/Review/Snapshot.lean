import HalConstants.Files.Destination
import HalConstants.Model.Json
import HalConstants.Review

/-!
# Snapshots

A snapshot is the state of a review after a phase. Snapshots are recorded in memory, or written as JSON
into a directory, one file for each phase.
-/

namespace HalConstants

structure Snapshot where
  phase : String
  review : Review
deriving DecidableEq

namespace Snapshot

def toJson (s : Snapshot) : Json.Value :=
  .object ([("phase", .string s.phase), ("model", s.review.model.toJson)] ++
    s.review.summary.toList.map (fun summary => ("summary", summary.toJson)) ++
    [("diagnostics", .array (s.review.warnings.map (·.toJson)))])

variable {m : Type → Type} [Monad m]

def write [Storage m] (directory : String) (s : Snapshot) : ExceptT Failure m Unit := do
  createDirectories directory
  writeText (Path.join directory (s.phase ++ ".json")) s.toJson.print

/-- Hooks that keep a snapshot of every finished phase. -/
def recorder : Hooks (StateT (List Snapshot) m) where
  after phase r := do
    modify (· ++ [⟨phase, r⟩])
    return r

/-- Hooks that write a snapshot of every finished phase. -/
def writer [Storage m] (directory : String) : Hooks m where
  after phase r := do
    write directory ⟨phase, r⟩
    return r

end Snapshot

end HalConstants
