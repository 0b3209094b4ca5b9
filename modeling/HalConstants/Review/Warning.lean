import HalConstants.Json.Value

/-!
# Warnings

A warning is a remark of a phase on the model; it never stops a run.
-/

namespace HalConstants

structure Warning where
  phase : String
  message : String
  location : Option String := none
deriving DecidableEq, Repr

namespace Warning

/-- The warning as one line. -/
def line (w : Warning) : String :=
  s!"warning: {w.message}" ++ w.location.elim "" fun place => s!" (at {place})"

/-- The message with the location, if it has one, on a line of its own. -/
def report (w : Warning) : String :=
  w.message ++ w.location.elim "" fun place => s!"\n  --> {place}"

def toJson (w : Warning) : Json.Value :=
  .object ([("phase", .string w.phase), ("message", .string w.message)] ++
    w.location.toList.map fun place => ("location", .string place))

end Warning

end HalConstants
