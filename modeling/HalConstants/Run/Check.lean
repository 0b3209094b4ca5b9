import HalConstants.Review
import HalConstants.Run.Notice

/-!
# Checks

A check reviews a model and reports the counts, without rendering anything.
-/

namespace HalConstants

structure CheckReport where
  label : String
  summary : Summary
  warnings : List String
deriving DecidableEq, Repr

def check (model : Model) (label : String) : CheckReport where
  label := label
  summary := model.summary
  warnings := (Review.ofModel model).warnings.map (·.report)

def CheckReport.notices (r : CheckReport) : List Notice :=
  r.warnings.map .warning ++ (if r.warnings.isEmpty then [] else [.newline]) ++
    [.success s!"{r.label} is valid", .newline,
      .keyValue "properties" s!"{r.summary.properties} ({r.summary.rangeMarkers} range markers)",
      .keyValue "enums" s!"{r.summary.enumerations} ({r.summary.entries} entries)"]

end HalConstants
