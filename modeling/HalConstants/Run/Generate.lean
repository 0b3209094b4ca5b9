import HalConstants.Review.Snapshot
import HalConstants.Run.Notice
import HalConstants.Target.JavaDocument
import HalConstants.Target.PythonDocument

/-!
# Generation

A model is reviewed, rendered for a target, and shown, printed or saved. A dry run shows the document
among the notices and writes nothing but snapshots.
-/

namespace HalConstants

inductive Target where
  | java (o : Java.Options)
  | python (o : Python.Options)

def Target.document (model : Model) : Target → Document
  | java o => Java.document o model
  | python o => Python.document o model

inductive Delivery where
  /-- The document goes to the standard output. -/
  | printed (text : String)
  | saved (path : String) (lines : Nat)
  /-- File names and texts, shown only. -/
  | shown (documents : List (String × String))
deriving DecidableEq, Repr

structure GenerateReport where
  language : String
  warnings : List Warning
  snapshots : Option String := none
  delivery : Delivery
deriving DecidableEq, Repr

structure GenerateOptions where
  output : Option String := none
  dryRun : Bool := false
  snapshots : Option String := none

def Delivery.notices (language : String) : Delivery → List Notice
  | printed _ => []
  | saved path lines => [.success s!"Generated {path} ({lines} lines of {language})"]
  | shown documents => documents.flatMap fun (path, text) => [.divider path, .preformatted text]

def GenerateReport.notices (r : GenerateReport) : List Notice :=
  r.warnings.map (fun w => .warning w.report) ++
    r.snapshots.toList.map (.keyValue "Pipeline snapshots written to") ++
    r.delivery.notices r.language

/-- What the run leaves on the standard output. -/
def GenerateReport.stdout (r : GenerateReport) : String :=
  match r.delivery with
  | .printed text => text
  | _ => ""

variable {m : Type → Type} [Monad m] [Storage m]

def Document.deliver (d : Document) (dryRun : Bool) (destination : Destination) :
    ExceptT Failure m Delivery :=
  if dryRun then return .shown [(d.fileName, d.text)]
  else
    match destination with
    | .stdout => return .printed d.text
    | .file path => do
      writeFile path d.text
      return .saved path (lineCount d.text)

def generate (model : Model) (target : Target) (o : GenerateOptions) :
    ExceptT Failure m GenerateReport := do
  let hooks := o.snapshots.toList.map fun directory => Snapshot.writer (m := m) directory
  let review ← (Review.run hooks model).adapt (·.within "Pipeline failed")
  let document := target.document review.model
  let delivery ← (document.deliver o.dryRun (.ofPath? o.output) : ExceptT Failure m Delivery).adapt
    (·.within "Failed to generate code")
  return ⟨document.language.name, review.warnings, o.snapshots, delivery⟩

end HalConstants
