import HalConstants.CommandLine.Parse
import HalConstants.Manifest.File
import HalConstants.Run.Check
import HalConstants.Run.Generate
import HalConstants.Run.Load

/-!
# Running commands

What the command line gives takes precedence over the manifest, and the manifest over the defaults. A
run that fails prints nothing on the standard output.
-/

namespace HalConstants.CommandLine

inductive RunError where
  | manifest (e : ManifestError)
  | input (e : InputError)
  | failure (f : Failure)
deriving DecidableEq, Repr

/-- What a finished run leaves on the two streams. -/
structure Streams where
  stdout : String := ""
  stderr : String := ""
deriving DecidableEq, Repr

inductive Outcome where
  | finished (s : Streams)
  | failed (e : RunError)
  | refused (e : UsageError)
  | help
  | version
deriving DecidableEq, Repr

def Outcome.exitCode : Outcome → UInt32
  | finished _ => 0
  | failed _ => 1
  | refused _ => 2
  | help => 0
  | version => 0

def orElseInputs (given fallback : List String) : List String :=
  if given.isEmpty then fallback else given

namespace Arguments

def javaOptions (a : Arguments) (target : JavaTarget) (inputs : List String) (defaultYear : Int) :
    Java.Options :=
  let standard : Java.Options := { year := ((a.year.or target.year).getD defaultYear) }
  { standard with
    package := (a.package.or target.package).getD standard.package
    className := (a.className.or target.className).getD standard.className
    sourceLabel := inputNames inputs }

def manifestVersion (target : PythonTarget) : Except Failure HalVersion :=
  match target.halVersion with
  | none => .ok .v2_0
  | some text =>
    (HalVersion.parse text).mapError fun reason =>
      ⟨s!"invalid hal_version '{text}' in vhalgen.toml", [.message reason]⟩

def pythonOptions (a : Arguments) (target : PythonTarget) (defaultYear : Int) :
    Except Failure Python.Options := do
  let version ← a.halVersion.elim (manifestVersion target) .ok
  return { year := (a.year.or target.year).getD defaultYear, halVersion := version }

variable {m : Type → Type} [Monad m] [Storage m]

def loadManifest (a : Arguments) : ExceptT RunError m Manifest := do
  return (← (ManifestFile.load a.config ".").adapt RunError.manifest).manifest

def runTarget (a : Arguments) (model : Model) (target : Target) (output : Option String) :
    ExceptT RunError m Streams := do
  let options : GenerateOptions := ⟨a.output.or output, a.dryRun, a.snapshots⟩
  let report ← (generate model target options).adapt RunError.failure
  return ⟨report.stdout, Notice.textOfAll report.notices⟩

def runJava (a : Arguments) (defaultYear : Int) : ExceptT RunError m Streams := do
  let target := (← a.loadManifest).java
  let inputs := orElseInputs a.inputs target.inputs
  let model ← (readHeaders inputs (a.stem.or target.stem)).adapt RunError.input
  a.runTarget model (.java (a.javaOptions target inputs defaultYear)) target.output

def runPython (a : Arguments) (defaultYear : Int) : ExceptT RunError m Streams := do
  let target := (← a.loadManifest).python
  let model ← (readGroups (a.inputs.head?.or target.document)).adapt RunError.input
  let options ← ExceptT.mk (pure ((a.pythonOptions target defaultYear).mapError RunError.failure))
  a.runTarget model (.python options) target.output

def runCheck (a : Arguments) : ExceptT RunError m Streams := do
  let target := (← a.loadManifest).java
  let inputs := orElseInputs a.inputs target.inputs
  let model ← (readHeaders inputs target.stem).adapt RunError.input
  let (warnings, others) := (check model (inputNames inputs)).notices.partition (·.isWarning)
  return ⟨Notice.textOfAll others, Notice.textOfAll warnings⟩

end Arguments

variable {m : Type → Type} [Monad m] [Storage m]

def Request.run (r : Request) (defaultYear : Int) : ExceptT RunError m Streams :=
  match r.command with
  | .java => r.arguments.runJava defaultYear
  | .python => r.arguments.runPython defaultYear
  | .check => r.arguments.runCheck

/-- Runs the program. The default year is used where neither the command line nor the manifest gives
one. -/
def run (defaultYear : Int) (arguments : List String) : m Outcome := do
  match read arguments with
  | .error .help => return .help
  | .error .version => return .version
  | .error (.refused e) => return .refused e
  | .ok request =>
    match ← (request.run defaultYear).run with
    | .ok streams => return .finished streams
    | .error e => return .failed e

end HalConstants.CommandLine
