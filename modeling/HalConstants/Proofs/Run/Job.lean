import HalConstants.CommandLine.Run
import HalConstants.Files.Tree
import HalConstants.Proofs.Computation

/-!
# Jobs

A command that generates first settles its job: it reads the manifest and the inputs and fixes the options of
its target. Until then it reads only (`reads_of_job?`), whatever goes wrong; what it does afterwards depends
on the job alone (`run_eq_job`).
-/

namespace HalConstants.CommandLine

/-- What is to be generated, and the output that the manifest names. -/
structure Job where
  model : Model
  target : Target
  output : Option String

def Job.document (j : Job) : Document := j.target.document j.model

/-- The output that the command line or else the manifest names. -/
def Arguments.named? (a : Arguments) (j : Job) : Option String := a.output.or j.output

section

variable {m : Type → Type} [Monad m] [Storage m]

namespace Arguments

def javaJob (a : Arguments) (year : Int) : ExceptT RunError m Job := do
  let target := (← a.loadManifest).java
  let inputs := orElseInputs a.inputs target.inputs
  let model ← (readHeaders inputs (a.stem.or target.stem)).adapt RunError.input
  return ⟨model, .java (a.javaOptions target inputs year), target.output⟩

def pythonJob (a : Arguments) (year : Int) : ExceptT RunError m Job := do
  let target := (← a.loadManifest).python
  let model ← (readGroups (a.inputs.head?.or target.document)).adapt RunError.input
  let options ← ExceptT.mk (pure ((a.pythonOptions target year).mapError RunError.failure))
  return ⟨model, .python options, target.output⟩

def runJob (a : Arguments) (j : Job) : ExceptT RunError m Streams := a.runTarget j.model j.target j.output

end Arguments

/-- How the job of a command is settled, for the commands that generate. -/
def Request.job? (r : Request) (year : Int) : Option (ExceptT RunError m Job) :=
  match r.command with
  | .java => some (r.arguments.javaJob year)
  | .python => some (r.arguments.pythonJob year)
  | .check => none

/-- **A command that generates runs its job.** -/
theorem run_eq_job [LawfulMonad m] {r : Request} {year : Int} {job : ExceptT RunError m Job}
    (h : r.job? year = some job) : r.run year = job >>= r.arguments.runJob := by
  rw [Request.job?] at h
  rw [Request.run]
  cases hcommand : r.command with
  | java =>
      rw [hcommand] at h
      obtain rfl := Option.some.inj h
      simp only [Arguments.runJava, Arguments.javaJob, Arguments.runJob, bind_assoc, pure_bind]
  | python =>
      rw [hcommand] at h
      obtain rfl := Option.some.inj h
      simp only [Arguments.runPython, Arguments.pythonJob, Arguments.runJob, bind_assoc, pure_bind]
  | check =>
      rw [hcommand] at h
      contradiction

end

/-! ## Settling a job only reads -/

theorem reads_readInput (path : String) : Reads (readInput (m := StateM Tree) path) := fun _ => rfl

theorem reads_readManifest (path : String) : Reads (ManifestFile.read (m := StateM Tree) path) := by
  rw [ManifestFile.read]
  exact Reads.bind (fun _ => rfl) fun text => Reads.bind (fun _ => rfl) fun manifest => reads_pure _

theorem reads_loadManifest (a : Arguments) : Reads (a.loadManifest (m := StateM Tree)) := by
  have hload : Reads (ManifestFile.load (m := StateM Tree) a.config ".") := by
    cases a.config with
    | some path => exact reads_readManifest path
    | none =>
        rw [ManifestFile.load]
        refine Reads.bind (fun _ => rfl) fun isFile => ?_
        split
        · exact reads_readManifest _
        · exact reads_pure _
  exact (hload.adapt RunError.manifest).bind fun file => reads_pure _

theorem reads_readHeaders (paths : List String) (stem : Option String) :
    Reads (readHeaders (m := StateM Tree) paths stem) := by
  have hload : Reads (Sources.load (m := StateM Tree) paths) := by
    rw [Sources.load]
    have hread := reads_mapM (fun path => (reads_readInput path).bind fun text =>
      reads_pure (SourceFile.mk path text)) paths
    split
    · exact Reads.bind (reads_throw _) fun _ => hread.bind fun files => reads_pure _
    · exact hread.bind fun files => reads_pure _
  exact hload.bind fun sources => reads_mk_pure _

theorem reads_readGroups (path : Option String) : Reads (readGroups (m := StateM Tree) path) := by
  cases path with
  | none => exact reads_throw _
  | some path =>
      have hload : Reads (EnumDocument.load (m := StateM Tree) path) := by
        rw [EnumDocument.load]
        have hread := (reads_readInput path).bind fun content =>
          reads_mk_pure (EnumDocument.parse path content)
        split
        · exact Reads.bind (reads_throw _) fun _ => hread
        · exact hread
      exact hload.bind fun groups => reads_pure _

/-- **Settling a job only reads**, also where it fails. -/
theorem reads_of_job? {r : Request} {year : Int} {job : ExceptT RunError (StateM Tree) Job}
    (h : r.job? year = some job) : Reads job := by
  rw [Request.job?] at h
  split at h
  · obtain rfl := Option.some.inj h
    exact (reads_loadManifest _).bind fun manifest =>
      ((reads_readHeaders _ _).adapt RunError.input).bind fun model => reads_pure _
  · obtain rfl := Option.some.inj h
    exact (reads_loadManifest _).bind fun manifest =>
      ((reads_readGroups _).adapt RunError.input).bind fun model =>
        (reads_mk_pure _).bind fun options => reads_pure _
  · contradiction

end HalConstants.CommandLine
