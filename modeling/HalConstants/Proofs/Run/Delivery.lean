import HalConstants.Main
import HalConstants.Proofs.Code.Lines
import HalConstants.Proofs.Files.Parents
import HalConstants.Proofs.Run.Job

/-!
# Nothing partial and nothing stray

A run that generates settles its job, reviews the model, which may write snapshots, and delivers the
document. `JobEnds` lists the ways in which a job can end, each with what it leaves behind, and every job ends
in one of them (`jobEnds_runJob`). So the standard output is empty or the whole document, a file that was
asked for holds the whole document, and until the destination itself is written its path is left alone
(`run_delivers`).
-/

namespace HalConstants

variable {t₀ t t' : Tree} {P : Location → Prop} {ε α β : Type}

/-! ## Requests as computations -/

theorem runIn_createDirectories (t : Tree) (path : String) :
    runIn t (createDirectories path) =
      ((t.createDirectories path).1.mapError (Failure.ofIo s!"failed to create '{path}'"),
        (t.createDirectories path).2) := rfl

theorem runIn_writeText (t : Tree) (path text : String) :
    runIn t (writeText path text) =
      match t.writeText path text with
      | .ok t' => (.ok (), t')
      | .error kind => (.error (Failure.ofIo s!"failed to write '{path}'" kind), t) := by
  change runIn t (ExceptT.mk _) = _
  simp only [runIn, ExceptT.mk, ExceptT.run, Storage.writeText, bind, StateT.run, StateT.bind, get, getThe,
    MonadStateOf.get, StateT.get, pure]
  cases t.writeText path text <;> rfl

/-- How writing a document to a file ends. -/
inductive FileEnds (path text : String) (t : Tree) : Except Failure Unit × Tree → Prop
  | written {t' : Tree} (h : t'.readText path = .ok text) : FileEnds path text t (.ok (), t')
  /-- The file itself cannot be written. -/
  | refused (t' : Tree) (kind : IoKind) :
      FileEnds path text t (.error (Failure.ofIo s!"failed to write '{path}'" kind), t')
  /-- The directories of the file cannot be had, so that its path leads nowhere. -/
  | homeless {t' : Tree} (f : Failure) (hchanges : Tree.Changes (fun _ => True) t t')
      (h : ∀ l, t'.resolve path ≠ .ok l) : FileEnds path text t (.error f, t')

theorem fileEnds_writeFile (path text : String) (t : Tree) :
    FileEnds path text t (runIn t (writeFile path text)) := by
  have hwrite : ∀ t₁ : Tree, FileEnds path text t (runIn t₁ (writeText path text)) := by
    intro t₁
    rw [runIn_writeText]
    cases h : t₁.writeText path text with
    | ok t' => exact .written (Tree.changes_writeText h).2
    | error kind => exact .refused t₁ kind
  rw [writeFile]
  cases hparent : Path.parent? path with
  | none => exact hwrite t
  | some parent =>
      change FileEnds path text t (runIn t (if parent.isEmpty then writeText path text
        else do
          createDirectories parent
          writeText path text))
      split
      · exact hwrite t
      · next hne =>
          have hchanges := Tree.changes_createDirectories t parent
          rw [runIn_bind, runIn_createDirectories]
          cases hcreate : t.createDirectories parent with
          | mk result t₁ =>
              rw [hcreate] at hchanges
              cases result with
              | ok u => exact hwrite t₁
              | error kind =>
                  exact .homeless _ (hchanges.mono fun _ _ => trivial) fun l =>
                    Tree.resolve_ne_ok_of_createDirectories hparent (by simpa using hne) hcreate

/-! ## Snapshots -/

/-- The place of the snapshot directory, of a path above it, or of a snapshot. -/
def SnapshotPlace (t : Tree) (snapshots : Option String) (l : Location) : Prop :=
  ∃ directory, snapshots = some directory ∧ (t.IsAbove directory l ∨
    ∃ phase ∈ Phase.all, l = t.location (Path.join directory (phase.name ++ ".json")))

/-- From every tree with the working directory of `t₀`, also where it fails, the computation changes the
given places only. -/
def Confined (t₀ : Tree) (P : Location → Prop) (x : ExceptT ε (StateM Tree) α) : Prop :=
  ∀ t, t.workingDirectory = t₀.workingDirectory → Tree.Changes P t (runIn t x).2

theorem Confined.bind {x : ExceptT ε (StateM Tree) α} {f : α → ExceptT ε (StateM Tree) β}
    (hx : Confined t₀ P x) (hf : ∀ a, Confined t₀ P (f a)) : Confined t₀ P (x >>= f) := by
  intro t ht
  have hfirst := hx t ht
  rw [runIn_bind]
  generalize runIn t x = out at hfirst ⊢
  obtain ⟨r, t₁⟩ := out
  cases r with
  | ok a => exact hfirst.trans (hf a t₁ (hfirst.workingDirectory.trans ht))
  | error e => exact hfirst

theorem confined_write (t₀ : Tree) (directory : String) {phase : Phase} (hphase : phase ∈ Phase.all)
    (review : Review) : Confined t₀ (SnapshotPlace t₀ (some directory))
      (Snapshot.write directory ⟨phase.name, review⟩) := by
  refine Confined.bind ?_ fun _ => ?_
  · intro t ht
    rw [runIn_createDirectories]
    refine (Tree.changes_createDirectories t directory).mono ?_
    rintro l ⟨p, hp, rfl⟩
    exact ⟨directory, rfl, .inl ⟨p, hp, Tree.location_congr ht _⟩⟩
  · intro t ht
    rw [runIn_writeText]
    split
    · next t' h =>
        refine (Tree.changes_writeText h).1.mono ?_
        intro l hl
        exact ⟨directory, rfl, .inr ⟨phase, hphase, hl.trans (Tree.location_congr ht _)⟩⟩
    · exact .refl _ t

theorem run_writer (directory : String) (model : Model) :
    Review.run [Snapshot.writer (m := StateM Tree) directory] model = (do
      Snapshot.write directory ⟨Phase.validate.name, Phase.validate.run { model := model }⟩
      Snapshot.write directory ⟨Phase.analyze.name, Review.ofModel model⟩
      return Review.ofModel model) := by
  simp only [Review.run, Phase.all, List.foldlM_cons, List.foldlM_nil, Phase.runWith, Snapshot.writer,
    pure_bind, bind_assoc, bind_pure, Review.ofModel]

/-- **A review writes snapshots only**, and gives the review of the model whenever it succeeds. -/
theorem runIn_review (t : Tree) (snapshots : Option String) (model : Model) :
    ∃ t₁, Tree.Changes (SnapshotPlace t snapshots) t t₁ ∧
      (runIn t (Review.run (snapshots.toList.map fun d => Snapshot.writer d) model) =
          (.ok (Review.ofModel model), t₁) ∨
        ∃ f, runIn t (Review.run (snapshots.toList.map fun d => Snapshot.writer d) model) =
          (.error f, t₁)) := by
  cases snapshots with
  | none => exact ⟨t, .refl _ t, .inl (by simp [Review.run_nil])⟩
  | some directory =>
      rw [Option.toList_some, List.map_cons, List.map_nil, run_writer]
      -- after the two writes nothing can fail
      have hwrites : Confined t (SnapshotPlace t (some directory)) (do
          Snapshot.write directory ⟨Phase.validate.name, Phase.validate.run { model := model }⟩
          Snapshot.write directory ⟨Phase.analyze.name, Review.ofModel model⟩) :=
        (confined_write t directory (by simp [Phase.all]) _).bind fun _ =>
          confined_write t directory (by simp [Phase.all]) _
      have hchanges := hwrites t rfl
      rw [← bind_assoc, runIn_bind]
      generalize runIn t _ = out at hchanges ⊢
      obtain ⟨r, t₁⟩ := out
      cases r with
      | ok u => exact ⟨t₁, hchanges, .inl rfl⟩
      | error f => exact ⟨t₁, hchanges, .inr ⟨f, rfl⟩⟩

namespace CommandLine

/-! ## How a job ends -/

/-- The failure of a run that cannot write the file it was to write. -/
def unwritten (path : String) (kind : IoKind) : RunError :=
  .failure ((Failure.ofIo s!"failed to write '{path}'" kind).within "Failed to generate code")

/-- The ways in which a job can end, each with what it leaves behind. -/
inductive JobEnds (a : Arguments) (j : Job) (t : Tree) : Except RunError Streams × Tree → Prop
  /-- A snapshot cannot be written. -/
  | stopped {t₁ : Tree} (f : Failure) (h : Tree.Changes (SnapshotPlace t a.snapshots) t t₁) :
      JobEnds a j t (.error (.failure (f.within "Pipeline failed")), t₁)
  | shown {t₁ : Tree} {s : Streams} (h : Tree.Changes (SnapshotPlace t a.snapshots) t t₁)
      (hdry : a.dryRun = true) (hs : s.stdout = "") : JobEnds a j t (.ok s, t₁)
  | printed {t₁ : Tree} {s : Streams} (hdry : a.dryRun = false) (hnamed : a.named? j = none)
      (hs : s.stdout = j.document.text) : JobEnds a j t (.ok s, t₁)
  | saved {t' : Tree} {s : Streams} {path : String} (hdry : a.dryRun = false)
      (hnamed : a.named? j = some path) (hs : s.stdout = "")
      (hread : t'.readText path = .ok j.document.text) : JobEnds a j t (.ok s, t')
  /-- The file that is named cannot be written. -/
  | refused {path : String} (t' : Tree) (kind : IoKind) (hdry : a.dryRun = false)
      (hnamed : a.named? j = some path) : JobEnds a j t (.error (unwritten path kind), t')
  /-- The directories of the file that is named cannot be had. -/
  | homeless {t' : Tree} {path : String} (f : Failure) (hnamed : a.named? j = some path)
      (hchanges : Tree.Changes (fun _ => True) t t') (h : ∀ l, t'.resolve path ≠ .ok l) :
      JobEnds a j t (.error (.failure f), t')

/-- **Every job ends in one of these ways.** -/
theorem jobEnds_runJob (a : Arguments) (j : Job) (t : Tree) : JobEnds a j t (runIn t (a.runJob j)) := by
  rw [Arguments.runJob, Arguments.runTarget, runIn_bind, runIn_adapt, generate, runIn_bind, runIn_adapt]
  obtain ⟨t₁, hchanges, hreview | ⟨f, hreview⟩⟩ := runIn_review t a.snapshots j.model
  · rw [hreview]
    dsimp only [Except.mapError]
    rw [runIn_bind, runIn_adapt, Document.deliver.eq_def]
    cases hdry : a.dryRun with
    | true => exact .shown hchanges hdry rfl
    | false =>
        cases hnamed : a.output.or j.output with
        | none => exact .printed hdry hnamed rfl
        | some path =>
            dsimp only [Destination.ofPath?]
            rw [if_neg (by decide), runIn_bind]
            have hends := fileEnds_writeFile path (j.target.document (Review.ofModel j.model).model).text t₁
            generalize runIn t₁ (writeFile path _) = out at hends ⊢
            cases hends with
            | written hread => exact .saved hdry hnamed rfl hread
            | refused t' kind => exact .refused t' kind hdry hnamed
            | homeless f hmore h =>
                exact .homeless _ hnamed ((hchanges.mono fun _ _ => trivial).trans hmore) h
  · rw [hreview]
    exact .stopped f hchanges

/-! ## What a run leaves -/

theorem text_document_ne_empty (model : Model) (target : Target) : (target.document model).text ≠ "" := by
  cases target with
  | java o => exact Layout.render_ne_empty (by simp [Java.fragments, License.fragments])
  | python o => exact Layout.render_ne_empty (by simp [Python.fragments, License.fragments, License.lines])

/-- How a program that ran its command ends. -/
def Outcome.ofResult : Except RunError Streams → Outcome
  | .ok s => .finished s
  | .error e => .failed e

theorem Outcome.finished_of_exitCode {result : Except RunError Streams}
    (h : (ofResult result).exitCode = 0) : ∃ s, ofResult result = .finished s := by
  cases result with
  | ok s => exact ⟨s, rfl⟩
  | error e => simp [ofResult, exitCode] at h

theorem run_of_read {arguments : List String} {r : Request} (h : read arguments = .ok r) (year : Int)
    (t : Tree) :
    (run (m := StateM Tree) year arguments).run t =
      (.ofResult (runIn t (r.run year)).1, (runIn t (r.run year)).2) := by
  rw [run, h, runIn]
  dsimp only
  rw [StateT.run_bind]
  generalize (r.run (m := StateM Tree) year).run.run t = out
  obtain ⟨result, t'⟩ := out
  cases result <;> rfl

/-- What a run that generates leaves of the standard output and of the tree, for the job that it settles. -/
structure Delivers (a : Arguments) (plan : Except RunError Job) (t : Tree) (outcome : Outcome) (t' : Tree) :
    Prop where
  /-- Nothing partial is printed. -/
  whole : outcome.streams.stdout = "" ∨ ∃ j, plan = .ok j ∧ outcome.streams.stdout = j.document.text
  printed : outcome.streams.stdout ≠ "" ↔
    (∃ s, outcome = .finished s) ∧ a.dryRun = false ∧ ∃ j, plan = .ok j ∧ a.named? j = none
  saved : ∀ j path, plan = .ok j → a.named? j = some path → a.dryRun = false →
    (∃ s, outcome = .finished s) → t'.readText path = .ok j.document.text
  /-- Where no job is settled, this holds of every path. -/
  alone : ∀ path, (∀ j, plan = .ok j → a.named? j = some path) →
    ¬ SnapshotPlace t a.snapshots (t.location path) →
    (a.dryRun = true ∨ ∃ e, outcome = .failed e ∧ ∀ kind, e ≠ unwritten path kind) →
    t.LeavesAlone path t'

variable {a : Arguments} {j : Job} {e : RunError} {plan : Except RunError Job}

theorem delivers_failed (h : ∀ path, (∀ j, plan = .ok j → a.named? j = some path) →
    ¬ SnapshotPlace t a.snapshots (t.location path) →
    (a.dryRun = true ∨ ∀ kind, e ≠ unwritten path kind) → t.LeavesAlone path t') :
    Delivers a plan t (.failed e) t' := by
  refine ⟨.inl rfl, by simp [Outcome.streams], ?_, ?_⟩
  · rintro j path - - - ⟨s, hs⟩
    contradiction
  · intro path hpath hplace hearly
    refine h path hpath hplace (hearly.imp_right ?_)
    rintro ⟨e', he, hnot⟩
    obtain rfl := Outcome.failed.inj he
    exact hnot

/-- However a job ends, it delivers. -/
theorem JobEnds.delivers {out : Except RunError Streams × Tree} (h : JobEnds a j t out) :
    Delivers a (.ok j) t (.ofResult out.1) out.2 := by
  have htext : j.document.text ≠ "" := text_document_ne_empty j.model j.target
  cases h with
  | stopped f hchanges =>
      exact delivers_failed fun path _ hplace _ => hchanges.leavesAlone hplace
  | shown hchanges hdry hs =>
      refine ⟨.inl hs, by simp [Outcome.ofResult, Outcome.streams, hs, hdry], ?_, ?_⟩
      · intro j path _ _ hwet
        simp [hdry] at hwet
      · intro path _ hplace _
        exact hchanges.leavesAlone hplace
  | printed hdry hnamed hs =>
      refine ⟨.inr ⟨j, rfl, hs⟩, ?_, ?_, ?_⟩
      · simp [Outcome.ofResult, Outcome.streams, hs, hdry, hnamed, htext]
      · intro j' path hj hpath
        obtain rfl := Except.ok.inj hj
        simp [hnamed] at hpath
      · intro path hpath
        simp [hnamed] at hpath
  | saved hdry hnamed hs hread =>
      refine ⟨.inl hs, by simp [Outcome.ofResult, Outcome.streams, hs, hnamed], ?_, ?_⟩
      · intro j' path hj hpath _ _
        obtain rfl := Except.ok.inj hj
        obtain rfl : _ = path := Option.some.inj (hnamed.symm.trans hpath)
        exact hread
      · rintro path - - (hwet | ⟨e, he, -⟩)
        · simp [hdry] at hwet
        · contradiction
  | refused t' kind hdry hnamed =>
      refine delivers_failed fun path hpath _ hearly => ?_
      obtain rfl : _ = path := Option.some.inj (hnamed.symm.trans (hpath j rfl))
      rcases hearly with hwet | hnot
      · simp [hdry] at hwet
      · exact absurd rfl (hnot kind)
  | homeless f hnamed hchanges hnowhere =>
      refine delivers_failed fun path hpath _ _ => ?_
      obtain rfl : _ = path := Option.some.inj (hnamed.symm.trans (hpath j rfl))
      -- the path led nowhere before either, since no directory goes away
      exact ⟨fun l hl => absurd (hchanges.resolve hl) (hnowhere l), fun l hl => absurd hl (hnowhere l)⟩

/-- **A run that generates leaves nothing partial and nothing stray**, whatever the file tree, and also where
it fails. -/
theorem run_delivers {arguments : List String} {r : Request} {year : Int}
    {job : ExceptT RunError (StateM Tree) Job} (hread : read arguments = .ok r)
    (hjob : r.job? year = some job) (t : Tree) :
    Delivers r.arguments (runIn t job).1 t ((run (m := StateM Tree) year arguments).run t).1
      ((run (m := StateM Tree) year arguments).run t).2 := by
  rw [run_of_read hread, run_eq_job hjob, runIn_bind]
  have hreads := reads_of_job? hjob t
  generalize runIn t job = settled at hreads ⊢
  obtain ⟨plan, t₁⟩ := settled
  obtain rfl : t₁ = t := hreads
  cases plan with
  | error e =>
      exact delivers_failed fun path _ _ _ => (Tree.Changes.refl (fun _ => False) t₁).leavesAlone id
  | ok j => exact (jobEnds_runJob r.arguments j t₁).delivers

/-- A header becomes a class in the file that is asked for. -/
theorem run_delivers_class :
    ∃ j : Job, j.model = { properties := [⟨"VEHICLE_PROPERTY_A", "1", none, none, none, none, false⟩] } ∧
      ((run (m := StateM Tree) 2015 ["java", "a.h", "-o", "A.java"]).run
        ⟨[(["a.h"], .file (.text "/** */\n#define VEHICLE_PROPERTY_A (1)\n"))], []⟩).2.readText "A.java" =
          .ok j.document.text := by
  have hread : read ["java", "a.h", "-o", "A.java"] =
      .ok ⟨.java, { inputs := ["a.h"], output := some "A.java", given := [.output] }⟩ := by rfl
  have hcode : ((run (m := StateM Tree) 2015 ["java", "a.h", "-o", "A.java"]).run
      ⟨[(["a.h"], .file (.text "/** */\n#define VEHICLE_PROPERTY_A (1)\n"))], []⟩).1.exitCode = 0 := by
    decide +kernel
  have hdelivers := @run_delivers _ _ 2015 _ hread rfl
    ⟨[(["a.h"], .file (.text "/** */\n#define VEHICLE_PROPERTY_A (1)\n"))], []⟩
  generalize hplan : (runIn _ _).1 = plan at hdelivers
  have hmodel : plan.toOption.map (·.model) =
      some { properties := [⟨"VEHICLE_PROPERTY_A", "1", none, none, none, none, false⟩] } := by
    rw [← hplan]
    decide +kernel
  rw [run_of_read hread] at hcode hdelivers ⊢
  cases plan with
  | error e => contradiction
  | ok j =>
      exact ⟨j, Option.some.inj hmodel, hdelivers.saved j "A.java" rfl rfl rfl
        (Outcome.finished_of_exitCode hcode)⟩

end CommandLine

end HalConstants
