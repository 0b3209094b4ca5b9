import HalConstants.Proofs.CommandLine.Invariants
import HalConstants.Proofs.Files.Children
import HalConstants.Proofs.Manifest.Checks
import HalConstants.Proofs.Run.Job
import HalConstants.Proofs.Target.JavaHeading

/-!
# Names from outside

The package and the class of a document are named by the command line, by the manifest or by defaults. Each of
these gives accepted names only (`accepted_of_read`, `accepted_of_parse`, `accepted_javaOptions`), so what holds of
an accepted name holds of the names in every document: it stands alone in its line and leads out of no directory
(`names_of_documents`).
-/

namespace HalConstants

open Java (packageFault? identifierFault? IsIdentifier Refuses Keeps)

variable {package className : Option String} {file : SourceFile} {manifest : Manifest} {o : Java.Options}

/-- A package and a class are named by accepted names, as far as they are named. -/
structure NamesAccepted (package className : Option String) : Prop where
  package : ∀ name ∈ package, packageFault? name.toList = none
  className : ∀ name ∈ className, identifierFault? name.toList = none

theorem NamesAccepted.or {package' className' : Option String} (h : NamesAccepted package className)
    (h' : NamesAccepted package' className') :
    NamesAccepted (package.or package') (className.or className') := by
  constructor
  · intro name hname
    rcases Option.or_eq_some_iff.mp hname with hname | ⟨-, hname⟩
    · exact h.package name hname
    · exact h'.package name hname
  · intro name hname
    rcases Option.or_eq_some_iff.mp hname with hname | ⟨-, hname⟩
    · exact h.className name hname
    · exact h'.className name hname

theorem NamesAccepted.getD {package' className' : String} (h : NamesAccepted package className)
    (hpackage : packageFault? package'.toList = none) (hclass : identifierFault? className'.toList = none) :
    NamesAccepted (some (package.getD package')) (some (className.getD className')) := by
  constructor
  · rintro _ ⟨⟩
    cases package with
    | none => exact hpackage
    | some name => exact h.package name rfl
  · rintro _ ⟨⟩
    cases className with
    | none => exact hclass
    | some name => exact h.className name rfl

theorem accepted_of_parse (h : Manifest.parse file = .ok manifest) :
    NamesAccepted manifest.java.package manifest.java.className :=
  ⟨(Manifest.checked_of_parse h).package, (Manifest.checked_of_parse h).className⟩

namespace CommandLine

variable {a a' : Arguments} {key : Key} {value : String} {arguments : List String} {request : Request}

/-! ## The command line -/

theorem readName_eq_ok_iff {fault? : Option Java.NameFault} {name : String} :
    Arguments.readName key fault? value = .ok name ↔ fault? = none ∧ value = name := by
  cases fault? with
  | none => simp [Arguments.readName]
  | some fault => simp [Arguments.readName]

def Arguments.NamesAccepted (a : Arguments) : Prop := HalConstants.NamesAccepted a.package a.className

theorem accepted_setValue (h : a.setValue key value = .ok a') (ha : a.NamesAccepted) : a'.NamesAccepted := by
  unfold Arguments.setValue at h
  split at h
  · obtain ⟨path, -, rfl⟩ := bind_pure_eq_ok_iff.mp h
    exact ⟨ha.package, ha.className⟩
  · obtain ⟨path, -, rfl⟩ := bind_pure_eq_ok_iff.mp h
    exact ⟨ha.package, ha.className⟩
  · obtain ⟨path, -, rfl⟩ := bind_pure_eq_ok_iff.mp h
    exact ⟨ha.package, ha.className⟩
  · -- a package
    obtain ⟨name, hname, rfl⟩ := bind_pure_eq_ok_iff.mp h
    obtain ⟨haccepted, rfl⟩ := readName_eq_ok_iff.mp hname
    exact ⟨fun name hname => Option.some.inj hname ▸ haccepted, ha.className⟩
  · -- a class
    obtain ⟨name, hname, rfl⟩ := bind_pure_eq_ok_iff.mp h
    obtain ⟨haccepted, rfl⟩ := readName_eq_ok_iff.mp hname
    exact ⟨ha.package, fun name hname => Option.some.inj hname ▸ haccepted⟩
  · split at h
    · obtain rfl := Except.ok.inj h
      exact ⟨ha.package, ha.className⟩
    · contradiction
  · split at h
    · obtain rfl := Except.ok.inj h
      exact ⟨ha.package, ha.className⟩
    · contradiction
  · split at h
    · obtain rfl := Except.ok.inj h
      exact ⟨ha.package, ha.className⟩
    · contradiction
  · obtain rfl := Except.ok.inj h
    exact ha

theorem kept_namesAccepted : Arguments.Kept Arguments.NamesAccepted where
  take {a a' key value} h ha := by
    rw [Arguments.take] at h
    split at h
    · contradiction
    · have hgiven : ({ a with given := key :: a.given } : Arguments).NamesAccepted := ⟨ha.package, ha.className⟩
      exact accepted_setValue h hgiven
  takeFlag {a a' key} h ha := by
    rw [Arguments.takeFlag] at h
    split at h
    · contradiction
    · obtain rfl := Except.ok.inj h
      exact ⟨ha.package, ha.className⟩
  takeInputs h ha := by
    obtain ⟨paths, -, rfl⟩ := bind_pure_eq_ok_iff.mp h
    exact ⟨ha.package, ha.className⟩

/-- **The command line names nothing but what is accepted.** -/
theorem accepted_of_read (h : read arguments = .ok request) : request.arguments.NamesAccepted :=
  kept_read kept_namesAccepted ⟨fun _ h => by contradiction, fun _ h => by contradiction⟩ h

/-! ## Documents -/

/-- The names that a job for Java puts into its document are accepted. -/
def Job.NamesAccepted (j : Job) : Prop :=
  ∀ o, j.target = .java o → HalConstants.NamesAccepted (some o.package) (some o.className)

theorem accepted_javaOptions {target : JavaTarget} (ha : a.NamesAccepted)
    (htarget : HalConstants.NamesAccepted target.package target.className) (inputs : List String) (year : Int) :
    HalConstants.NamesAccepted (some (a.javaOptions target inputs year).package)
      (some (a.javaOptions target inputs year).className) := by
  have hpackage : packageFault? "com.android.car.vehiclenetwork".toList = none := by decide +kernel
  have hclass : identifierFault? "VehicleNetworkConsts".toList = none := by decide +kernel
  exact (ha.or htarget).getD hpackage hclass

theorem gives_readManifest (path : String) : Gives
    (fun file : ManifestFile => HalConstants.NamesAccepted file.manifest.java.package file.manifest.java.className)
    (ManifestFile.read (m := StateM Tree) path) := by
  rw [ManifestFile.read]
  refine (gives_true _).bind fun text _ => Gives.bind (P := fun manifest : Manifest =>
    HalConstants.NamesAccepted manifest.java.package manifest.java.className) ?_ fun manifest h => gives_pure h
  exact fun s manifest h => accepted_of_parse h

theorem gives_loadManifest (a : Arguments) : Gives
    (fun manifest : Manifest => HalConstants.NamesAccepted manifest.java.package manifest.java.className)
    (a.loadManifest (m := StateM Tree)) := by
  have hload : Gives
      (fun file : ManifestFile => HalConstants.NamesAccepted file.manifest.java.package file.manifest.java.className)
      (ManifestFile.load (m := StateM Tree) a.config ".") := by
    cases a.config with
    | some path => exact gives_readManifest path
    | none =>
        rw [ManifestFile.load]
        refine (gives_true _).bind fun isFile _ => ?_
        split
        · exact gives_readManifest _
        · exact gives_pure ⟨fun _ h => by contradiction, fun _ h => by contradiction⟩
  exact (hload.adapt RunError.manifest).bind fun file h => gives_pure h

/-- **Whatever is generated has accepted names.** -/
theorem gives_job {r : Request} {year : Int} {job : ExceptT RunError (StateM Tree) Job}
    (hread : read arguments = .ok r) (h : r.job? year = some job) : Gives Job.NamesAccepted job := by
  rw [Request.job?] at h
  split at h
  · obtain rfl := Option.some.inj h
    refine (gives_loadManifest _).bind fun manifest hmanifest => (gives_true _).bind fun model _ => gives_pure ?_
    rintro _ ⟨⟩
    exact accepted_javaOptions (accepted_of_read hread) hmanifest _ _
  · obtain rfl := Option.some.inj h
    refine (gives_true _).bind fun manifest _ => (gives_true _).bind fun model _ =>
      (gives_true _).bind fun options _ => gives_pure ?_
    rintro _ ⟨⟩
  · contradiction

end CommandLine

/-- The file of an accepted class has a name that leads one step down. -/
theorem isFileName_of_identifierFault? {name : String} (h : identifierFault? name.toList = none) :
    Path.IsFileName (name ++ ".java") := by
  have hends : ∀ s : String, (name ++ ".java").toList = s.toList → s.toList.getLast? = some 'a' := by
    intro s hs
    rw [← hs]
    simp
  constructor
  · rintro heq
    have := hends "" (congrArg String.toList heq)
    contradiction
  · rintro heq
    have := hends "." (congrArg String.toList heq)
    contradiction
  · rintro heq
    have := hends ".." (congrArg String.toList heq)
    contradiction
  · rw [String.toList_append, List.mem_append, not_or]
    exact ⟨fun hslash => (Java.keeps_of_identifierFault? h).marks _ hslash (.head _), by decide⟩

/-- **What accepted names are, and what becomes of them.** In ASCII they are identifiers, for packages with points
between them, and any other text is refused for its first segment that is none. In whatever letters they are
written, they keep to themselves. The manifest and the command line let nothing else through, so that every job has
accepted names. The file of such a class is a child of any base, and in any document the two names change nothing
but their lines, where they are told apart from all around them. -/
theorem names_of_documents :
    (∀ s : String, (∀ c ∈ s.toList, c.toNat < 128) →
      (packageFault? s.toList = none ↔
        ∃ segments, Pieces '.' s.toList segments ∧ ∀ segment ∈ segments, IsIdentifier segment) ∧
      (∀ fault, packageFault? s.toList = some fault ↔ ∃ before segment after,
        Pieces '.' s.toList (before ++ segment :: after) ∧ (∀ earlier ∈ before, IsIdentifier earlier) ∧
          Refuses fault segment) ∧
      (identifierFault? s.toList = none ↔ IsIdentifier s.toList) ∧
      ∀ fault, identifierFault? s.toList = some fault ↔ Refuses fault s.toList) ∧
    (∀ name : String, identifierFault? name.toList = none → Keeps name.toList) ∧
    (∀ file manifest, Manifest.parse file = .ok manifest →
      NamesAccepted manifest.java.package manifest.java.className) ∧
    (∀ arguments request, CommandLine.read arguments = .ok request → request.arguments.NamesAccepted ∧
      ∀ year (job : ExceptT CommandLine.RunError (StateM Tree) CommandLine.Job),
        request.job? year = some job → Gives CommandLine.Job.NamesAccepted job) ∧
    (∀ (o : Java.Options) (m : Model) (base : String), identifierFault? o.className.toList = none →
      Path.IsChild base (o.className ++ ".java") ((Java.document o m).path base)) ∧
    ∀ (o : Java.Options) (m : Model), ∃ before after : List String, ∀ package className,
      packageFault? package.toList = none → identifierFault? className.toList = none →
        linesOf (Java.document { o with package, className } m).text =
          before ++ Java.packageLine package :: "" :: Java.classHeader false className :: after ∧
        (∀ segments, Pieces '.' package.toList segments → Java.tokens (Java.packageLine package).toList =
          "package".toList :: segments.intersperse ['.'] ++ [[';']]) ∧
        Java.tokens (Java.classHeader false className).toList =
          ["public".toList, "class".toList, className.toList, ['\x7b']] := by
  refine ⟨?_, ?_, ?_, ?_, ?_, ?_⟩
  · intro s hascii
    exact ⟨Java.packageFault?_eq_none_iff hascii, fun fault => Java.packageFault?_eq_some_iff hascii,
      Java.identifierFault?_eq_none_iff hascii, fun fault => Java.identifierFault?_eq_some_iff hascii⟩
  · exact fun name h => Java.keeps_of_identifierFault? h
  · exact fun file manifest h => accepted_of_parse h
  · intro arguments request hread
    exact ⟨CommandLine.accepted_of_read hread, fun year job hjob => CommandLine.gives_job hread hjob⟩
  · exact fun o m base h => Path.isChild_join (isFileName_of_identifierFault? h) base
  · intro o m
    obtain ⟨before, after, hlines⟩ := Java.linesOf_document o m
    refine ⟨before, after, fun package className hpackage hclass => ?_⟩
    exact ⟨hlines package className hpackage hclass,
      fun segments hsegments => Java.tokens_packageLine hpackage hsegments, Java.tokens_classLine hclass⟩

/-- A class whose name is not in ASCII, below a base that ends in a point, and a package that is refused. -/
theorem names_of_documents_accented :
    (∃ before segment after, Pieces '.' "com.$a_1.2b.class".toList (before ++ segment :: after) ∧
      (∀ earlier ∈ before, IsIdentifier earlier) ∧ Refuses .leadingDigit segment) ∧
    Keeps "É²".toList ∧
    Path.IsChild "out/." "É².java" ((Java.document { year := 2017, className := "É²" } {}).path "out/.") ∧
    ∃ request, CommandLine.read ["java", "--class", "É²"] = .ok request ∧ request.arguments.NamesAccepted := by
  obtain ⟨hascii, hkeeps, -, hread, hchild, -⟩ := names_of_documents
  have hname : identifierFault? "É²".toList = none := by decide +kernel
  have hfault : packageFault? "com.$a_1.2b.class".toList = some .leadingDigit := by decide +kernel
  have hrequest : CommandLine.read ["java", "--class", "É²"] =
      .ok ⟨.java, { className := some "É²", given := [.className] }⟩ := by decide +kernel
  have hsmall : "com.$a_1.2b.class".toList.all (·.toNat < 128) := by decide
  have hrefused := (hascii "com.$a_1.2b.class" fun c hc => of_decide_eq_true (List.all_eq_true.mp hsmall c hc)).2.1
  exact ⟨(hrefused _).mp hfault, hkeeps _ hname,
    hchild { year := 2017, className := "É²" } {} "out/." hname, _, hrequest, (hread _ _ hrequest).1⟩

end HalConstants
