import HalConstants.CommandLine.Run
import HalConstants.Proofs.HalVersion
import HalConstants.Proofs.Manifest.Checks

/-!
# HAL versions of a manifest

A version is written as two numbers in decimal digits, of any length, with a point between them (`Writes`). A
manifest is checked for this form alone, and a version that is used has numbers of 32 bits. So every version that
can be used passes the check, but a manifest may hold one that cannot: the check lets it through exactly if it has
the form and one of its numbers is too large, and then generating Python fails unless the command line gives
another version (`versions_of_manifest`).
-/

namespace HalConstants

/-! ## Manifests -/

open HalVersion (Writes Fits)

open CommandLine (Arguments)

variable {file : SourceFile} {m : Manifest} {a a' : Arguments} {text s : String}

/-- The version of a manifest that is accepted has the form of one. -/
theorem Manifest.hasForm_of_parse (h : Manifest.parse file = .ok m) (hversion : m.python.halVersion = some text) :
    HalVersion.hasForm text.toList :=
  (Manifest.checked_of_parse h).halVersion text hversion

/-- Without a version on the command line, Python options need the one of the manifest. -/
theorem CommandLine.Arguments.pythonOptions_eq_error_iff {target : PythonTarget} {year : Int} {f : Failure} :
    a.pythonOptions target year = .error f ↔ a.halVersion = none ∧ ∃ text, target.halVersion = some text ∧
      (¬ ∃ v, HalVersion.parse text = .ok v) ∧
      f = ⟨s!"invalid hal_version '{text}' in vhalgen.toml", [.message (HalVersion.refusal text)]⟩ := by
  have hversion : a.pythonOptions target year = .error f ↔
      a.halVersion.elim (manifestVersion target) .ok = .error f := by
    rw [pythonOptions]
    cases a.halVersion.elim (manifestVersion target) .ok <;> simp [bind, Except.bind, pure, Except.pure]
  rw [hversion]
  cases a.halVersion with
  | some v => simp
  | none =>
      rw [Option.elim_none, manifestVersion]
      cases target.halVersion with
      | none => simp
      | some text =>
          cases hparse : HalVersion.parse text with
          | ok v => simp [Except.mapError, hparse]
          | error reason =>
              obtain ⟨-, rfl⟩ := HalVersion.parse_eq_error_iff.mp hparse
              simp [Except.mapError, hparse, eq_comm]

/-- The flag takes the versions that can be used. -/
theorem CommandLine.Arguments.exists_parse_of_take (h : a.take .halVersion s = .ok a') :
    ∃ v, HalVersion.parse s = .ok v ∧ a'.halVersion = some v := by
  rw [take] at h
  split at h
  · contradiction
  · simp only [setValue] at h
    split at h
    · next v hv =>
        obtain rfl := Except.ok.inj h
        exact ⟨v, hv, rfl⟩
    · contradiction

/-- **What a manifest accepts can be used, up to its size.** The version of an accepted manifest is two numbers,
and it can be used exactly if both of them have 32 bits. Options for Python fail exactly if the command line gives
no version and the manifest gives one that is too large, with a report of their own. Every version that can be
used, on the command line or elsewhere, has the form for which the manifest is checked. -/
theorem versions_of_manifest (file : SourceFile) (m : Manifest) (h : Manifest.parse file = .ok m) :
    (∀ text, m.python.halVersion = some text → ∃ major minor, Writes major minor text.toList ∧
      ((∃ v, HalVersion.parse text = .ok v) ↔ Fits major ∧ Fits minor)) ∧
    (∀ (a : Arguments) (base : String) (year : Int) (f : Failure),
      a.pythonOptions (m.rebase base).python year = .error f ↔ a.halVersion = none ∧
        ∃ text major minor, m.python.halVersion = some text ∧ Writes major minor text.toList ∧
          ¬ (Fits major ∧ Fits minor) ∧
          f = ⟨s!"invalid hal_version '{text}' in vhalgen.toml", [.message (HalVersion.refusal text)]⟩) ∧
    (∀ s v, HalVersion.parse s = .ok v → HalVersion.hasForm s.toList) ∧
    ∀ (a a' : Arguments) s, a.take .halVersion s = .ok a' → HalVersion.hasForm s.toList := by
  have hform : ∀ s v, HalVersion.parse s = .ok v → HalVersion.hasForm s.toList := by
    intro s v hv
    exact HalVersion.hasForm_iff.mpr ⟨_, _, HalVersion.parse_eq_ok_iff.mp hv⟩
  have hwritten : ∀ text, m.python.halVersion = some text →
      ∃ major minor, Writes major minor text.toList := fun text hversion =>
    HalVersion.hasForm_iff.mp (Manifest.hasForm_of_parse h hversion)
  refine ⟨?_, ?_, hform, ?_⟩
  · intro text hversion
    obtain ⟨major, minor, hwrites⟩ := hwritten text hversion
    exact ⟨major, minor, hwrites, HalVersion.exists_parse_iff hwrites⟩
  · intro a base year f
    rw [CommandLine.Arguments.pythonOptions_eq_error_iff]
    constructor
    · rintro ⟨hflag, text, hversion, hparse, rfl⟩
      obtain ⟨major, minor, hwrites⟩ := hwritten text hversion
      rw [HalVersion.exists_parse_iff hwrites] at hparse
      exact ⟨hflag, text, major, minor, hversion, hwrites, hparse, rfl⟩
    · rintro ⟨hflag, text, major, minor, hversion, hwrites, hlarge, rfl⟩
      rw [← HalVersion.exists_parse_iff hwrites] at hlarge
      exact ⟨hflag, text, hversion, hlarge, rfl⟩
  · intro a a' s htake
    obtain ⟨v, hv, -⟩ := CommandLine.Arguments.exists_parse_of_take htake
    exact hform s v hv

/-- The largest version that can be used, with zeros in front. -/
theorem versions_of_manifest_largest :
    Manifest.parse ⟨"vhalgen.toml", "[python]\nhal_version = \"004294967295.4294967295\"\n"⟩ =
      .ok { python := { halVersion := some "004294967295.4294967295" } } ∧
    ∃ major minor, Writes major minor "004294967295.4294967295".toList ∧ Fits major ∧ Fits minor := by
  have hparse : Manifest.parse
      ⟨"vhalgen.toml", "[python]\nhal_version = \"004294967295.4294967295\"\n"⟩ =
        .ok { python := { halVersion := some "004294967295.4294967295" } } := by decide +kernel
  have hused : HalVersion.parse "004294967295.4294967295" = .ok ⟨4294967295, 4294967295⟩ := by decide +kernel
  obtain ⟨hversions, -⟩ := versions_of_manifest _ _ hparse
  obtain ⟨major, minor, hwrites, hiff⟩ := hversions _ rfl
  exact ⟨hparse, major, minor, hwrites, hiff.mp ⟨_, hused⟩⟩

/-- A manifest is accepted with a version that no command can use. -/
theorem manifest_version_too_large : ∃ m : Manifest,
    Manifest.parse ⟨"vhalgen.toml",
      "[python]\ndocument = 't.json'\nhal_version = '4294967296.0'\nyear = 2017\n"⟩ = .ok m ∧
    m.python.halVersion = some "4294967296.0" ∧
    HalVersion.parse "4294967296.0" =
      .error "invalid HAL version '4294967296.0', expected <major>.<minor> such as 2.0" ∧
    ({} : Arguments).pythonOptions (m.rebase "").python 2017 =
      .error ⟨"invalid hal_version '4294967296.0' in vhalgen.toml",
        [.message "invalid HAL version '4294967296.0', expected <major>.<minor> such as 2.0"]⟩ := by
  have hrefused : HalVersion.parse "4294967296.0" =
      .error "invalid HAL version '4294967296.0', expected <major>.<minor> such as 2.0" := by decide +kernel
  refine ⟨{ python := {
    document := some "t.json", halVersion := some "4294967296.0", year := some 2017 } }, ?_, rfl, hrefused, ?_⟩
  · decide +kernel
  · apply CommandLine.Arguments.pythonOptions_eq_error_iff.mpr
    exact ⟨rfl, _, rfl, (HalVersion.parse_eq_error_iff.mp hrefused).1, by decide +kernel⟩

end HalConstants
