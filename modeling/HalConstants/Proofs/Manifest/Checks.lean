import HalConstants.Manifest.File

/-!
# The checks of a manifest

A manifest is refused as a whole if its text cannot be read, and otherwise for the first of its values that does
not pass its check. So every value of an accepted manifest passes (`checked_of_parse`).
-/

namespace HalConstants.Manifest

variable {m : Manifest} {file : SourceFile} {e : ManifestError}

theorem parse_of_decode? (h : decode? file.text = some m) :
    parse file = (m.error? file).elim (.ok m) .error := by
  rw [parse, h]

theorem parse_eq_ok_iff : parse file = .ok m ↔ decode? file.text = some m ∧ m.error? file = none := by
  constructor
  · intro h
    cases hdecode : decode? file.text with
    | none =>
        rw [parse, hdecode] at h
        contradiction
    | some m' =>
        rw [parse_of_decode? hdecode] at h
        cases herror : m'.error? file with
        | none =>
            rw [herror] at h
            obtain rfl := Except.ok.inj h
            exact ⟨rfl, herror⟩
        | some e =>
            rw [herror] at h
            contradiction
  · rintro ⟨hdecode, herror⟩
    rw [parse_of_decode? hdecode, herror]
    rfl

theorem parse_eq_error_iff : parse file = .error e ↔ decode? file.text = none ∧ e = .malformed file ∨
    ∃ m, decode? file.text = some m ∧ m.error? file = some e := by
  cases hdecode : decode? file.text with
  | none => simp [parse, hdecode, eq_comm]
  | some m =>
      rw [parse_of_decode? hdecode]
      cases herror : m.error? file <;> simp [herror]

/-- What the checks ask of the values that they look at. -/
structure Checked (m : Manifest) : Prop where
  package : ∀ name ∈ m.java.package, Java.packageFault? name.toList = none
  className : ∀ name ∈ m.java.className, Java.identifierFault? name.toList = none
  stem : ∀ stem ∈ m.java.stem, Header.isStem stem.toList
  halVersion : ∀ version ∈ m.python.halVersion, HalVersion.hasForm version.toList

theorem checked_of_error? (h : m.error? file = none) : m.Checked := by
  simp only [error?, nameError?, Option.or_eq_none_iff, Option.bind_eq_none_iff, Option.map_eq_none_iff,
    Option.filter_eq_none_iff, Bool.not_eq_true', Bool.not_eq_false] at h
  exact ⟨h.1, h.2.1, h.2.2.1, h.2.2.2⟩

/-- **What is accepted is checked.** -/
theorem checked_of_parse (h : parse file = .ok m) : m.Checked :=
  checked_of_error? (parse_eq_ok_iff.mp h).2

end HalConstants.Manifest
