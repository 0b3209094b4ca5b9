import HalConstants.CommandLine.Parse
import HalConstants.Proofs.Traversal

/-!
# Invariants of the command line

Arguments grow by the value of an option, by a flag or by a run of inputs, and by nothing else. So what each of
these keeps (`Arguments.Kept`) holds after every argument that is read (`Reading.kept_step`), and hence of every
request (`kept_read`).
-/

namespace HalConstants.CommandLine

variable {g : Grammar} {r r' : Reading} {key : Key} {value path argument : String} {arguments : List String}
variable {P : Arguments → Prop}

/-- A property of arguments that stays whatever they take. -/
structure Arguments.Kept (P : Arguments → Prop) : Prop where
  take : ∀ {a a' : Arguments} {key value}, a.take key value = .ok a' → P a → P a'
  takeFlag : ∀ {a a' : Arguments} {key}, a.takeFlag key = .ok a' → P a → P a'
  takeInputs : ∀ {a a' : Arguments} {label paths}, a.takeInputs label paths = .ok a' → P a → P a'

namespace Reading

/-! ## Steps -/

theorem kept_settle (hP : Arguments.Kept P) (h : r.settle g = .ok r') (hr : P r.arguments) : P r'.arguments := by
  rw [settle] at h
  split at h
  · obtain rfl := Except.ok.inj h
    exact hr
  · contradiction
  · obtain ⟨a, ha, rfl⟩ := bind_pure_eq_ok_iff.mp h
    exact hP.take ha hr
  · obtain ⟨a, ha, rfl⟩ := bind_pure_eq_ok_iff.mp h
    exact hP.takeInputs ha hr

theorem kept_settled (hP : Arguments.Kept P) (h : r.settled g = .ok r') (hr : P r.arguments) : P r'.arguments :=
  kept_settle hP (mapError_eq_ok_iff.mp h) hr

theorem kept_takeNow (hP : Arguments.Kept P) (h : r.takeNow g key value = .ok r') (hr : P r.arguments) :
    P r'.arguments := by
  obtain ⟨r₁, hsettled, h⟩ := bind_eq_ok_iff.mp h
  obtain ⟨a, ha, rfl⟩ := bind_pure_eq_ok_iff.mp h
  exact hP.take (mapError_eq_ok_iff.mp ha) (kept_settled hP hsettled hr)

theorem kept_awaitValue (hP : Arguments.Kept P) (h : r.awaitValue g key = .ok r') (hr : P r.arguments) :
    P r'.arguments := by
  obtain ⟨r₁, hsettled, rfl⟩ := bind_pure_eq_ok_iff.mp h
  show P r₁.arguments
  exact kept_settled hP hsettled hr

theorem kept_takeFlag (hP : Arguments.Kept P) (h : r.takeFlag g key = .ok r') (hr : P r.arguments) :
    P r'.arguments := by
  obtain ⟨r₁, hsettled, h⟩ := bind_eq_ok_iff.mp h
  split at h
  · contradiction
  · contradiction
  · obtain ⟨a, ha, rfl⟩ := bind_pure_eq_ok_iff.mp h
    exact hP.takeFlag (mapError_eq_ok_iff.mp ha) (kept_settled hP hsettled hr)

theorem kept_startInputs (hP : Arguments.Kept P) (h : r.startInputs g path = .ok r') (hr : P r.arguments) :
    P r'.arguments := by
  obtain ⟨r₁, hsettled, rfl⟩ := bind_pure_eq_ok_iff.mp h
  show P r₁.arguments
  exact kept_settled hP hsettled hr

theorem kept_readLong {name : List Char} {value : Option (List Char)} (hP : Arguments.Kept P)
    (h : r.readLong g name value = .ok r') (hr : P r.arguments) : P r'.arguments := by
  unfold readLong at h
  split at h
  · contradiction
  · split at h
    · exact kept_awaitValue hP h hr
    · exact kept_takeFlag hP h hr
  · split at h
    · exact kept_takeNow hP h hr
    · contradiction

theorem kept_readShort {letters : List Char} (hP : Arguments.Kept P) (h : r.readShort g letters = .ok r')
    (hr : P r.arguments) : P r'.arguments := by
  induction letters generalizing r with
  | nil =>
      obtain rfl := Except.ok.inj h
      exact hr
  | cons c cs ih =>
      rw [readShort] at h
      split at h
      · contradiction
      · split at h
        · split at h
          · exact kept_awaitValue hP h hr
          · exact kept_takeNow hP h hr
          · exact kept_takeNow hP h hr
        · -- a flag, and the letters behind it
          obtain ⟨r₁, hflag, h⟩ := bind_eq_ok_iff.mp h
          exact ih h (kept_takeFlag hP hflag hr)

theorem kept_readInput (hP : Arguments.Kept P) (h : r.readInput g path = .ok r') (hr : P r.arguments) :
    P r'.arguments := by
  rw [readInput] at h
  split at h
  · split at h <;> contradiction
  · split at h
    · contradiction
    · exact kept_startInputs hP h hr
  · obtain rfl := Except.ok.inj h
    exact hr
  · exact kept_startInputs hP h hr

/-- **What every taking keeps, the reading of an argument keeps.** -/
theorem kept_step (hP : Arguments.Kept P) (h : r.step g argument = .ok r') (hr : P r.arguments) :
    P r'.arguments := by
  rw [step] at h
  split at h
  · exact kept_readInput hP h hr
  · split at h
    · obtain rfl := Except.ok.inj h
      exact hr
    · exact kept_readLong hP h hr
    · exact kept_readShort hP h hr
    · obtain rfl := Except.ok.inj h
      exact hr
    · exact kept_readInput hP h hr

end Reading

/-! ## Runs -/

theorem kept_foldlM (hP : Arguments.Kept P) (h : arguments.foldlM (Reading.step g) r = .ok r')
    (hr : P r.arguments) : P r'.arguments := by
  induction arguments generalizing r with
  | nil =>
      obtain rfl := Except.ok.inj h
      exact hr
  | cons argument arguments ih =>
      rw [List.foldlM_cons] at h
      obtain ⟨r₁, hstep, h⟩ := bind_eq_ok_iff.mp h
      exact ih h (Reading.kept_step hP hstep hr)

theorem kept_readArguments {a : Arguments} (hP : Arguments.Kept P) (hempty : P {})
    (h : readArguments g arguments = .ok a) : P a := by
  obtain ⟨r, hrun, h⟩ := bind_eq_ok_iff.mp h
  obtain ⟨r', hsettled, rfl⟩ := bind_pure_eq_ok_iff.mp h
  exact Reading.kept_settled hP hsettled (kept_foldlM hP hrun hempty)

theorem kept_readFrom {request : Request} (hP : Arguments.Kept P) (hempty : P {})
    (h : readFrom r arguments = .ok request) : P request.arguments := by
  induction arguments generalizing r with
  | nil => contradiction
  | cons argument rest ih =>
      rw [readFrom] at h
      split at h
      · contradiction
      · split at h
        · obtain ⟨a, ha, rfl⟩ := bind_pure_eq_ok_iff.mp h
          exact kept_readArguments hP hempty ha
        · -- what stands in front of the command is read, and then forgotten
          obtain ⟨r₁, -, h⟩ := bind_eq_ok_iff.mp h
          exact ih h

/-- **What every taking keeps holds of every request.** -/
theorem kept_read {request : Request} (hP : Arguments.Kept P) (hempty : P {})
    (h : read arguments = .ok request) : P request.arguments :=
  kept_readFrom hP hempty h

end HalConstants.CommandLine
