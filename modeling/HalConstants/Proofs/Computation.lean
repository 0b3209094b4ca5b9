/-!
# Computations over a state

`runIn s x` is what a computation that may fail gives when it starts in the state `s`, together with the
state it leaves. A failure keeps the state that was reached: nothing is rolled back. A computation that
`Reads` leaves every state as it was, and one that `Gives` a property has no results without it.
-/

namespace HalConstants

variable {σ ε ε' α β : Type} {s s' : σ}
variable {x : ExceptT ε (StateM σ) α} {f : α → ExceptT ε (StateM σ) β}

def runIn (s : σ) (x : ExceptT ε (StateM σ) α) : Except ε α × σ := x.run.run s

@[simp] theorem runIn_pure (a : α) : runIn s (pure a : ExceptT ε (StateM σ) α) = (.ok a, s) := rfl

theorem runIn_bind : runIn s (x >>= f) =
    match runIn s x with
    | (.ok a, s') => runIn s' (f a)
    | (.error e, s') => (.error e, s') := by
  change (ExceptT.bindCont f (x.run.run s).1).run (x.run.run s).2 = _
  rw [runIn]
  generalize x.run.run s = out
  obtain ⟨r, s'⟩ := out
  cases r <;> rfl

theorem runIn_bind_ok {a : α} (h : runIn s x = (.ok a, s')) : runIn s (x >>= f) = runIn s' (f a) := by
  rw [runIn_bind, h]

theorem runIn_bind_error {e : ε} (h : runIn s x = (.error e, s')) :
    runIn s (x >>= f) = (.error e, s') := by
  rw [runIn_bind, h]

@[simp] theorem runIn_adapt (g : ε → ε') :
    runIn s (x.adapt g) = ((runIn s x).1.mapError g, (runIn s x).2) := rfl

/-! ## Computations that only read -/

def Reads (x : ExceptT ε (StateM σ) α) : Prop := ∀ s, (runIn s x).2 = s

theorem reads_pure (a : α) : Reads (pure a : ExceptT ε (StateM σ) α) := fun _ => rfl

theorem reads_throw (e : ε) : Reads (throw e : ExceptT ε (StateM σ) α) := fun _ => rfl

theorem reads_mk_pure (r : Except ε α) : Reads (ExceptT.mk (pure r) : ExceptT ε (StateM σ) α) :=
  fun _ => rfl

theorem Reads.adapt (h : Reads x) (g : ε → ε') : Reads (x.adapt g) := h

theorem Reads.bind (hx : Reads x) (hf : ∀ a, Reads (f a)) : Reads (x >>= f) := by
  intro s
  have hs := hx s
  rw [runIn_bind]
  generalize runIn s x = out at hs ⊢
  obtain ⟨r, s'⟩ := out
  obtain rfl : s' = s := hs
  cases r with
  | ok a => exact hf a s'
  | error e => rfl

theorem reads_mapM {γ : Type} {g : γ → ExceptT ε (StateM σ) α} (h : ∀ c, Reads (g c)) (cs : List γ) :
    Reads (cs.mapM g) := by
  induction cs with
  | nil => exact reads_pure []
  | cons c cs ih =>
      rw [List.mapM_cons]
      exact (h c).bind fun a => ih.bind fun as => reads_pure (a :: as)

/-! ## Results of computations -/

def Gives (P : α → Prop) (x : ExceptT ε (StateM σ) α) : Prop := ∀ s a, (runIn s x).1 = .ok a → P a

variable {P : α → Prop} {Q : β → Prop}

theorem gives_pure {a : α} (h : P a) : Gives P (pure a : ExceptT ε (StateM σ) α) := by
  rintro s b hb
  exact Except.ok.inj hb ▸ h

theorem gives_true (x : ExceptT ε (StateM σ) α) : Gives (fun _ => True) x := fun _ _ _ => trivial

theorem Gives.adapt (h : Gives P x) (g : ε → ε') : Gives P (x.adapt g) := by
  intro s a ha
  apply h s a
  rw [runIn_adapt] at ha
  cases hx : (runIn s x).1 with
  | ok b =>
      rw [hx] at ha
      exact congrArg Except.ok (Except.ok.inj ha)
  | error e =>
      rw [hx] at ha
      contradiction

theorem Gives.bind (hx : Gives P x) (hf : ∀ a, P a → Gives Q (f a)) : Gives Q (x >>= f) := by
  intro s b hb
  have hs := hx s
  rw [runIn_bind] at hb
  generalize runIn s x = out at hs hb
  obtain ⟨r, s'⟩ := out
  cases r with
  | ok a => exact hf a (hs a rfl) s' b hb
  | error e => contradiction

end HalConstants
