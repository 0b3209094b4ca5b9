import HalConstants.Proofs.Review.Order
import HalConstants.Review.Snapshot

/-!
# The snapshots of a review

Hooks that know nothing of snapshots are followed by the recorder. The recorder changes neither the outcome of
a phase nor the state that the hooks leave, and adds one snapshot exactly if the phase and all hooks around it
succeed (`runRecorded_runWith`). So the snapshots of a review are the reviews that its phases hand on, in
order, up to the phase that fails (`snapshots_of_run`).
-/

namespace HalConstants

variable {σ α β : Type} {hooks : List (Hooks (StateM σ))} {phase : Phase}
variable {log : List Snapshot} {r r' : Review} {s s' : σ}

/-- What a computation gives from a list of snapshots and a state, and the snapshots and the state it leaves. -/
def runRecorded (log : List Snapshot) (s : σ) (x : ExceptT Failure (StateT (List Snapshot) (StateM σ)) α) :
    (Except Failure α × List Snapshot) × σ :=
  (x.run.run log).run s

/-- A computation beside a list of snapshots, which it cannot see. -/
def beside (x : ExceptT Failure (StateM σ) α) : ExceptT Failure (StateT (List Snapshot) (StateM σ)) α :=
  ExceptT.mk (StateT.lift x.run)

def Hooks.beside (hook : Hooks (StateM σ)) : Hooks (StateT (List Snapshot) (StateM σ)) where
  before phase r := HalConstants.beside (hook.before phase r)
  after phase r := HalConstants.beside (hook.after phase r)

/-- The hooks with a recorder as the last one. -/
def recorded (hooks : List (Hooks (StateM σ))) : List (Hooks (StateT (List Snapshot) (StateM σ))) :=
  hooks.map (·.beside) ++ [Snapshot.recorder]

theorem runRecorded_bind {x : ExceptT Failure (StateT (List Snapshot) (StateM σ)) α}
    {f : α → ExceptT Failure (StateT (List Snapshot) (StateM σ)) β} : runRecorded log s (x >>= f) =
      match runRecorded log s x with
      | ((.ok a, log'), s') => runRecorded log' s' (f a)
      | ((.error e, log'), s') => ((.error e, log'), s') := by
  change ((ExceptT.bindCont f ((x.run.run log).run s).1.1).run ((x.run.run log).run s).1.2).run
    ((x.run.run log).run s).2 = _
  rw [runRecorded]
  generalize (x.run.run log).run s = out
  obtain ⟨⟨r, log'⟩, s'⟩ := out
  cases r <;> rfl

/-! ## Computations beside the snapshots -/

/-- The second computation does what the first one does, and leaves the snapshots alone. -/
def LeavesSnapshots (x : ExceptT Failure (StateM σ) α)
    (y : ExceptT Failure (StateT (List Snapshot) (StateM σ)) α) : Prop :=
  ∀ log s, runRecorded log s y = (((runIn s x).1, log), (runIn s x).2)

theorem LeavesSnapshots.pure (a : α) :
    LeavesSnapshots (Pure.pure a : ExceptT Failure (StateM σ) α) (Pure.pure a) := fun _ _ => rfl

theorem LeavesSnapshots.beside (x : ExceptT Failure (StateM σ) α) :
    LeavesSnapshots x (HalConstants.beside x) := fun _ _ => rfl

theorem LeavesSnapshots.bind {x : ExceptT Failure (StateM σ) α} {f : α → ExceptT Failure (StateM σ) β}
    {y : ExceptT Failure (StateT (List Snapshot) (StateM σ)) α}
    {g : α → ExceptT Failure (StateT (List Snapshot) (StateM σ)) β} (hx : LeavesSnapshots x y)
    (hf : ∀ a, LeavesSnapshots (f a) (g a)) : LeavesSnapshots (x >>= f) (y >>= g) := by
  intro log s
  rw [runRecorded_bind, runIn_bind, hx log s]
  obtain ⟨result, s'⟩ := runIn s x
  cases result with
  | ok a => exact hf a log s'
  | error e => rfl

theorem LeavesSnapshots.foldlM {f : β → α → ExceptT Failure (StateM σ) β}
    {g : β → α → ExceptT Failure (StateT (List Snapshot) (StateM σ)) β}
    (h : ∀ b a, LeavesSnapshots (f b a) (g b a)) (as : List α) (b : β) :
    LeavesSnapshots (as.foldlM f b) (as.foldlM g b) := by
  induction as generalizing b with
  | nil => exact .pure b
  | cons a as ih =>
      rw [List.foldlM_cons, List.foldlM_cons]
      exact (h b a).bind ih

/-! ## Phases -/

/-- With the recorder, the hooks and the phase run as without it, and a snapshot is taken behind them. -/
theorem runWith_recorded (hooks : List (Hooks (StateM σ))) (r : Review) (phase : Phase) :
    ∃ y, LeavesSnapshots (Phase.runWith hooks r phase) y ∧
      Phase.runWith (recorded hooks) r phase = y >>= Snapshot.recorder.after phase.name := by
  let y := hooks.foldlM (fun r h => h.beside.before phase.name r) r >>= fun r =>
    hooks.foldlM (fun r h => h.beside.after phase.name r) (phase.run r)
  have hy : LeavesSnapshots (Phase.runWith hooks r phase) y :=
    (LeavesSnapshots.foldlM (fun _ _ => .beside _) hooks r).bind fun r =>
      .foldlM (fun _ _ => .beside _) hooks (phase.run r)
  have hbefore : ∀ r, Snapshot.recorder.before phase.name r =
      (pure r : ExceptT Failure (StateT (List Snapshot) (StateM σ)) Review) := fun _ => rfl
  refine ⟨y, hy, ?_⟩
  simp only [Phase.runWith, recorded, List.foldlM_append, List.foldlM_cons, List.foldlM_nil, List.foldlM_map,
    hbefore, bind_pure, bind_assoc, y]

/-- **A phase is recorded if all hooks around it succeed.** -/
theorem runRecorded_runWith : runRecorded log s (Phase.runWith (recorded hooks) r phase) =
    match runIn s (Phase.runWith hooks r phase) with
    | (.ok r', s') => ((.ok r', log ++ [⟨phase.name, r'⟩]), s')
    | (.error e, s') => ((.error e, log), s') := by
  obtain ⟨y, hy, heq⟩ := runWith_recorded hooks r phase
  rw [heq, runRecorded_bind, hy log s]
  obtain ⟨result, s'⟩ := runIn s (Phase.runWith hooks r phase)
  cases result with
  | ok r' => rfl
  | error e => rfl

/-- A phase and all hooks around it succeed, and the recorder keeps the review that is handed on. -/
structure Completes (hooks : List (Hooks (StateM σ))) (phase : Phase) (log : List Snapshot) (r : Review)
    (s : σ) (r' : Review) (s' : σ) : Prop where
  steps : Passes (phase.steps hooks) (r, s) (r', s')
  snapshot : runRecorded log s (Phase.runWith (recorded hooks) r phase) =
    ((.ok r', log ++ [⟨phase.name, r'⟩]), s')

/-- A hook around a phase fails, and the recorder keeps nothing. -/
structure Breaks (hooks : List (Hooks (StateM σ))) (phase : Phase) (log : List Snapshot) (r : Review)
    (s : σ) (e : Failure) (s' : σ) : Prop where
  steps : Ends (phase.steps hooks) (r, s) (.error e, s')
  snapshot : runRecorded log s (Phase.runWith (recorded hooks) r phase) = ((.error e, log), s')

theorem ends_runWith (hooks : List (Hooks (StateM σ))) (r : Review) (s : σ) (phase : Phase) :
    Ends (phase.steps hooks) (r, s) (runIn s (Phase.runWith hooks r phase)) := by
  rw [Phase.runWith_eq_foldlM]
  exact ends_foldlM (phase.steps hooks) r s

theorem completes_of_runWith (h : runIn s (Phase.runWith hooks r phase) = (.ok r', s')) :
    Completes hooks phase log r s r' s' := by
  have hends := ends_runWith hooks r s phase
  rw [h] at hends
  cases hends with
  | passed hsteps => exact ⟨hsteps, by rw [runRecorded_runWith, h]⟩

theorem breaks_of_runWith {e : Failure} (h : runIn s (Phase.runWith hooks r phase) = (.error e, s')) :
    Breaks hooks phase log r s e s' := by
  have hends := ends_runWith hooks r s phase
  rw [h] at hends
  exact ⟨hends, by rw [runRecorded_runWith, h]⟩

/-! ## Reviews -/

/-- What is recorded of phases: one snapshot for each that completes, up to the first that breaks. -/
inductive Records (hooks : List (Hooks (StateM σ))) :
    List Phase → List Snapshot → Review → σ → (Except Failure Review × List Snapshot) × σ → Prop
  | done (log : List Snapshot) (r : Review) (s : σ) : Records hooks [] log r s ((.ok r, log), s)
  | completed {phase : Phase} {phases : List Phase} {log : List Snapshot} {r r' : Review} {s s' : σ}
      {out : (Except Failure Review × List Snapshot) × σ} (h : Completes hooks phase log r s r' s')
      (hrest : Records hooks phases (log ++ [⟨phase.name, r'⟩]) r' s' out) :
      Records hooks (phase :: phases) log r s out
  | broke {phase : Phase} {phases : List Phase} {log : List Snapshot} {r : Review} {s s' : σ} {e : Failure}
      (h : Breaks hooks phase log r s e s') : Records hooks (phase :: phases) log r s ((.error e, log), s')

/-- **Phases are recorded up to the first that breaks**, and end as they do without the recorder. -/
theorem records_foldlM (hooks : List (Hooks (StateM σ))) (phases : List Phase) (log : List Snapshot)
    (r : Review) (s : σ) :
    Records hooks phases log r s (runRecorded log s (phases.foldlM (Phase.runWith (recorded hooks)) r)) ∧
      ((runRecorded log s (phases.foldlM (Phase.runWith (recorded hooks)) r)).1.1,
        (runRecorded log s (phases.foldlM (Phase.runWith (recorded hooks)) r)).2) =
        runIn s (phases.foldlM (Phase.runWith hooks) r) := by
  induction phases generalizing log r s with
  | nil => exact ⟨.done log r s, rfl⟩
  | cons phase phases ih =>
      rw [List.foldlM_cons, List.foldlM_cons, runRecorded_bind, runIn_bind, runRecorded_runWith]
      cases hphase : runIn s (Phase.runWith hooks r phase) with
      | mk result s' =>
          cases result with
          | ok r' => exact ⟨.completed (completes_of_runWith hphase) (ih _ r' s').1, (ih _ r' s').2⟩
          | error e => exact ⟨.broke (breaks_of_runWith hphase), rfl⟩

/-- **Snapshots are faithful.** The recorder changes neither the outcome of a review nor the state. A review
that succeeds leaves two snapshots, of the review that `validate` hands on to `analyze` and of the one that is
returned; one that fails leaves those of the phases that completed before. -/
theorem snapshots_of_run (hooks : List (Hooks (StateM σ))) (model : Model) (log : List Snapshot) (s : σ) :
    let out := runRecorded log s (Review.run (recorded hooks) model)
    (out.1.1, out.2) = runIn s (Review.run hooks model) ∧
      (∀ r, out.1.1 = .ok r → ∃ v sv, Completes hooks .validate log { model := model } s v sv ∧
        Completes hooks .analyze (log ++ [⟨"validate", v⟩]) v sv r out.2 ∧
        out.1.2 = log ++ [⟨"validate", v⟩, ⟨"analyze", r⟩]) ∧
      ∀ e, out.1.1 = .error e →
        (Breaks hooks .validate log { model := model } s e out.2 ∧ out.1.2 = log) ∨
        ∃ v sv, Completes hooks .validate log { model := model } s v sv ∧
          Breaks hooks .analyze (log ++ [⟨"validate", v⟩]) v sv e out.2 ∧
          out.1.2 = log ++ [⟨"validate", v⟩] := by
  intro out
  obtain ⟨hrecords, houtcome⟩ := records_foldlM hooks Phase.all log { model := model } s
  change Records hooks [.validate, .analyze] log { model := model } s out at hrecords
  refine ⟨houtcome, ?_, ?_⟩
  · intro r hr
    generalize out = out at hrecords hr
    cases hrecords with
    | broke h => contradiction
    | @completed _ _ _ _ v _ sv _ hvalidate hrest =>
        cases hrest with
        | broke h => contradiction
        | completed hanalyze hrest =>
            cases hrest with
            | done log r s =>
                obtain rfl := Except.ok.inj hr
                refine ⟨v, sv, hvalidate, hanalyze, ?_⟩
                rw [List.append_assoc]
                rfl
  · intro e he
    generalize out = out at hrecords he
    cases hrecords with
    | broke hvalidate =>
        obtain rfl := Except.error.inj he
        exact .inl ⟨hvalidate, rfl⟩
    | @completed _ _ _ _ v _ sv _ hvalidate hrest =>
        cases hrest with
        | broke hanalyze =>
            obtain rfl := Except.error.inj he
            exact .inr ⟨v, sv, hvalidate, hanalyze, rfl⟩
        | completed hanalyze hrest =>
            cases hrest with
            | done log r s => contradiction

end HalConstants
