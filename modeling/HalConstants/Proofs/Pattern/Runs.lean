import HalConstants.Header.Pattern

/-!
# What a run takes

A run splits its text in two: an admitted part in front, which it takes, and the rest, which the pieces
behind it must accept. `run_eq_some_iff` says which split wins without the search: of the splits with an
accepted rest the most preferred one. The last two lemmas read that statement off where the split can be
named: no longer run, or no shorter one, leaves a rest that is accepted.
-/

namespace HalConstants

namespace Preference

/-- `r'` is preferred to `r`. -/
def Prefers : Preference → List Char → List Char → Prop
  | .longest, r', r => r.length < r'.length
  | .shortest, r', r => r'.length < r.length

theorem prefers_cons {p : Preference} {c d : Char} {r r' : List Char} :
    p.Prefers (d :: r') (c :: r) ↔ p.Prefers r' r := by
  cases p <;> simp [Prefers]

end Preference

namespace Pattern

variable {α : Type} {admits : Char → Bool} {accept : List Char → Option α}
  {cs r rest : List Char} {c : Char} {a : α}

/-! ## Splits -/

/-- `cs` starts with the admitted run `r`, and `rest` follows it. -/
def Begins (admits : Char → Bool) (cs r rest : List Char) : Prop :=
  cs = r ++ rest ∧ ∀ c ∈ r, admits c

theorem begins_nil_left : Begins admits cs [] rest ↔ rest = cs := by
  constructor
  · rintro ⟨rfl, -⟩
    rfl
  · rintro rfl
    exact ⟨rfl, by simp⟩

theorem begins_cons_cons {d : Char} :
    Begins admits (c :: cs) (d :: r) rest ↔ d = c ∧ admits c ∧ Begins admits cs r rest := by
  simp only [Begins, List.cons_append, List.cons.injEq, List.forall_mem_cons]
  constructor
  · rintro ⟨⟨rfl, hcs⟩, hc, hr⟩
    exact ⟨rfl, hc, hcs, hr⟩
  · rintro ⟨rfl, hc, hcs, hr⟩
    exact ⟨⟨rfl, hcs⟩, hc, hr⟩

theorem begins_append (h : ∀ c ∈ r, admits c) : Begins admits (r ++ rest) r rest := ⟨rfl, h⟩

/-- Two splits of one text whose runs are equally long are the same split. -/
theorem Begins.unique {r' rest' : List Char} (h : Begins admits cs r rest)
    (h' : Begins admits cs r' rest') (hlen : r.length = r'.length) : r = r' ∧ rest = rest' :=
  List.append_inj (h.1.symm.trans h'.1) hlen

/-- Of two fronts of one text the longer one continues the shorter one. -/
theorem exists_append_of_length_lt {front x s : List Char} (h : front ++ rest = x ++ s)
    (hlt : x.length < front.length) : ∃ m, m ≠ [] ∧ front = x ++ m ∧ s = m ++ rest := by
  rcases List.append_eq_append_iff.mp h with ⟨m, rfl, -⟩ | ⟨m, rfl, rfl⟩
  · rw [List.length_append] at hlt
    omega
  · refine ⟨m, ?_, rfl, rfl⟩
    rintro rfl
    simp at hlt

/-! ## Longest runs -/

theorem longestRun_eq_none_iff : longestRun admits accept cs = none ↔
    ∀ r rest, Begins admits cs r rest → accept rest = none := by
  induction cs with
  | nil =>
      simp only [longestRun, Option.map_eq_none_iff]
      constructor
      · rintro h r rest ⟨heq, -⟩
        obtain ⟨rfl, rfl⟩ := List.append_eq_nil_iff.mp heq.symm
        exact h
      · intro h
        exact h [] [] (begins_nil_left.mpr rfl)
  | cons c cs ih =>
      constructor
      · intro h r rest hr
        simp only [longestRun] at h
        split at h
        · contradiction
        · next hnone =>
            cases r with
            | nil =>
                rw [begins_nil_left.mp hr]
                simpa using h
            | cons d r =>
                obtain ⟨rfl, hd, hr⟩ := begins_cons_cons.mp hr
                rw [if_pos hd] at hnone
                exact ih.mp hnone r rest hr
      · intro h
        have hhere : accept (c :: cs) = none := h [] _ (begins_nil_left.mpr rfl)
        have hnone : (if admits c then longestRun admits accept cs else none) = none := by
          split
          · next hc =>
              exact ih.mpr fun r rest hr => h (c :: r) rest (begins_cons_cons.mpr ⟨rfl, hc, hr⟩)
          · rfl
        simp only [longestRun, hnone, hhere, Option.map_none]

theorem begins_of_longestRun (h : longestRun admits accept cs = some (r, a)) :
    ∃ rest, Begins admits cs r rest ∧ accept rest = some a ∧
      ∀ r' rest', Begins admits cs r' rest' → r.length < r'.length → accept rest' = none := by
  induction cs generalizing r with
  | nil =>
      simp only [longestRun, Option.map_eq_some_iff, Prod.mk.injEq] at h
      obtain ⟨_, h, rfl, rfl⟩ := h
      refine ⟨[], begins_nil_left.mpr rfl, h, ?_⟩
      rintro r' rest' ⟨heq, -⟩ hlt
      obtain ⟨rfl, -⟩ := List.append_eq_nil_iff.mp heq.symm
      contradiction
  | cons c cs ih =>
      simp only [longestRun] at h
      split at h
      · next run b heq =>
          simp only [Option.some.injEq, Prod.mk.injEq] at h
          obtain ⟨rfl, rfl⟩ := h
          split at heq
          · next hc =>
              obtain ⟨rest, hrun, hrest, hmax⟩ := ih heq
              refine ⟨rest, begins_cons_cons.mpr ⟨rfl, hc, hrun⟩, hrest, ?_⟩
              intro r' rest' hr' hlt
              cases r' with
              | nil => simp at hlt
              | cons d r' =>
                  obtain ⟨rfl, -, hr'⟩ := begins_cons_cons.mp hr'
                  exact hmax r' rest' hr' (by simpa using hlt)
          · contradiction
      · next hnone =>
          simp only [Option.map_eq_some_iff, Prod.mk.injEq] at h
          obtain ⟨_, h, rfl, rfl⟩ := h
          refine ⟨c :: cs, begins_nil_left.mpr rfl, h, ?_⟩
          intro r' rest' hr' hlt
          cases r' with
          | nil => simp at hlt
          | cons d r' =>
              obtain ⟨rfl, hd, hr'⟩ := begins_cons_cons.mp hr'
              rw [if_pos hd] at hnone
              exact longestRun_eq_none_iff.mp hnone r' rest' hr'

/-! ## Shortest runs -/

theorem shortestRunAfter_eq_map (before : List Char) : shortestRunAfter admits accept before cs =
    (shortestRunAfter admits accept [] cs).map fun (r, a) => (before.reverse ++ r, a) := by
  induction cs generalizing before with
  | nil => cases h : accept [] <;> simp [shortestRunAfter, h]
  | cons c cs ih =>
      cases h : accept (c :: cs) with
      | some a => simp [shortestRunAfter, h]
      | none =>
          simp only [shortestRunAfter, h]
          split
          · rw [ih, ih [c]]
            simp [Function.comp_def]
          · rfl

theorem shortestRun_cons : shortestRunAfter admits accept [] (c :: cs) =
    match accept (c :: cs) with
    | some a => some ([], a)
    | none =>
      if admits c then (shortestRunAfter admits accept [] cs).map fun (r, a) => (c :: r, a)
      else none := by
  cases h : accept (c :: cs) with
  | some a => simp [shortestRunAfter, h]
  | none =>
      simp only [shortestRunAfter, h]
      split
      · rw [shortestRunAfter_eq_map]
        rfl
      · rfl

theorem shortestRun_eq_none_iff : shortestRunAfter admits accept [] cs = none ↔
    ∀ r rest, Begins admits cs r rest → accept rest = none := by
  induction cs with
  | nil =>
      simp only [shortestRunAfter, Option.map_eq_none_iff]
      constructor
      · rintro h r rest ⟨heq, -⟩
        obtain ⟨rfl, rfl⟩ := List.append_eq_nil_iff.mp heq.symm
        exact h
      · intro h
        exact h [] [] (begins_nil_left.mpr rfl)
  | cons c cs ih =>
      rw [shortestRun_cons]
      constructor
      · intro h r rest hr
        cases hhere : accept (c :: cs) with
        | some a => simp [hhere] at h
        | none =>
            cases r with
            | nil => rw [begins_nil_left.mp hr, hhere]
            | cons d r =>
                obtain ⟨rfl, hd, hr⟩ := begins_cons_cons.mp hr
                simp only [hhere, if_pos hd, Option.map_eq_none_iff] at h
                exact ih.mp h r rest hr
      · intro h
        have hhere : accept (c :: cs) = none := h [] _ (begins_nil_left.mpr rfl)
        rw [hhere]
        show (if admits c then _ else none) = none
        split
        · next hc =>
            rw [Option.map_eq_none_iff]
            exact ih.mpr fun r rest hr => h (c :: r) rest (begins_cons_cons.mpr ⟨rfl, hc, hr⟩)
        · rfl

theorem begins_of_shortestRun (h : shortestRunAfter admits accept [] cs = some (r, a)) :
    ∃ rest, Begins admits cs r rest ∧ accept rest = some a ∧
      ∀ r' rest', Begins admits cs r' rest' → r'.length < r.length → accept rest' = none := by
  induction cs generalizing r with
  | nil =>
      simp only [shortestRunAfter, Option.map_eq_some_iff, Prod.mk.injEq] at h
      obtain ⟨_, h, rfl, rfl⟩ := h
      exact ⟨[], begins_nil_left.mpr rfl, h, fun r' _ _ hlt => by simp at hlt⟩
  | cons c cs ih =>
      rw [shortestRun_cons] at h
      cases hhere : accept (c :: cs) with
      | some b =>
          simp only [hhere, Option.some.injEq, Prod.mk.injEq] at h
          obtain ⟨rfl, rfl⟩ := h
          exact ⟨c :: cs, begins_nil_left.mpr rfl, hhere, fun r' _ _ hlt => by simp at hlt⟩
      | none =>
          simp only [hhere] at h
          split at h
          · next hc =>
              simp only [Option.map_eq_some_iff, Prod.mk.injEq, Prod.exists] at h
              obtain ⟨run, _, h, rfl, rfl⟩ := h
              obtain ⟨rest, hrun, hrest, hmin⟩ := ih h
              refine ⟨rest, begins_cons_cons.mpr ⟨rfl, hc, hrun⟩, hrest, ?_⟩
              intro r' rest' hr' hlt
              cases r' with
              | nil => rw [begins_nil_left.mp hr', hhere]
              | cons d r' =>
                  obtain ⟨rfl, -, hr'⟩ := begins_cons_cons.mp hr'
                  exact hmin r' rest' hr' (by simpa using hlt)
          · contradiction

/-! ## Runs -/

variable {prefers : Preference}

theorem run_eq_none_iff : run admits prefers accept cs = none ↔
    ∀ r rest, Begins admits cs r rest → accept rest = none := by
  cases prefers with
  | longest => exact longestRun_eq_none_iff
  | shortest => exact shortestRun_eq_none_iff

theorem begins_of_run (h : run admits prefers accept cs = some (r, a)) :
    ∃ rest, Begins admits cs r rest ∧ accept rest = some a ∧
      ∀ r' rest', Begins admits cs r' rest' → prefers.Prefers r' r → accept rest' = none := by
  cases prefers with
  | longest => exact begins_of_longestRun h
  | shortest => exact begins_of_shortestRun h

/-- **A run takes the most preferred split.** Of the splits whose rest is accepted, none is preferred to
the one that is taken; and a split with that property is the one that is taken. -/
theorem run_eq_some_iff : run admits prefers accept cs = some (r, a) ↔
    ∃ rest, Begins admits cs r rest ∧ accept rest = some a ∧
      ∀ r' rest', Begins admits cs r' rest' → prefers.Prefers r' r → accept rest' = none := by
  constructor
  · exact begins_of_run
  · rintro ⟨rest, hr, ha, hbest⟩
    cases h : run admits prefers accept cs with
    | none =>
        rw [run_eq_none_iff.mp h r rest hr] at ha
        contradiction
    | some found =>
        obtain ⟨r', a'⟩ := found
        obtain ⟨rest', hr', ha', hbest'⟩ := begins_of_run h
        -- two splits with an accepted rest of which neither is preferred to the other
        have hlen : r.length = r'.length := by
          have hor : prefers.Prefers r' r ∨ r.length = r'.length ∨ prefers.Prefers r r' := by
            cases prefers <;> simp only [Preference.Prefers] <;> omega
          rcases hor with hlt | heq | hlt
          · rw [hbest r' rest' hr' hlt] at ha'
            contradiction
          · exact heq
          · rw [hbest' r rest hr hlt] at ha
            contradiction
        obtain ⟨rfl, rfl⟩ := hr.unique hr' hlen
        rw [ha] at ha'
        obtain rfl := Option.some.inj ha'
        rfl

/-- A run is taken where the rest behind it is accepted and no rest behind a longer run is. -/
theorem run_longest_of_max (hr : ∀ c ∈ r, admits c) (ha : accept rest = some a)
    (hmax : ∀ m s, rest = m ++ s → m ≠ [] → (∀ c ∈ m, admits c) → accept s = none) :
    run admits .longest accept (r ++ rest) = some (r, a) := by
  refine run_eq_some_iff.mpr ⟨rest, begins_append hr, ha, ?_⟩
  rintro r' s ⟨heq, hr'⟩ hlt
  obtain ⟨m, hne, rfl, hrest⟩ := exists_append_of_length_lt heq.symm hlt
  exact hmax m s hrest hne fun c hc => hr' c (List.mem_append_right r hc)

/-- The first place at which the rest is accepted ends a shortest run. -/
theorem run_shortest_of_append (hr : ∀ c ∈ r, admits c) (ha : accept rest = some a)
    (hmin : ∀ r' rest', r ++ rest = r' ++ rest' → r'.length < r.length → accept rest' = none) :
    run admits .shortest accept (r ++ rest) = some (r, a) :=
  run_eq_some_iff.mpr ⟨rest, begins_append hr, ha, fun r' rest' hr' => hmin r' rest' hr'.1⟩

end Pattern

end HalConstants
