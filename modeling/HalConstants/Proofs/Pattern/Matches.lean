import HalConstants.Proofs.Pattern.Runs
import Mathlib.Data.List.Forall2

/-!
# Matches and the scan

The piece lemmas (`split?_text`, `split?_some_longest`, ...) evaluate a pattern on a text that is given in
the parts its pieces take. `fits_of_split?` is the way back: the texts of a match are what their pieces
admit. The scan lemmas take one step of `findAll` at the leftmost match, and `exists_of_mem_findAll` says
where a match found by the scan stands in the text.
-/

namespace HalConstants

/-- `cs` is a text that the piece admits. -/
def Piece.Fits : Piece → List Char → Prop
  | .text t, cs => cs = t
  | .many admits _, cs => ∀ c ∈ cs, admits c
  | .some admits _, cs => cs ≠ [] ∧ ∀ c ∈ cs, admits c

namespace Pattern

open Text (byteLength)

variable {admits : Char → Bool} {p ps : Pattern} {prefers : Preference}
  {cs t r rest after before : List Char} {ts texts : List (List Char)} {pos : Nat}

/-! ## One piece -/

theorem split?_text (h : split? ps rest = some (ts, after)) :
    split? (.text t :: ps) (t ++ rest) = some (t :: ts, after) := by
  have ht : t.isPrefixOf (t ++ rest) := List.isPrefixOf_iff_prefix.mpr (List.prefix_append t rest)
  simp [split?, cut, ht, h]

theorem split?_text_eq_none (h : ¬ t <+: cs) : split? (.text t :: ps) cs = none := by
  have ht : t.isPrefixOf cs = false := by
    rw [Bool.eq_false_iff, Ne, List.isPrefixOf_iff_prefix]
    exact h
  simp [split?, cut, ht]

theorem prefix_of_split?_text (h : split? (.text t :: ps) cs = some (texts, after)) :
    ∃ rest ts, cs = t ++ rest ∧ texts = t :: ts ∧ split? ps rest = some (ts, after) := by
  by_cases ht : t <+: cs
  · obtain ⟨rest, rfl⟩ := ht
    have ht : t.isPrefixOf (t ++ rest) := List.isPrefixOf_iff_prefix.mpr (List.prefix_append t rest)
    simp only [split?, cut, ht, if_true, List.drop_left, Option.map_map, Option.map_eq_some_iff,
      Function.comp_apply, Prod.mk.injEq, Prod.exists] at h
    obtain ⟨ts, _, h, rfl, rfl⟩ := h
    exact ⟨rest, ts, rfl, rfl, h⟩
  · rw [split?_text_eq_none ht] at h
    contradiction

/-- Nothing longer is admitted where the text breaks off with a character that is not. -/
theorem max_of_head (hrest : ∀ c ∈ rest.head?, admits c = false) :
    ∀ m s, rest = m ++ s → m ≠ [] → (∀ c ∈ m, admits c) → split? ps s = none := by
  rintro m s rfl hne hm
  obtain ⟨c, m, rfl⟩ := List.exists_cons_of_ne_nil hne
  have hc := hm c (by simp)
  rw [hrest c (by simp)] at hc
  contradiction

theorem split?_many_of_max (hr : ∀ c ∈ r, admits c) (h : split? ps rest = some (ts, after))
    (hmax : ∀ m s, rest = m ++ s → m ≠ [] → (∀ c ∈ m, admits c) → split? ps s = none) :
    split? (.many admits .longest :: ps) (r ++ rest) = some (r :: ts, after) := by
  simp [split?, cut, run_longest_of_max hr h hmax]

theorem split?_some_of_max (hne : r ≠ []) (hr : ∀ c ∈ r, admits c)
    (h : split? ps rest = some (ts, after))
    (hmax : ∀ m s, rest = m ++ s → m ≠ [] → (∀ c ∈ m, admits c) → split? ps s = none) :
    split? (.some admits .longest :: ps) (r ++ rest) = some (r :: ts, after) := by
  cases r with
  | nil => contradiction
  | cons c r =>
      obtain ⟨hc, hr⟩ := List.forall_mem_cons.mp hr
      simp [split?, cut, hc, run_longest_of_max hr h hmax]

theorem split?_many_longest (hr : ∀ c ∈ r, admits c) (hrest : ∀ c ∈ rest.head?, admits c = false)
    (h : split? ps rest = some (ts, after)) :
    split? (.many admits .longest :: ps) (r ++ rest) = some (r :: ts, after) :=
  split?_many_of_max hr h (max_of_head hrest)

theorem split?_some_longest (hne : r ≠ []) (hr : ∀ c ∈ r, admits c)
    (hrest : ∀ c ∈ rest.head?, admits c = false) (h : split? ps rest = some (ts, after)) :
    split? (.some admits .longest :: ps) (r ++ rest) = some (r :: ts, after) :=
  split?_some_of_max hne hr h (max_of_head hrest)

theorem split?_many_shortest (hr : ∀ c ∈ r, admits c) (h : split? ps rest = some (ts, after))
    (hmin : ∀ r' rest', r ++ rest = r' ++ rest' → r'.length < r.length →
      split? ps rest' = none) :
    split? (.many admits .shortest :: ps) (r ++ rest) = some (r :: ts, after) := by
  simp [split?, cut, run_shortest_of_append hr h hmin]

/-- A run of at least one character needs one at its start. -/
theorem split?_some_eq_none (h : ∀ c ∈ cs.head?, admits c = false) :
    split? (.some admits prefers :: ps) cs = none := by
  cases cs with
  | nil => rfl
  | cons c cs =>
      have hc : admits c = false := h c rfl
      simp [split?, cut, hc]

theorem begins_of_split?_many
    (h : split? (.many admits prefers :: ps) cs = some (texts, after)) :
    ∃ r rest ts, Begins admits cs r rest ∧ texts = r :: ts ∧ split? ps rest = some (ts, after) ∧
      ∀ r' rest', Begins admits cs r' rest' → prefers.Prefers r' r → split? ps rest' = none := by
  simp only [split?, cut, Option.map_eq_some_iff, Prod.mk.injEq, Prod.exists] at h
  obtain ⟨r, ts, _, h, rfl, rfl⟩ := h
  obtain ⟨rest, hr, hrest, hbest⟩ := begins_of_run h
  exact ⟨r, rest, ts, hr, rfl, hrest, hbest⟩

theorem begins_of_split?_some
    (h : split? (.some admits prefers :: ps) cs = some (texts, after)) :
    ∃ c r rest ts, Begins admits cs (c :: r) rest ∧ texts = (c :: r) :: ts ∧
      split? ps rest = some (ts, after) ∧ ∀ d r' rest', Begins admits cs (d :: r') rest' →
        prefers.Prefers (d :: r') (c :: r) → split? ps rest' = none := by
  cases cs with
  | nil => simp [split?, cut] at h
  | cons c cs =>
      simp only [split?, cut] at h
      split at h
      · next hc =>
          simp only [Option.map_map, Option.map_eq_some_iff, Function.comp_apply, Prod.mk.injEq,
            Prod.exists] at h
          obtain ⟨r, ts, _, h, rfl, rfl⟩ := h
          obtain ⟨rest, hr, hrest, hbest⟩ := begins_of_run h
          refine ⟨c, r, rest, ts, begins_cons_cons.mpr ⟨rfl, hc, hr⟩, rfl, hrest, ?_⟩
          intro d r' rest' hr' hpre
          obtain ⟨rfl, -, hr'⟩ := begins_cons_cons.mp hr'
          exact hbest r' rest' hr' (Preference.prefers_cons.mp hpre)
      · simp at h

/-- Where a run of admitted characters has a rest that matches, there is a match, with this run or another. -/
theorem exists_split?_some (hne : r ≠ []) (hr : ∀ c ∈ r, admits c)
    (h : split? ps rest = some (ts, after)) :
    ∃ found, split? (.some admits prefers :: ps) (r ++ rest) = some found := by
  cases r with
  | nil => contradiction
  | cons c r =>
      obtain ⟨hc, hr⟩ := List.forall_mem_cons.mp hr
      cases hrun : run admits prefers (split? ps) (r ++ rest) with
      | none =>
          have hnone := run_eq_none_iff.mp hrun r rest (begins_append hr)
          exact absurd (h.symm.trans hnone) (by simp)
      | some found => simp [split?, cut, hc, hrun]

/-- **The texts of a match fit its pieces.** -/
theorem fits_of_split? (h : p.split? cs = some (texts, after)) : List.Forall₂ Piece.Fits p texts := by
  induction p generalizing cs texts with
  | nil =>
      simp only [split?, Option.some.injEq, Prod.mk.injEq] at h
      obtain ⟨rfl, -⟩ := h
      exact .nil
  | cons piece p ih =>
      cases piece with
      | text t =>
          obtain ⟨rest, ts, -, rfl, hrest⟩ := prefix_of_split?_text h
          exact .cons rfl (ih hrest)
      | many admits prefers =>
          obtain ⟨r, rest, ts, hr, rfl, hrest, -⟩ := begins_of_split?_many h
          exact .cons hr.2 (ih hrest)
      | some admits prefers =>
          obtain ⟨c, r, rest, ts, hr, rfl, hrest, -⟩ := begins_of_split?_some h
          exact .cons ⟨by simp, hr.2⟩ (ih hrest)

/-- A match of two patterns in a row is a match of the first and a match of the second behind it. -/
theorem append_of_split?_append {q : Pattern} (h : split? (p ++ q) cs = some (texts, after)) :
    ∃ ts us rest, texts = ts ++ us ∧ ts.length = p.length ∧ cs = ts.flatten ++ rest ∧
      q.split? rest = some (us, after) := by
  induction p generalizing cs texts with
  | nil => exact ⟨[], texts, cs, rfl, rfl, rfl, h⟩
  | cons piece p ih =>
      simp only [List.cons_append, split?, Option.map_eq_some_iff, Prod.mk.injEq, Prod.exists] at h
      obtain ⟨t, ts', _, h, rfl, rfl⟩ := h
      obtain ⟨rest', rfl, hrest'⟩ := eq_append_of_cut h
      obtain ⟨ts, us, rest, rfl, hlen, rfl, hq⟩ := ih hrest'
      refine ⟨t :: ts, us, rest, rfl, ?_, ?_, hq⟩
      · rw [List.length_cons, List.length_cons, hlen]
      · rw [List.flatten_cons, List.append_assoc]

/-- A run at the end of a pattern is not cut short. -/
theorem head_of_split?_append_some (h : split? (p ++ [.some admits .longest]) cs = some (texts, after)) :
    ∀ c ∈ after.head?, admits c = false := by
  obtain ⟨_, _, s, -, -, -, hlast⟩ := append_of_split?_append h
  obtain ⟨d, r, rest, us, ⟨rfl, hr⟩, -, hrest, hbest⟩ := begins_of_split?_some hlast
  obtain ⟨-, rfl⟩ := Prod.mk.inj (Option.some.inj hrest)
  intro c hc
  by_contra hadmits
  obtain ⟨rest, rfl⟩ := List.head?_eq_some_iff.mp hc
  -- the run would go on with `c`
  have hlonger : Begins admits ((d :: r) ++ c :: rest) (d :: (r ++ [c])) rest :=
    ⟨by simp, by simpa [or_imp, forall_and, hadmits] using hr⟩
  have hnone := hbest d (r ++ [c]) rest hlonger (by simp [Preference.Prefers])
  contradiction

/-! ## The leftmost match -/

theorem find?_eq_none_iff : p.find? cs = none ↔ ∀ r s, cs = r ++ s → p.split? s = none := by
  rw [find?, shortestRun_eq_none_iff]
  simp [Begins]

theorem find?_eq_some_iff : p.find? cs = some (before, texts, after) ↔
    ∃ s, cs = before ++ s ∧ p.split? s = some (texts, after) ∧
      ∀ r' s', cs = r' ++ s' → r'.length < before.length → p.split? s' = none := by
  show run (fun _ => true) .shortest p.split? cs = some (before, texts, after) ↔ _
  rw [run_eq_some_iff]
  simp [Begins, Preference.Prefers]

/-! ## The scan -/

/-- No match is empty. -/
def Consumes (p : Pattern) : Prop :=
  ∀ cs texts after, p.split? cs = some (texts, after) → after.length < cs.length

/-- No match starts with such a character. -/
def Avoids (p : Pattern) (bad : Char → Prop) : Prop := ∀ c cs, bad c → p.split? (c :: cs) = none

theorem consumes_text (ht : t ≠ []) : Consumes (.text t :: ps) := by
  intro cs texts after h
  obtain ⟨rest, ts, rfl, -, h⟩ := prefix_of_split?_text h
  have ht : 0 < t.length := List.length_pos_iff.mpr ht
  rw [eq_flatten_append_of_split? h]
  simp only [List.length_append]
  omega

theorem consumes_some : Consumes (.some admits prefers :: ps) := by
  intro cs texts after h
  obtain ⟨c, r, rest, ts, ⟨rfl, -⟩, -, h, -⟩ := begins_of_split?_some h
  rw [eq_flatten_append_of_split? h]
  simp only [List.length_append, List.length_cons]
  omega

theorem length_lt_of_find? (hp : Consumes p) (h : p.find? cs = some (before, texts, after)) :
    after.length < cs.length := by
  obtain ⟨s, rfl, hs, -⟩ := find?_eq_some_iff.mp h
  have := hp s texts after hs
  rw [List.length_append]
  omega

theorem findAll_of_find?_eq_none (h : p.find? cs = none) : findAll p pos cs = [] := by
  rw [findAll, h]

theorem findAll_of_find?_eq_some (hp : Consumes p) (h : p.find? cs = some (before, texts, after)) :
    findAll p pos cs = ⟨pos + byteLength before, texts⟩ ::
      findAll p (pos + byteLength before + byteLength texts.flatten) after := by
  rw [findAll, h]
  simp [length_lt_of_find? hp h, Match.size]

/-- The scan finds a match that stands behind a text in which none starts. -/
theorem findAll_append (hp : Consumes p) (h : p.split? cs = some (texts, after))
    (hbefore : ∀ r s, before = r ++ s → s ≠ [] → p.split? (s ++ cs) = none) :
    findAll p pos (before ++ cs) = ⟨pos + byteLength before, texts⟩ ::
      findAll p (pos + byteLength before + byteLength texts.flatten) after := by
  refine findAll_of_find?_eq_some hp (find?_eq_some_iff.mpr ⟨cs, rfl, h, ?_⟩)
  intro r' s' heq hlt
  obtain ⟨m, hne, hm, rfl⟩ := exists_append_of_length_lt heq hlt
  exact hbefore r' m hm hne

theorem findAll_append_of_avoids {bad : Char → Prop} (hp : Consumes p) (hbad : Avoids p bad)
    (hbefore : ∀ c ∈ before, bad c) (h : p.split? cs = some (texts, after)) :
    findAll p pos (before ++ cs) = ⟨pos + byteLength before, texts⟩ ::
      findAll p (pos + byteLength before + byteLength texts.flatten) after := by
  refine findAll_append hp h ?_
  rintro r s rfl hne
  obtain ⟨c, s, rfl⟩ := List.exists_cons_of_ne_nil hne
  exact hbad c (s ++ cs) (hbefore c (by simp))

theorem findAll_of_avoids {bad : Char → Prop} (hp : Consumes p) (hbad : Avoids p bad)
    (hcs : ∀ c ∈ cs, bad c) : findAll p pos cs = [] := by
  refine findAll_of_find?_eq_none (find?_eq_none_iff.mpr ?_)
  rintro r s rfl
  cases s with
  | cons c s => exact hbad c s (hcs c (by simp))
  | nil =>
      cases h : p.split? [] with
      | none => rfl
      | some found => exact absurd (hp [] _ _ h) (by simp)

theorem exists_of_mem_findAll {m : Match} (h : m ∈ findAll p pos cs) :
    ∃ before s after, cs = before ++ s ∧ m.start = pos + byteLength before ∧
      p.split? s = some (m.texts, after) := by
  fun_induction findAll p pos cs with
  | case1 => simp at h
  | case2 pos cs before texts after hfind hlt found ih =>
      obtain ⟨s, rfl, hs, -⟩ := find?_eq_some_iff.mp hfind
      rcases List.mem_cons.mp h with rfl | h
      · exact ⟨before, s, after, rfl, rfl, hs⟩
      · obtain ⟨before', s', after', rfl, hstart, hs'⟩ := ih h
        refine ⟨before ++ texts.flatten ++ before', s', after', ?_, ?_, hs'⟩
        · simp [eq_flatten_append_of_split? hs]
        · simp only [hstart, found, Match.size, Text.byteLength_append]
          omega
  | case3 => simp at h

theorem start_lt_of_mem_findAll (hp : Consumes p) {m : Match} (h : m ∈ findAll p pos cs) :
    m.start < pos + byteLength cs := by
  obtain ⟨before, s, after, rfl, hstart, hs⟩ := exists_of_mem_findAll h
  cases s with
  | nil => exact absurd (hp _ _ _ hs) (by simp)
  | cons c s =>
      have := c.utf8Size_pos
      rw [hstart, Text.byteLength_append, Text.byteLength_cons]
      omega

theorem pos_le_start_of_mem_findAll {m : Match} (h : m ∈ findAll p pos cs) : pos ≤ m.start := by
  obtain ⟨before, s, after, -, hstart, -⟩ := exists_of_mem_findAll h
  omega

/-- A text may be skipped exactly when no match starts in it. -/
theorem findAll_append_eq_iff (hp : Consumes p) :
    findAll p pos (before ++ cs) = findAll p (pos + byteLength before) cs ↔
      ∀ m ∈ findAll p pos (before ++ cs), pos + byteLength before ≤ m.start := by
  constructor
  · intro h m hm
    rw [h] at hm
    exact pos_le_start_of_mem_findAll hm
  · intro h
    cases hfind : p.find? (before ++ cs) with
    | none =>
        have hnone : p.find? cs = none := by
          rw [find?_eq_none_iff]
          rintro r s rfl
          exact find?_eq_none_iff.mp hfind (before ++ r) s (List.append_assoc before r s).symm
        rw [findAll_of_find?_eq_none hfind, findAll_of_find?_eq_none hnone]
    | some found =>
        obtain ⟨front, texts, after⟩ := found
        rw [findAll_of_find?_eq_some hp hfind] at h ⊢
        -- the leftmost match starts behind `before`, so it is the leftmost one of `cs` too
        have hle : pos + byteLength before ≤ pos + byteLength front := h _ List.mem_cons_self
        obtain ⟨s, heq, hs, hmin⟩ := find?_eq_some_iff.mp hfind
        obtain ⟨m, rfl, rfl⟩ : ∃ m, front = before ++ m ∧ cs = m ++ s := by
          rcases List.append_eq_append_iff.mp heq with hm | ⟨m, rfl, rfl⟩
          · exact hm
          · rw [Text.byteLength_append] at hle
            obtain rfl : m = [] := Text.eq_nil_of_byteLength_eq_zero (by omega)
            exact ⟨[], by simp, by simp⟩
        have hfind' : p.find? (m ++ s) = some (m, texts, after) := by
          refine find?_eq_some_iff.mpr ⟨s, rfl, hs, ?_⟩
          intro r' s' hrs hlt
          refine hmin (before ++ r') s' ?_ ?_
          · rw [hrs, List.append_assoc]
          · rw [List.length_append, List.length_append]
            omega
        rw [findAll_of_find?_eq_some hp hfind', Text.byteLength_append, ← Nat.add_assoc]

end Pattern

end HalConstants
