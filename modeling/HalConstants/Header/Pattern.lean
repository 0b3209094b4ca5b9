import HalConstants.Text.Bytes

/-!
# Patterns

A pattern is a sequence of pieces: literal text and runs of admitted characters. A run prefers to be as
long, or as short, as possible and gives way only when the pieces after it cannot match otherwise, so
that of all ways to match a text the first in this order of preference is taken. `find?` looks for the
leftmost match and `findAll` for all matches from left to right, none of which overlap.
-/

namespace HalConstants

inductive Preference where
  | longest
  | shortest
deriving DecidableEq, Repr

inductive Piece where
  | text (cs : List Char)
  /-- A run that may be empty. -/
  | many (admits : Char → Bool) (prefers : Preference)
  /-- A run of at least one character. -/
  | some (admits : Char → Bool) (prefers : Preference)

abbrev Pattern := List Piece

namespace Pattern

variable {α : Type}

/-- The longest admitted run after which the rest of the text is accepted. -/
@[specialize]
def longestRun (admits : Char → Bool) (accept : List Char → Option α) :
    List Char → Option (List Char × α)
  | [] => (accept []).map ([], ·)
  | c :: cs =>
    match if admits c then longestRun admits accept cs else none with
    | some (run, a) => some (c :: run, a)
    | none => (accept (c :: cs)).map ([], ·)

/-- The shortest such run; `before` holds, backwards, what was passed over. -/
@[specialize]
def shortestRunAfter (admits : Char → Bool) (accept : List Char → Option α) (before : List Char) :
    List Char → Option (List Char × α)
  | [] => (accept []).map (before.reverse, ·)
  | c :: cs =>
    match accept (c :: cs) with
    | some a => some (before.reverse, a)
    | none => if admits c then shortestRunAfter admits accept (c :: before) cs else none

@[inline]
def run (admits : Char → Bool) (prefers : Preference) (accept : List Char → Option α)
    (cs : List Char) : Option (List Char × α) :=
  match prefers with
  | .longest => longestRun admits accept cs
  | .shortest => shortestRunAfter admits accept [] cs

/-- The text of a piece at the start of `cs`, with what `accept` makes of the rest. -/
@[inline]
def cut (accept : List Char → Option α) (cs : List Char) : Piece → Option (List Char × α)
  | .text t => if t.isPrefixOf cs then (accept (cs.drop t.length)).map (t, ·) else none
  | .many admits prefers => run admits prefers accept cs
  | .some admits prefers =>
    match cs with
    | c :: rest =>
      if admits c then (run admits prefers accept rest).map fun (r, a) => (c :: r, a) else none
    | [] => none

/-- The texts of the pieces at the start of a text, and the rest of the text. -/
def split? : Pattern → List Char → Option (List (List Char) × List Char)
  | [], cs => some ([], cs)
  | p :: ps, cs => (cut (split? ps) cs p).map fun (t, ts, rest) => (t :: ts, rest)

/-- The text before the leftmost match, and the match. -/
def find? (p : Pattern) (cs : List Char) :
    Option (List Char × List (List Char) × List Char) :=
  shortestRunAfter (fun _ => true) p.split? [] cs

/-- A match: the byte at which it starts and the texts of its pieces. -/
structure Match where
  start : Nat
  texts : List (List Char)
deriving DecidableEq, Repr

def Match.size (m : Match) : Nat := Text.byteLength m.texts.flatten

/-- The matches in a text whose first character stands at byte `pos`. -/
def findAll (p : Pattern) (pos : Nat) (cs : List Char) : List Match :=
  match p.find? cs with
  | none => []
  | some (before, texts, rest) =>
    if rest.length < cs.length then
      let found : Match := ⟨pos + Text.byteLength before, texts⟩
      found :: findAll p (found.start + found.size) rest
    else []
termination_by cs.length

theorem eq_append_of_longestRun {admits : Char → Bool} {accept : List Char → Option α}
    {cs r : List Char} {a : α} (h : longestRun admits accept cs = some (r, a)) :
    ∃ rest, cs = r ++ rest ∧ accept rest = some a ∧ ∀ c ∈ r, admits c := by
  induction cs generalizing r with
  | nil =>
      simp only [longestRun, Option.map_eq_some_iff, Prod.mk.injEq] at h
      obtain ⟨_, h, rfl, rfl⟩ := h
      exact ⟨[], rfl, h, by simp⟩
  | cons c cs ih =>
      simp only [longestRun] at h
      split at h
      · next run b heq =>
          simp only [Option.some.injEq, Prod.mk.injEq] at h
          obtain ⟨rfl, rfl⟩ := h
          split at heq
          · next hc =>
              obtain ⟨rest, rfl, hrest, hall⟩ := ih heq
              exact ⟨rest, rfl, hrest, by simpa [hc] using hall⟩
          · contradiction
      · simp only [Option.map_eq_some_iff, Prod.mk.injEq] at h
        obtain ⟨_, h, rfl, rfl⟩ := h
        exact ⟨c :: cs, rfl, h, by simp⟩

theorem eq_append_of_shortestRunAfter {admits : Char → Bool} {accept : List Char → Option α}
    {before cs r : List Char} {a : α}
    (h : shortestRunAfter admits accept before cs = some (r, a)) :
    ∃ run rest, r = before.reverse ++ run ∧ cs = run ++ rest ∧ accept rest = some a ∧
      ∀ c ∈ run, admits c := by
  induction cs generalizing before with
  | nil =>
      simp only [shortestRunAfter, Option.map_eq_some_iff, Prod.mk.injEq] at h
      obtain ⟨_, h, rfl, rfl⟩ := h
      exact ⟨[], [], by simp, rfl, h, by simp⟩
  | cons c cs ih =>
      simp only [shortestRunAfter] at h
      split at h
      · next heq =>
          simp only [Option.some.injEq, Prod.mk.injEq] at h
          obtain ⟨rfl, rfl⟩ := h
          exact ⟨[], c :: cs, by simp, rfl, heq, by simp⟩
      · split at h
        · next hc =>
            obtain ⟨run, rest, rfl, rfl, hrest, hall⟩ := ih h
            exact ⟨c :: run, rest, by simp, rfl, hrest, by simpa [hc] using hall⟩
        · contradiction

theorem eq_append_of_run {admits : Char → Bool} {prefers : Preference}
    {accept : List Char → Option α} {cs r : List Char} {a : α}
    (h : run admits prefers accept cs = some (r, a)) :
    ∃ rest, cs = r ++ rest ∧ accept rest = some a ∧ ∀ c ∈ r, admits c := by
  cases prefers with
  | longest => exact eq_append_of_longestRun h
  | shortest =>
      obtain ⟨run, rest, rfl, h⟩ := eq_append_of_shortestRunAfter h
      exact ⟨rest, h⟩

theorem eq_append_of_cut {accept : List Char → Option α} {cs t : List Char} {p : Piece} {a : α}
    (h : cut accept cs p = some (t, a)) : ∃ rest, cs = t ++ rest ∧ accept rest = some a := by
  cases p with
  | text u =>
      simp only [cut] at h
      split at h
      · next hu =>
          obtain ⟨rest, rfl⟩ := List.isPrefixOf_iff_prefix.1 hu
          simp only [Option.map_eq_some_iff, Prod.mk.injEq] at h
          obtain ⟨_, h, rfl, rfl⟩ := h
          exact ⟨rest, rfl, by simpa using h⟩
      · contradiction
  | many admits prefers =>
      obtain ⟨rest, hcs, hrest, -⟩ := eq_append_of_run h
      exact ⟨rest, hcs, hrest⟩
  | some admits prefers =>
      simp only [cut] at h
      split at h
      · split at h
        · simp only [Option.map_eq_some_iff, Prod.mk.injEq, Prod.exists] at h
          obtain ⟨r, _, h, rfl, rfl⟩ := h
          obtain ⟨rest, rfl, hrest, -⟩ := eq_append_of_run h
          exact ⟨rest, rfl, hrest⟩
        · contradiction
      · contradiction

/-- The texts of the pieces, put back together, are what was matched. -/
theorem eq_flatten_append_of_split? {p : Pattern} {cs rest : List Char} {texts : List (List Char)}
    (h : p.split? cs = some (texts, rest)) : cs = texts.flatten ++ rest := by
  induction p generalizing cs texts with
  | nil =>
      simp only [split?, Option.some.injEq, Prod.mk.injEq] at h
      obtain ⟨rfl, rfl⟩ := h
      rfl
  | cons piece p ih =>
      simp only [split?, Option.map_eq_some_iff, Prod.mk.injEq, Prod.exists] at h
      obtain ⟨t, ts, r, h, rfl, rfl⟩ := h
      obtain ⟨after, rfl, hafter⟩ := eq_append_of_cut h
      simp [ih hafter]

example : split? [.many (· == 'a') .longest, .text ['a']] ['a', 'a', 'b'] =
    some ([['a'], ['a']], ['b']) := by decide

end Pattern

end HalConstants
