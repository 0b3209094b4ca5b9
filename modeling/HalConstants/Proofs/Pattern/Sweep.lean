import HalConstants.Proofs.Pattern.Matches
import HalConstants.Proofs.Text.Occurrence

/-!
# Sweeps

To search a text for all matches of a pattern is to go to the first place at which one starts, to take it
and to go on behind it. `Sweep` says this of anything that may start at a place and stand there, without a
pattern; `Recognizes` ties a pattern to it. Then every text has exactly one sweep, and it finds what the pattern
finds (`sweep_iff`).
-/

namespace HalConstants

open Text (byteLength CutsFirst)

/-- What stands in a text, the byte at which it begins and the byte behind it. -/
structure Found (α : Type) where
  what : α
  first : Nat
  last : Nat

/-- What is found in a text whose first character stands at byte `pos`. `Stands s a rest` is to say that `a`
is what stands at the start of `s`, and `rest` behind it. -/
inductive Sweep (Starts : List Char → Prop) (Stands : List Char → α → List Char → Prop) :
    Nat → List Char → List (Found α) → Prop
  | done {pos : Nat} {cs : List Char} (h : ∀ r s, cs = r ++ s → ¬ Starts s) :
      Sweep Starts Stands pos cs []
  | found {pos : Nat} {cs front own rest : List Char} {a : α} {founds : List (Found α)}
      (hstarts : CutsFirst Starts cs front (own ++ rest)) (hstands : Stands (own ++ rest) a rest)
      (h : Sweep Starts Stands (pos + byteLength (front ++ own)) rest founds) :
      Sweep Starts Stands pos cs
        (⟨a, pos + byteLength front, pos + byteLength (front ++ own)⟩ :: founds)

variable {α : Type} {Starts : List Char → Prop} {Stands : List Char → α → List Char → Prop}
  {pos : Nat} {cs : List Char} {founds : List (Found α)}

/-! ## Where the finds stand -/

theorem Sweep.le_first (h : Sweep Starts Stands pos cs founds) : ∀ d ∈ founds, pos ≤ d.first := by
  induction h with
  | done => simp
  | found _ _ _ ih =>
      intro d hd
      rcases List.mem_cons.mp hd with rfl | hd
      · exact Nat.le_add_right _ _
      · have := ih d hd
        omega

/-- Finds are in the order of the text and do not overlap. -/
theorem Sweep.pairwise (h : Sweep Starts Stands pos cs founds) :
    founds.Pairwise fun d e => d.last ≤ e.first := by
  induction h with
  | done => exact .nil
  | found _ _ h ih => exact .cons h.le_first ih

/-! ## Sweeps and patterns -/

/-- The pattern matches where something starts, and what `read` makes of the match is what stands there. -/
structure Pattern.Recognizes (p : Pattern) (read : Pattern.Match → Option α)
    (Starts : List Char → Prop) (Stands : List Char → α → List Char → Prop) : Prop where
  consumes : p.Consumes
  starts : ∀ {cs texts rest}, p.split? cs = some (texts, rest) → Starts cs
  stands : ∀ {cs}, Starts cs → ∃ a rest, Stands cs a rest
  split : ∀ {cs a rest} (pos : Nat), Stands cs a rest →
    ∃ texts, p.split? cs = some (texts, rest) ∧ read ⟨pos, texts⟩ = some a

/-- What a match is read as, with the bytes that the match takes. -/
def Found.ofMatch? (read : Pattern.Match → Option α) (m : Pattern.Match) : Option (Found α) :=
  (read m).map fun a => ⟨a, m.start, m.start + m.size⟩

theorem Found.map_what (read : Pattern.Match → Option α) (ms : List Pattern.Match) :
    (ms.filterMap (Found.ofMatch? read)).map Found.what = ms.filterMap read := by
  rw [List.map_filterMap]
  congr 1
  funext m
  rw [Found.ofMatch?, Option.map_map]
  exact congrFun Option.map_id (read m)

namespace Pattern.Recognizes

variable {p : Pattern} {read : Pattern.Match → Option α}

theorem founds_eq (hp : p.Recognizes read Starts Stands) (h : Sweep Starts Stands pos cs founds) :
    (p.findAll pos cs).filterMap (Found.ofMatch? read) = founds := by
  induction h with
  | @done pos cs h =>
      rw [findAll_of_find?_eq_none, List.filterMap_nil]
      refine find?_eq_none_iff.mpr ?_
      intro r s hrs
      apply Option.eq_none_iff_forall_ne_some.mpr
      rintro ⟨texts, rest⟩ hsplit
      exact h r s hrs (hp.starts hsplit)
  | @found pos cs front own rest a founds hstarts hstands _ ih =>
      obtain ⟨texts, hsplit, hread⟩ := hp.split (pos + byteLength front) hstands
      have hown : own = texts.flatten :=
        List.append_cancel_right (eq_flatten_append_of_split? hsplit)
      have hfind : p.find? cs = some (front, texts, rest) := by
        refine find?_eq_some_iff.mpr ⟨own ++ rest, hstarts.1, hsplit, ?_⟩
        intro r s hrs hlt
        apply Option.eq_none_iff_forall_ne_some.mpr
        rintro ⟨texts', rest'⟩ hsplit'
        exact hstarts.2.2 r s hrs hlt (hp.starts hsplit')
      -- the match covers the bytes of what stands there
      rw [Text.byteLength_append, ← Nat.add_assoc] at ih ⊢
      rw [findAll_of_find?_eq_some hp.consumes hfind, List.filterMap_cons, Found.ofMatch?, hread, ← hown, ih]
      rw [Option.map_some, Match.size, ← hown]

/-- Every text has a sweep. -/
theorem exists_sweep (hp : p.Recognizes read Starts Stands) (pos : Nat) (cs : List Char) :
    ∃ founds, Sweep Starts Stands pos cs founds := by
  induction h : cs.length using Nat.strongRecOn generalizing cs pos with
  | ind n ih =>
      by_cases hstarts : ∃ r s, cs = r ++ s ∧ Starts s
      · obtain ⟨front, s, hcut⟩ := Text.exists_cutsFirst hstarts
        obtain ⟨a, rest, hstands⟩ := hp.stands hcut.2.1
        obtain ⟨texts, hsplit, -⟩ := hp.split pos hstands
        have hlt := hp.consumes s texts rest hsplit
        obtain rfl := eq_flatten_append_of_split? hsplit
        have hrest : rest.length < n := by
          rw [← h, hcut.1, List.length_append]
          omega
        obtain ⟨founds, hfounds⟩ := ih rest.length hrest _ rest rfl
        exact ⟨_, .found hcut hstands hfounds⟩
      · exact ⟨[], .done fun r s hrs hs => hstarts ⟨r, s, hrs, hs⟩⟩

/-- **The pattern finds what the sweep finds**, and there is one sweep. -/
theorem sweep_iff (hp : p.Recognizes read Starts Stands) :
    Sweep Starts Stands pos cs founds ↔ founds = (p.findAll pos cs).filterMap (Found.ofMatch? read) := by
  constructor
  · intro h
    exact (hp.founds_eq h).symm
  · rintro rfl
    obtain ⟨founds, h⟩ := hp.exists_sweep pos cs
    rw [hp.founds_eq h]
    exact h

end Pattern.Recognizes

end HalConstants
