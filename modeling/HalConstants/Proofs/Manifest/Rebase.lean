import HalConstants.Manifest
import Mathlib.Data.List.Forall2

/-!
# Rebasing a manifest

A base puts the same characters in front of every relative path (`Path.front`): none if it is empty, and otherwise
itself with a slash at its end. A base that is itself below another one puts both fronts there, one behind the
other (`Path.front_joinChars`). So to rebase onto one base and then onto another is to rebase once, onto the first
base below the second (`Manifest.rebase_composes`).
-/

namespace HalConstants

namespace Path

variable {base p : List Char}

/-- What a base puts in front of a relative path. -/
def front (base : List Char) : List Char :=
  if base = [] then [] else if base.getLast? = some '/' then base else base ++ ['/']

theorem joinChars_eq (base p : List Char) :
    joinChars base p = if isAbsoluteChars p then p else front base ++ p := by
  unfold joinChars front
  by_cases hp : isAbsoluteChars p
  · simp [hp]
  · by_cases hbase : base = []
    · simp [hbase]
    · by_cases hslash : base.getLast? = some '/'
      · simp [hp, hbase, hslash]
      · simp [hp, hbase, hslash]

theorem isAbsoluteChars_front_append (hp : isAbsoluteChars p = false) :
    isAbsoluteChars (front base ++ p) = isAbsoluteChars base := by
  cases base with
  | nil => exact hp
  | cons c cs =>
      rw [front, if_neg (List.cons_ne_nil c cs)]
      split <;> rfl

/-- An end that is not empty ends the whole. -/
theorem front_append (base : List Char) (hp : p ≠ []) : front (base ++ p) = base ++ front p := by
  have hlast : (base ++ p).getLast? = p.getLast? := List.getLast?_append_of_ne_nil base hp
  rw [front, front, if_neg (by simp [hp]), if_neg hp, hlast]
  split
  · rfl
  · exact List.append_assoc base p ['/']

theorem front_front (base : List Char) : front (front base) = front base := by
  by_cases hbase : base = []
  · rw [hbase]
    rfl
  · by_cases hslash : base.getLast? = some '/'
    · have hfront : front base = base := by
        unfold front
        rw [if_neg hbase, if_pos hslash]
      rw [hfront, hfront]
    · have hfront : front base = base ++ ['/'] := by
        unfold front
        rw [if_neg hbase, if_neg hslash]
      rw [hfront]
      exact front_append base (List.cons_ne_nil '/' [])

/-- **What a base that is itself below another one puts in front.** -/
theorem front_joinChars (base p : List Char) :
    front (joinChars base p) = if isAbsoluteChars p then front p else front base ++ front p := by
  rw [joinChars_eq]
  split
  · rfl
  · by_cases hp : p = []
    · rw [hp, List.append_nil, front_front]
      exact (List.append_nil _).symm
    · exact front_append (front base) hp

theorem joinChars_joinChars (base p q : List Char) :
    joinChars base (joinChars p q) = joinChars (joinChars base p) q := by
  rw [joinChars_eq (joinChars base p) q, front_joinChars, joinChars_eq p q]
  by_cases hq : isAbsoluteChars q
  · rw [if_pos hq, if_pos hq, joinChars_eq, if_pos hq]
  · have hfront : isAbsoluteChars (front p ++ q) = isAbsoluteChars p :=
      isAbsoluteChars_front_append (Bool.eq_false_iff.mpr hq)
    rw [if_neg hq, if_neg hq, joinChars_eq, hfront]
    split
    · rfl
    · exact (List.append_assoc _ _ _).symm

theorem join_join (base p q : String) : join base (join p q) = join (join base p) q := by
  simp only [join, String.toList_ofList, joinChars_joinChars]

theorem join_of_absolute {p : String} (h : isAbsolute p) (base : String) : join base p = p := by
  rw [isAbsolute] at h
  rw [join, joinChars_eq, if_pos h, String.ofList_toList]

/-- Where a path stands below a base: an absolute one where it stood, and a relative one behind the base, with a
slash in between unless the base is empty or ends in one. -/
structure Placed (base path placed : String) : Prop where
  absolute : isAbsolute path → placed = path
  alone : ¬ isAbsolute path → base = "" → placed = path
  behind : ¬ isAbsolute path → base.toList.getLast? = some '/' → placed = base ++ path
  apart : ¬ isAbsolute path → base ≠ "" → base.toList.getLast? ≠ some '/' → placed = base ++ "/" ++ path

theorem placed_join (base path : String) : Placed base path (join base path) := by
  have hrelative : ¬ isAbsolute path → (join base path).toList = front base.toList ++ path.toList := by
    intro h
    rw [isAbsolute] at h
    rw [join, String.toList_ofList, joinChars_eq, if_neg h]
  refine ⟨fun h => join_of_absolute h base, ?_, ?_, ?_⟩
  · rintro h rfl
    apply String.toList_inj.mp
    rw [hrelative h]
    rfl
  · intro h hslash
    have hbase : base.toList ≠ [] := by
      intro hnil
      rw [hnil] at hslash
      contradiction
    apply String.toList_inj.mp
    rw [hrelative h, front, if_neg hbase, if_pos hslash, String.toList_append]
  · intro h hbase hslash
    apply String.toList_inj.mp
    rw [hrelative h, front, if_neg (by simpa using hbase), if_neg hslash, String.toList_append,
      String.toList_append]
    rfl

end Path

namespace Manifest

/-- A manifest whose paths are placed below a base, and nothing else is changed. -/
structure Rebased (base : String) (m m' : Manifest) : Prop where
  inputs : List.Forall₂ (Path.Placed base) m.java.inputs m'.java.inputs
  javaOutput : Option.Rel (Path.Placed base) m.java.output m'.java.output
  document : Option.Rel (Path.Placed base) m.python.document m'.python.document
  pythonOutput : Option.Rel (Path.Placed base) m.python.output m'.python.output
  java : m'.java = { m.java with inputs := m'.java.inputs, output := m'.java.output }
  python : m'.python = { m.python with document := m'.python.document, output := m'.python.output }

theorem rel_placed_map (base : String) (path : Option String) :
    Option.Rel (Path.Placed base) path (path.map (Path.join base)) := by
  cases path with
  | none => exact .none
  | some path => exact .some (Path.placed_join base path)

theorem rebased_rebase (m : Manifest) (base : String) : Rebased base m (m.rebase base) := by
  refine ⟨?_, rel_placed_map base _, rel_placed_map base _, rel_placed_map base _, rfl, rfl⟩
  show List.Forall₂ (Path.Placed base) m.java.inputs (m.java.inputs.map (Path.join base))
  rw [List.forall₂_map_right_iff, List.forall₂_same]
  exact fun path _ => Path.placed_join base path

theorem rebase_rebase (m : Manifest) (a b : String) : (m.rebase a).rebase b = m.rebase (Path.join b a) := by
  have hjoin : Path.join b ∘ Path.join a = Path.join (Path.join b a) := funext fun path => Path.join_join b a path
  simp only [rebase, List.map_map, Option.map_map, hjoin]

/-- **Rebasing composes.** To rebase onto one base and then onto another is to rebase once onto the first below
the second. Each path is placed below the base, absolute ones stay, and so does all that is no path. Behind an
absolute base no further one changes anything, so that it may be given again. -/
theorem rebase_composes (m : Manifest) (a b : String) :
    (m.rebase a).rebase b = m.rebase (Path.join b a) ∧
    Rebased a m (m.rebase a) ∧
    (Path.isAbsolute a → (m.rebase a).rebase b = m.rebase a ∧ (m.rebase a).rebase a = m.rebase a) := by
  refine ⟨rebase_rebase m a b, rebased_rebase m a, ?_⟩
  intro ha
  have hsettled : ∀ b, (m.rebase a).rebase b = m.rebase a := by
    intro b
    rw [rebase_rebase, Path.join_of_absolute ha]
  exact ⟨hsettled b, hsettled a⟩

/-- Paths of every kind below a base that is the root. -/
theorem rebase_composes_root :
    let m : Manifest := { java := { inputs := ["v.h", "/abs/v.h", "", "./v.h"], year := some 2017 } }
    Path.isAbsolute "/" ∧ m.rebase "/" =
      { java := { inputs := ["/v.h", "/abs/v.h", "/", "/./v.h"], year := some 2017 } } ∧
    (m.rebase "/").rebase "hal" = m.rebase "/" :=
  ⟨by decide, by decide, ((rebase_composes _ "/" "hal").2.2 (by decide)).1⟩

end Manifest

end HalConstants
