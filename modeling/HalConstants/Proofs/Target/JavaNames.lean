import HalConstants.Proofs.Target.JavaDeclarations

/-!
# The name of a nested class

An enumeration whose name starts in upper case names its class as it is. Of any other name the pieces between
underscores are put together, each with its first character in upper case (`Joins`). An empty piece adds nothing,
so it does not matter where else underscores stand than between two pieces. A class named in this way names its
class as it is (`typeName_of_pieces`), also where the upper case of its first character does not count as upper
case: such a name is one piece, and what is in upper case stays.
-/

namespace HalConstants.Java

variable {name name' : String} {cs joined : List Char} {pieces pieces' : List (List Char)} {d : Char}

/-- `joined` puts pieces together, each with its first character in upper case. -/
inductive Joins : List (List Char) → List Char → Prop
  | nil : Joins [] []
  | empty {pieces : List (List Char)} {joined : List Char} (h : Joins pieces joined) : Joins ([] :: pieces) joined
  | piece {c : Char} {cs joined : List Char} {pieces : List (List Char)} (h : Joins pieces joined) :
      Joins ((c :: cs) :: pieces) (Text.upperCase c ++ (cs ++ joined))

theorem joins_flatMap_capitalize (pieces : List (List Char)) : Joins pieces (pieces.flatMap capitalize) := by
  induction pieces with
  | nil => exact .nil
  | cons piece pieces ih =>
      cases piece with
      | nil => exact .empty ih
      | cons c cs =>
          rw [List.flatMap_cons, capitalize, List.append_assoc]
          exact .piece ih

/-- Empty pieces add nothing. -/
theorem flatMap_capitalize_filter (pieces : List (List Char)) :
    (pieces.filter (· ≠ [])).flatMap capitalize = pieces.flatMap capitalize := by
  induction pieces with
  | nil => rfl
  | cons piece pieces ih =>
      cases piece with
      | nil => simpa [capitalize] using ih
      | cons c cs => simpa using ih

theorem typeName_of_not_startsInUpperCase (h : ¬ StartsInUpperCase name) (hpieces : Pieces '_' name.toList pieces) :
    (typeName name).toList = pieces.flatMap capitalize := by
  rw [StartsInUpperCase] at h
  rw [typeName, String.toList_ofList, typeNameChars, if_neg h, pieces_iff.mp hpieces]

/-- Capitalized pieces have no underscore that the pieces do not have. -/
theorem Joins.underscore_notMem (h : Joins pieces joined) (hfree : ∀ piece ∈ pieces, '_' ∉ piece) :
    '_' ∉ joined := by
  induction h with
  | nil => exact List.not_mem_nil
  | empty _ ih => exact ih (List.forall_mem_cons.mp hfree).2
  | @piece c cs joined pieces _ ih =>
      obtain ⟨hpiece, hmore⟩ := List.forall_mem_cons.mp hfree
      rw [List.mem_append, List.mem_append]
      rintro (hfirst | hrest | hjoined)
      · exact hpiece (Text.eq_of_underscore_mem_upperCase hfirst ▸ .head cs)
      · exact hpiece (.tail c hrest)
      · exact ih hmore hjoined

/-- The first character of capitalized pieces is in upper case already. -/
theorem Joins.upperCase_head (h : Joins pieces (d :: cs)) : Text.upperCase d = [d] := by
  generalize hjoined : d :: cs = joined at h
  induction h with
  | nil => contradiction
  | empty _ ih => exact ih hjoined
  | @piece c rest joined pieces _ ih =>
      obtain ⟨e, es, hupper⟩ := List.exists_cons_of_ne_nil (Text.upperCase_ne_nil c)
      have hfirst : e ∈ Text.upperCase c := hupper ▸ List.mem_cons_self
      rw [hupper] at hjoined
      obtain ⟨rfl, -⟩ := List.cons.inj hjoined
      exact Text.upperCase_of_mem_upperCase hfirst

/-- A single piece that starts with what is in upper case already is kept. -/
theorem typeNameChars_of_joins (h : Joins pieces cs) (hfree : '_' ∉ cs) : typeNameChars cs = cs := by
  rw [typeNameChars]
  split
  · rfl
  · rw [splitOn_of_notMem hfree, List.flatMap_singleton]
    cases cs with
    | nil => rfl
    | cons d cs => rw [capitalize, h.upperCase_head, List.singleton_append]

/-- **A class is named by the pieces of the name.** Naming a class by the name of a class changes nothing. A name
that starts in upper case is kept. Any other gives a name without underscores, put together from its pieces, and
names of the same pieces, up to empty ones, give the same name. -/
theorem typeName_of_pieces (name : String) :
    typeName (typeName name) = typeName name ∧
    (StartsInUpperCase name → typeName name = name) ∧
    (¬ StartsInUpperCase name → '_' ∉ (typeName name).toList ∧
      ∃ pieces, Pieces '_' name.toList pieces ∧ Joins pieces (typeName name).toList ∧
        ∀ name' pieces', ¬ StartsInUpperCase name' → Pieces '_' name'.toList pieces' →
          pieces'.filter (· ≠ []) = pieces.filter (· ≠ []) → typeName name' = typeName name) := by
  have hjoined : ¬ StartsInUpperCase name → ∃ pieces, Pieces '_' name.toList pieces ∧
      (typeName name).toList = pieces.flatMap capitalize := fun hupper =>
    ⟨_, pieces_iff.mpr rfl, typeName_of_not_startsInUpperCase hupper (pieces_iff.mpr rfl)⟩
  refine ⟨?_, typeName_of_startsInUpperCase, ?_⟩
  · by_cases hupper : StartsInUpperCase name
    · rw [typeName_of_startsInUpperCase hupper, typeName_of_startsInUpperCase hupper]
    · obtain ⟨pieces, hpieces, htext⟩ := hjoined hupper
      have hjoins : Joins pieces (typeName name).toList := htext ▸ joins_flatMap_capitalize pieces
      have hkept := typeNameChars_of_joins hjoins (hjoins.underscore_notMem hpieces.free)
      rw [typeName, hkept, String.ofList_toList]
  · intro hupper
    obtain ⟨pieces, hpieces, htext⟩ := hjoined hupper
    have hjoins : Joins pieces (typeName name).toList := htext ▸ joins_flatMap_capitalize pieces
    refine ⟨hjoins.underscore_notMem hpieces.free, pieces, hpieces, hjoins, ?_⟩
    intro name' pieces' hupper' hpieces' hsame
    rw [← String.toList_inj, htext, typeName_of_not_startsInUpperCase hupper' hpieces',
      ← flatMap_capitalize_filter pieces', hsame, flatMap_capitalize_filter]

/-- A name with underscores in every place, whose first letter has an upper case of two characters, of which the
first is not upper case itself. -/
theorem typeName_of_pieces_apostrophe : ¬ StartsInUpperCase "_ŉ__gear_" ∧ typeName "_ŉ__gear_" = "ʼNGear" ∧
    ¬ StartsInUpperCase "ʼNGear" ∧ typeName "ʼNGear" = "ʼNGear" ∧ '_' ∉ (typeName "_ŉ__gear_").toList := by
  have hupper : ¬ StartsInUpperCase "_ŉ__gear_" := by
    unfold StartsInUpperCase
    decide +kernel
  have hname : typeName "_ŉ__gear_" = "ʼNGear" := by decide +kernel
  obtain ⟨hkept, -, hpieces⟩ := typeName_of_pieces "_ŉ__gear_"
  rw [hname] at hkept
  refine ⟨hupper, hname, ?_, hkept, (hpieces hupper).1⟩
  unfold StartsInUpperCase
  decide +kernel

end HalConstants.Java
