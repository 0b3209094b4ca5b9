/-!
# First occurrences and repeats

Elements of a list are compared by a key. `firsts` keeps the first element of each key, `repeats`
keeps the others; both keep the order of the list.
-/

namespace HalConstants

variable {α β : Type} [BEq β]

/-- The elements whose key is neither in `seen` nor the key of an earlier element. -/
def firstsAfter (key : α → β) : List β → List α → List α
  | _, [] => []
  | seen, a :: as =>
    if seen.contains (key a) then firstsAfter key seen as
    else a :: firstsAfter key (key a :: seen) as

def firsts (key : α → β) (as : List α) : List α := firstsAfter key [] as

/-- The elements whose key is in `seen` or the key of an earlier element. -/
def repeatsAfter (key : α → β) : List β → List α → List α
  | _, [] => []
  | seen, a :: as =>
    if seen.contains (key a) then a :: repeatsAfter key seen as
    else repeatsAfter key (key a :: seen) as

def repeats (key : α → β) (as : List α) : List α := repeatsAfter key [] as

theorem firstsAfter_sublist (key : α → β) (seen : List β) (as : List α) :
    (firstsAfter key seen as).Sublist as := by
  induction as generalizing seen with
  | nil => exact List.Sublist.slnil
  | cons a as ih =>
      simp only [firstsAfter]
      split
      · exact (ih seen).cons a
      · exact (ih _).cons_cons a

theorem repeatsAfter_sublist (key : α → β) (seen : List β) (as : List α) :
    (repeatsAfter key seen as).Sublist as := by
  induction as generalizing seen with
  | nil => exact List.Sublist.slnil
  | cons a as ih =>
      simp only [repeatsAfter]
      split
      · exact (ih seen).cons_cons a
      · exact (ih _).cons a

theorem repeatsAfter_eq_nil_iff [LawfulBEq β] (key : α → β) (seen : List β) (as : List α) :
    repeatsAfter key seen as = [] ↔ (as.map key).Nodup ∧ ∀ a ∈ as, key a ∉ seen := by
  induction as generalizing seen with
  | nil => simp [repeatsAfter]
  | cons a as ih =>
      rw [repeatsAfter, List.map_cons, List.nodup_cons, List.forall_mem_cons]
      split
      · next h =>
          have hseen : key a ∈ seen := List.contains_iff_mem.mp h
          simp [hseen]
      · next h =>
          have hnew : key a ∉ seen := fun hmem => h (List.contains_iff_mem.mpr hmem)
          rw [ih]
          grind

/-- **Nothing repeats** exactly where the keys are pairwise distinct. -/
theorem repeats_eq_nil_iff [LawfulBEq β] (key : α → β) (as : List α) :
    repeats key as = [] ↔ (as.map key).Nodup := by
  rw [repeats, repeatsAfter_eq_nil_iff]
  simp

end HalConstants
