/-!
# Keyed lists

A list of keys with values, in which a look-up finds the first entry of a key. Putting a value replaces
that entry in its place, or adds one at the end, and changes what is found under no other key.
-/

namespace HalConstants.Keyed

variable {κ α : Type} [BEq κ]

def put (key : κ) (value : α) : List (κ × α) → List (κ × α)
  | [] => [(key, value)]
  | (k, old) :: rest => if k == key then (key, value) :: rest else (k, old) :: put key value rest

theorem lookup_cons_ite (key k : κ) (value : α) (rest : List (κ × α)) :
    ((k, value) :: rest).lookup key = if key == k then some value else rest.lookup key := by
  rw [List.lookup_cons]
  cases key == k <;> rfl

theorem lookup_put [LawfulBEq κ] (key k : κ) (value : α) (entries : List (κ × α)) :
    (put key value entries).lookup k = if k == key then some value else entries.lookup k := by
  induction entries with
  | nil => rw [put, lookup_cons_ite]
  | cons entry rest ih =>
      obtain ⟨l, old⟩ := entry
      rw [put]
      split
      · next h =>
          rw [lookup_cons_ite, lookup_cons_ite, eq_of_beq h]
          split <;> rfl
      · next h =>
          rw [lookup_cons_ite, lookup_cons_ite, ih]
          by_cases hk : k = l
          · subst hk
            rw [if_pos BEq.rfl, if_neg h, if_pos BEq.rfl]
          · rw [if_neg (mt eq_of_beq hk), if_neg (mt eq_of_beq hk)]

end HalConstants.Keyed
