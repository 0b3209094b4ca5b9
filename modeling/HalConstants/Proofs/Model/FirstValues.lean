import HalConstants.Proofs.Review.Findings

/-!
# The first elements of each key

The filter keeps a list of the keys it has passed. What it lets through can be said without that list: the
elements at the positions whose keys do not stand earlier. So each key has exactly one element that is kept,
the first one, and one more element at the end changes nothing in front of it.
-/

namespace HalConstants

variable {α : Type} {key : α → String} {seen : List String} {k : String} {a : α} {as : List α}

/-- The positions whose keys do not stand earlier, in order. -/
def firstPositions (key : α → String) (as : List α) : List (Fin as.length) :=
  (List.finRange as.length).filter (¬ StandsEarlier key as ·)

/-! ## One step of the filter -/

theorem firstsAfter_cons_of_mem (h : key a ∈ seen) :
    firstsAfter key seen (a :: as) = firstsAfter key seen as := by
  rw [firstsAfter, if_pos (List.contains_iff_mem.mpr h)]

theorem firstsAfter_cons_of_notMem (h : key a ∉ seen) :
    firstsAfter key seen (a :: as) = a :: firstsAfter key (key a :: seen) as := by
  rw [firstsAfter, if_neg fun hseen => h (List.contains_iff_mem.mp hseen)]

/-! ## What the filter keeps -/

/-- What has been seen stands for the elements in front of the list. -/
theorem firstsAfter_eq_map : firstsAfter key seen as =
    ((List.finRange as.length).filter fun i => ¬ (key (as.get i) ∈ seen ∨ StandsEarlier key as i)).map as.get := by
  induction as generalizing seen with
  | nil => rfl
  | cons a as ih =>
      refine Eq.trans ?_ (map_filter_finRange_cons fun i : Fin (as.length + 1) =>
        ¬ (key (a :: as)[i] ∈ seen ∨ StandsEarlier key (a :: as) i)).symm
      show firstsAfter key seen (a :: as) = (if ¬ (key a ∈ seen ∨ _) then [a] else []) ++
        ((List.finRange as.length).filter fun i =>
          ¬ (key as[i] ∈ seen ∨ StandsEarlier key (a :: as) i.succ)).map as.get
      simp only [seen_or_standsEarlier_zero, seen_or_standsEarlier_succ]
      by_cases hseen : key a ∈ seen
      · simp only [mem_cons_iff_of_mem hseen]
        rw [firstsAfter_cons_of_mem hseen, if_neg (not_not_intro hseen), List.nil_append]
        exact ih
      · rw [firstsAfter_cons_of_notMem hseen, if_pos hseen, List.singleton_append]
        exact congrArg (a :: ·) ih

/-- **The filter keeps the elements at the positions whose keys do not stand earlier.** -/
theorem firsts_eq_map : firsts key as = (firstPositions key as).map as.get := by
  unfold firsts firstPositions
  rw [firstsAfter_eq_map]
  simp only [List.not_mem_nil, false_or]

/-- **Of the elements with a key, the first is kept**, unless the key has been seen. -/
theorem filter_firstsAfter : (firstsAfter key seen as).filter (key · == k) =
    if k ∈ seen then [] else (as.find? (key · == k)).toList := by
  induction as generalizing seen with
  | nil => simp [firstsAfter]
  | cons a as ih =>
      by_cases hseen : key a ∈ seen
      · rw [firstsAfter_cons_of_mem hseen, ih]
        by_cases hk : key a = k
        · rw [if_pos (hk ▸ hseen), if_pos (hk ▸ hseen)]
        · rw [List.find?_cons_of_neg (by simpa using hk)]
      · rw [firstsAfter_cons_of_notMem hseen]
        by_cases hk : key a = k
        · rw [List.filter_cons_of_pos (by simpa using hk), ih, if_pos (hk ▸ .head seen),
            if_neg (hk ▸ hseen), List.find?_cons_of_pos (by simpa using hk)]
          rfl
        · have hmem : k ∈ key a :: seen ↔ k ∈ seen := by
            rw [List.mem_cons]
            exact or_iff_right fun heq => hk heq.symm
          rw [List.filter_cons_of_neg (by simpa using hk), List.find?_cons_of_neg (by simpa using hk), ih]
          simp only [hmem]

theorem filter_firsts : (firsts key as).filter (key · == k) = (as.find? (key · == k)).toList := by
  unfold firsts
  rw [filter_firstsAfter, if_neg List.not_mem_nil]

theorem count_map_firsts : ((firsts key as).map key).count k = (as.find? (key · == k)).toList.length := by
  rw [← filter_firsts, List.count, List.countP_map, List.countP_eq_length_filter]
  rfl

/-- **The keys of what is kept are distinct.** -/
theorem nodup_map_firsts : ((firsts key as).map key).Nodup := by
  rw [List.nodup_iff_count_le_one]
  intro k
  rw [count_map_firsts, Option.length_toList]
  split <;> omega

/-- **Every key is represented**, and no other. -/
theorem mem_map_firsts : k ∈ (firsts key as).map key ↔ k ∈ as.map key := by
  have hfound : (as.find? (key · == k)).isSome ↔ k ∈ as.map key := by
    rw [List.find?_isSome, List.mem_map]
    simp only [beq_iff_eq]
  rw [← List.count_pos_iff, count_map_firsts, Option.length_toList, ← hfound]
  split
  · next h => exact iff_of_true Nat.one_pos h
  · next h => exact iff_of_false (Nat.lt_irrefl 0) h

theorem length_firsts : (firsts key as).length = distinctNames key as := by
  have hkeys : ((firsts key as).map key).toFinset = (as.map key).toFinset := by
    ext k
    rw [List.mem_toFinset, List.mem_toFinset, mem_map_firsts]
  unfold distinctNames
  rw [← hkeys, List.toFinset_card_of_nodup nodup_map_firsts, List.length_map]

theorem firstsAfter_append_singleton : firstsAfter key seen (as ++ [a]) =
    firstsAfter key seen as ++ if key a ∈ seen ∨ key a ∈ as.map key then [] else [a] := by
  induction as generalizing seen with
  | nil =>
      by_cases hseen : key a ∈ seen <;> simp [firstsAfter, hseen]
  | cons b as ih =>
      rw [List.cons_append, List.map_cons]
      by_cases hseen : key b ∈ seen
      · have hmem : key a ∈ seen ∨ key a ∈ key b :: as.map key ↔ key a ∈ seen ∨ key a ∈ as.map key := by
          have hpassed : key a = key b → key a ∈ seen := fun heq => heq ▸ hseen
          rw [List.mem_cons, ← or_assoc, or_iff_left_of_imp hpassed]
        rw [firstsAfter_cons_of_mem hseen, firstsAfter_cons_of_mem hseen, ih]
        simp only [hmem]
      · rw [firstsAfter_cons_of_notMem hseen, firstsAfter_cons_of_notMem hseen, ih, List.cons_append]
        simp only [List.mem_cons, or_left_comm, or_assoc]

/-- **One more element** is kept at the end if its key is new, and changes nothing otherwise. -/
theorem firsts_append_singleton : firsts key (as ++ [a]) =
    if key a ∈ as.map key then firsts key as else firsts key as ++ [a] := by
  unfold firsts
  rw [firstsAfter_append_singleton]
  by_cases h : key a ∈ as.map key <;> simp [h]

end HalConstants
