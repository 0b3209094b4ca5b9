/-!
# Pieces between separators

A list is cut at each separator, and joined again from its pieces. It has exactly one list of pieces.
-/

namespace HalConstants

variable {α : Type} {xs ys : List α} {sep : α}

theorem intercalate_cons_eq_flatMap (sep xs : List α) (more : List (List α)) :
    sep.intercalate (xs :: more) = xs ++ more.flatMap (sep ++ ·) := by
  induction more generalizing xs with
  | nil => simp
  | cons next more ih => simp [List.intercalate_cons_cons, ih]

theorem mem_of_mem_splitOn [BEq α] [LawfulBEq α] {x : α} {piece : List α}
    (hpiece : piece ∈ xs.splitOn sep) (hx : x ∈ piece) : x ∈ xs := by
  have hxs : [sep].intercalate (xs.splitOn sep) = xs := List.intercalate_splitOn sep
  cases hsplit : xs.splitOn sep with
  | nil =>
      rw [hsplit] at hpiece
      contradiction
  | cons first more =>
      rw [hsplit, intercalate_cons_eq_flatMap] at hxs
      rw [hsplit] at hpiece
      rw [← hxs, List.mem_append, List.mem_flatMap]
      rcases List.mem_cons.mp hpiece with rfl | hpiece
      · exact .inl hx
      · exact .inr ⟨piece, hpiece, List.mem_append_right [sep] hx⟩

theorem notMem_of_mem_splitOn [BEq α] [LawfulBEq α] {piece : List α}
    (hpiece : piece ∈ xs.splitOn sep) : sep ∉ piece := by
  rw [List.splitOn_eq_splitOnP] at hpiece
  induction xs generalizing piece with
  | nil =>
      rw [List.splitOnP_nil, List.mem_singleton] at hpiece
      exact hpiece ▸ List.not_mem_nil
  | cons x xs ih =>
      rw [List.splitOnP_cons_eq_if_modifyHead] at hpiece
      obtain ⟨first, more, hsplit⟩ := List.exists_cons_of_ne_nil (List.splitOnP_ne_nil (· == sep) xs)
      rw [hsplit] at ih hpiece
      split at hpiece
      · rcases List.mem_cons.mp hpiece with rfl | hpiece
        · exact List.not_mem_nil
        · exact ih hpiece
      · next hx =>
          rw [List.modifyHead_cons] at hpiece
          rcases List.mem_cons.mp hpiece with rfl | hpiece
          · rw [List.mem_cons, not_or]
            exact ⟨fun heq => hx (beq_iff_eq.mpr heq.symm), ih (.head more)⟩
          · exact ih (.tail first hpiece)

/-- The pieces of a list between separators. Every list has exactly one such list of pieces. -/
structure Pieces (sep : α) (xs : List α) (pieces : List (List α)) : Prop where
  ne_nil : pieces ≠ []
  free : ∀ piece ∈ pieces, sep ∉ piece
  joined : [sep].intercalate pieces = xs

theorem pieces_iff [BEq α] [LawfulBEq α] {pieces : List (List α)} :
    Pieces sep xs pieces ↔ pieces = xs.splitOn sep := by
  constructor
  · rintro ⟨hne, hfree, rfl⟩
    exact (List.splitOn_intercalate sep hfree hne).symm
  · rintro rfl
    exact ⟨List.splitOn_ne_nil sep xs, fun piece => notMem_of_mem_splitOn, List.intercalate_splitOn sep⟩

/-- Whatever is no separator stands in a piece. -/
theorem Pieces.mem_cases {x : α} {pieces : List (List α)} (h : Pieces sep xs pieces) (hx : x ∈ xs) :
    x = sep ∨ ∃ piece ∈ pieces, x ∈ piece := by
  obtain ⟨hne, -, rfl⟩ := h
  obtain ⟨first, more, rfl⟩ := List.exists_cons_of_ne_nil hne
  rw [intercalate_cons_eq_flatMap, List.mem_append, List.mem_flatMap] at hx
  rcases hx with hx | ⟨piece, hpiece, hx⟩
  · exact .inr ⟨first, .head more, hx⟩
  · rcases List.mem_cons.mp hx with hx | hx
    · exact .inl hx
    · exact .inr ⟨piece, .tail first hpiece, hx⟩

/-- A list without separators is its only piece. -/
theorem splitOn_of_notMem [BEq α] [LawfulBEq α] (h : sep ∉ xs) : xs.splitOn sep = [xs] := by
  have hpieces : ([sep].intercalate [xs]).splitOn sep = [xs] :=
    List.splitOn_intercalate sep (List.forall_mem_singleton.mpr h) (List.cons_ne_nil xs [])
  rwa [List.intercalate_singleton] at hpieces

theorem splitOn_append_cons [BEq α] [LawfulBEq α] :
    (xs ++ sep :: ys).splitOn sep = xs.splitOn sep ++ ys.splitOn sep :=
  List.splitOnP_append_cons xs ys (beq_self_eq_true sep)

end HalConstants
