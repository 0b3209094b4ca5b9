import HalConstants.Proofs.Files.Places

/-!
# Paths and their parents

The parent of a path is read off its text: what stands in front of its last name, without the slashes and the
points between. It is a front of the path up to a slash (`exists_of_parentChars?`), so a path leads somewhere
only where its parent is a directory, and with it every path above (`isDirectory_of_mem_ancestors`). Hence a
path whose parent cannot be created leads nowhere.
-/

namespace HalConstants

variable {p q r a b : List Char}

namespace Path

theorem names_append (a b : List Char) :
    names (String.ofList (a ++ '/' :: b)) = names (String.ofList a) ++ names (String.ofList b) := by
  simp only [names, String.toList_ofList, List.splitOn]
  rw [List.splitOnP_append_cons a b (by simp), List.filter_append, List.map_append]

theorem names_ne_nil (h : ∃ c ∈ p, c ≠ '/') : names (String.ofList p) ≠ [] := by
  induction p with
  | nil => simp at h
  | cons d p ih =>
      by_cases hd : d = '/'
      · subst hd
        have hp : ∃ c ∈ p, c ≠ '/' := by simpa using h
        rw [← List.nil_append ('/' :: p), names_append]
        simp [ih hp]
      · -- the first piece holds `d`
        have hsplit : List.splitOnP (· == '/') (d :: p) =
            List.modifyHead (List.cons d) (List.splitOnP (· == '/') p) := by
          rw [List.splitOnP_cons_eq_if_modifyHead]
          simp [hd]
        simp only [names, String.toList_ofList, List.splitOn, hsplit]
        cases hpieces : List.splitOnP (· == '/') p with
        | nil => exact absurd hpieces (List.splitOnP_ne_nil _ p)
        | cons piece pieces => simp

/-- A trimmed path does not end in a slash, unless it is the root. -/
theorem eq_nil_of_trimBackwards (h : trimBackwards r = '/' :: a) : a = [] := by
  fun_induction trimBackwards r with
  | case1 => simp at h
  | case2 => simpa using h.symm
  | case3 cs hcs ih => exact ih h
  | case4 cs ih => exact ih h
  | case5 cs h₁ h₂ h₃ h₄ => exact absurd h (h₃ a)

/-- What is trimmed off starts with a slash. -/
theorem exists_of_trimBackwards (r : List Char) :
    ∃ cut, r = cut ++ trimBackwards r ∧
      (trimBackwards r = ['/'] ∨ cut = [] ∨ ∃ cut', cut = cut' ++ ['/']) := by
  fun_induction trimBackwards r with
  | case1 => exact ⟨[], rfl, .inr (.inl rfl)⟩
  | case2 => exact ⟨[], rfl, .inl rfl⟩
  | case3 cs hcs ih =>
      obtain ⟨cut, heq, hcut⟩ := ih
      refine ⟨'/' :: cut, by rw [List.cons_append, ← heq], ?_⟩
      rcases hcut with hroot | rfl | ⟨cut', rfl⟩
      · exact .inl hroot
      · exact .inr (.inr ⟨[], rfl⟩)
      · exact .inr (.inr ⟨'/' :: cut', rfl⟩)
  | case4 cs ih =>
      obtain ⟨cut, heq, hcut⟩ := ih
      refine ⟨'.' :: cut, by rw [List.cons_append, ← heq], ?_⟩
      rcases hcut with hroot | rfl | ⟨cut', rfl⟩
      · exact .inl hroot
      · -- nothing but the point is trimmed off only in front of the root
        have hslash : trimBackwards ('/' :: cs) = '/' :: cs := by simpa using heq.symm
        rw [hslash, eq_nil_of_trimBackwards hslash]
        exact .inl rfl
      · exact .inr (.inr ⟨'.' :: cut', rfl⟩)
  | case5 cs h₁ h₂ h₃ h₄ => exact ⟨[], rfl, .inr (.inl rfl)⟩

/-- A path that ends in a slash is cut at a slash. -/
theorem exists_of_trimBackwards_slash (r : List Char) :
    ∃ x y, '/' :: r = x ++ '/' :: y ∧
      (trimBackwards ('/' :: r) = y ∨ y = [] ∧ trimBackwards ('/' :: r) = ['/']) := by
  obtain ⟨cut, heq, hcut⟩ := exists_of_trimBackwards ('/' :: r)
  rcases hcut with hroot | rfl | ⟨x, rfl⟩
  · exact ⟨cut, [], by rw [← hroot, ← heq], .inr ⟨rfl, hroot⟩⟩
  · obtain rfl := eq_nil_of_trimBackwards (by simpa using heq.symm)
    exact ⟨[], [], rfl, .inr ⟨rfl, rfl⟩⟩
  · exact ⟨x, trimBackwards ('/' :: r), by simpa using heq, .inl rfl⟩

/-- **The parent is a front of the path** up to a slash that a name follows; the root keeps its slash. -/
theorem exists_of_parentChars? (h : parentChars? p = some q) (hq : q ≠ []) :
    ∃ a b, p = a ++ '/' :: b ∧ (q = a ∨ q = a ++ ['/']) ∧ ∃ c ∈ b, c ≠ '/' := by
  obtain ⟨cut, hcut, -⟩ := exists_of_trimBackwards p.reverse
  rw [parentChars?] at h
  split at h
  · contradiction
  · contradiction
  · next c cs hroot heq =>
      have hc : c ≠ '/' := by
        rintro rfl
        exact hroot rfl (eq_nil_of_trimBackwards heq)
      obtain rfl := Option.some.inj h
      have hsplit := List.takeWhile_append_dropWhile (p := (· != '/')) (l := cs)
      have hhead := List.head?_dropWhile_not (· != '/') cs
      cases hrest : cs.dropWhile (· != '/') with
      | nil => exact absurd (by rw [hrest]; rfl) hq
      | cons d rest =>
          rw [hrest] at hhead hsplit
          obtain rfl : d = '/' := by simpa using hhead
          obtain ⟨x, y, hxy, htrim⟩ := exists_of_trimBackwards_slash rest
          have hp : p = y.reverse ++ '/' ::
              (x.reverse ++ ((cs.takeWhile (· != '/')).reverse ++ c :: cut.reverse)) := by
            rw [heq, ← hsplit, hxy] at hcut
            rw [← List.reverse_reverse p, hcut]
            simp
          refine ⟨y.reverse, _, hp, ?_, c, by simp, hc⟩
          rcases htrim with htrim | ⟨rfl, htrim⟩
          · exact .inl (by rw [htrim])
          · exact .inr (by rw [htrim]; rfl)

theorem ancestors_nil : ancestors [] = [] := by
  rw [ancestors]
  rfl

end Path

namespace Tree

variable {t t' : Tree} {l : Location} {path parent : String} {kind : IoKind}

/-- **A path leads somewhere only where its parent is a directory.** -/
theorem isDirectory_parent (h : t.resolve (String.ofList p) = .ok l) (hparent : Path.parentChars? p = some q)
    (hq : q ≠ []) : t.isDirectory (String.ofList q) := by
  obtain ⟨a, b, rfl, hqa, hb⟩ := Path.exists_of_parentChars? hparent hq
  obtain ⟨hread, hwalk⟩ := resolve_eq_ok_iff.mp h
  have hprefix : q <+: a ++ '/' :: b := by
    rcases hqa with rfl | rfl
    · exact ⟨_, rfl⟩
    · exact ⟨b, by simp⟩
  have hnames : Path.names (String.ofList q) = Path.names (String.ofList a) := by
    rcases hqa with rfl | rfl
    · rfl
    · rw [Path.names_append]
      simp [Path.names]
  obtain ⟨rest, hrest⟩ := hprefix
  have hbase : t.base (String.ofList q) = t.base (String.ofList (a ++ '/' :: b)) := by
    obtain ⟨c, q, rfl⟩ := List.exists_cons_of_ne_nil hq
    simp [base, ← hrest, Path.isAbsoluteChars]
  have hqread : Path.IsRead (String.ofList q) := by
    obtain ⟨hnul, -, hsize⟩ := hread
    rw [String.toList_ofList, ← hrest] at hnul
    rw [← hrest, String.ofList_append, String.utf8ByteSize_append] at hsize
    refine ⟨?_, by simpa using hq, by omega⟩
    rw [String.toList_ofList]
    exact fun hmem => hnul (List.mem_append_left rest hmem)
  rw [Path.names_append] at hwalk
  obtain ⟨l₁, hfront, hback⟩ := walk_append_eq_ok_iff.mp hwalk
  have hresolve : t.resolve (String.ofList q) = .ok l₁ :=
    resolve_eq_ok_iff.mpr ⟨hqread, by rw [hbase, hnames, hfront]⟩
  obtain ⟨name, names, hcons⟩ := List.exists_cons_of_ne_nil (Path.names_ne_nil hb)
  rw [hcons] at hback
  rw [isDirectory, hresolve]
  simp [(walk_cons_eq_ok_iff.mp hback).1]

theorem isDirectory_of_mem_ancestors (h : t.isDirectory (String.ofList p)) :
    ∀ a ∈ Path.ancestors p, t.isDirectory (String.ofList a) := by
  fun_induction Path.ancestors p with
  | case1 p hnone => simp
  | case2 p q hparent ih =>
      intro a ha
      rcases List.mem_cons.mp ha with rfl | ha
      · exact h
      · by_cases hq : q = []
        · rw [hq, Path.ancestors_nil] at ha
          contradiction
        · have hresolve : ∃ l, t.resolve (String.ofList p) = .ok l := by
            rw [isDirectory] at h
            split at h
            · next l hl => exact ⟨l, hl⟩
            · contradiction
          obtain ⟨l, hl⟩ := hresolve
          exact ih (isDirectory_parent hl hparent hq) a ha

/-- **A path whose parent cannot be created leads nowhere.** -/
theorem resolve_ne_ok_of_createDirectories (hparent : Path.parent? path = some parent)
    (hne : parent.isEmpty = false) (h : t.createDirectories parent = (.error kind, t')) :
    t'.resolve path ≠ .ok l := by
  intro hresolve
  obtain ⟨q, hq, rfl⟩ := Option.map_eq_some_iff.mp hparent
  obtain ⟨p, hp, hfail⟩ := exists_of_ensureChain_error h
  obtain ⟨a, ha, rfl⟩ := List.mem_map.mp hp
  rw [String.toList_ofList] at ha
  have hqne : q ≠ [] := by
    rintro rfl
    simp at hne
  have hdir : t'.isDirectory (String.ofList q) :=
    isDirectory_parent (p := path.toList) (by rwa [String.ofList_toList]) hq hqne
  exact hfail t' (ensureDirectory_of_isDirectory (isDirectory_of_mem_ancestors hdir a ha))

end Tree

end HalConstants
