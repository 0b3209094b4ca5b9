import HalConstants.Text.Bytes

/-!
# Occurrences of a marker

The markers that the patterns look for start with a character that does not recur in them, so no two
occurrences overlap and an occurrence never straddles the place where another one starts
(`prefix_of_prefix_append_cons`). `cutLast?` cuts a text at the last occurrence of a marker, and `CutsFirst`
says that a text is cut at the first place behind which it is of some form.
-/

namespace HalConstants.Text

variable {c : Char} {n r x y z cs front own : List Char}

/-- A marker that starts in front of the place where its first character stands again ends in front of
that place. -/
theorem prefix_of_prefix_append_cons (hc : c ∉ n) (hy : y ≠ []) (h : c :: n <+: y ++ c :: z) :
    c :: n <+: y := by
  rcases List.prefix_or_prefix_of_prefix h (List.prefix_append y (c :: z)) with hpre | ⟨t, ht⟩
  · exact hpre
  · obtain ⟨u, hu⟩ := h
    cases t with
    | nil => exact ⟨[], by simpa using ht.symm⟩
    | cons d t =>
        -- the rest of the marker would start with its first character
        rw [← ht, List.append_assoc] at hu
        obtain ⟨rfl, -⟩ := List.cons.inj (List.append_cancel_left hu)
        cases y with
        | nil => contradiction
        | cons e y =>
            obtain ⟨-, rfl⟩ := List.cons.inj ht
            simp at hc

theorem not_prefix_of_not_infix (hx : ¬ n <:+: x) (hxy : x = r ++ y) : ¬ n <+: y := by
  intro h
  exact hx (hxy ▸ h.isInfix.trans (List.suffix_append r y).isInfix)

/-- In front of the place where a marker stands it starts only where the text up to there holds it. -/
theorem not_prefix_append_cons (hc : c ∉ n) (hx : ¬ c :: n <:+: x) (hxy : x = r ++ y) (hy : y ≠ []) :
    ¬ c :: n <+: y ++ c :: z := by
  intro h
  exact not_prefix_of_not_infix hx hxy (prefix_of_prefix_append_cons hc hy h)

/-- Of two fronts of one text, the one that takes more bytes continues the other. -/
theorem exists_append_of_byteLength_le (h : x ++ y = front ++ z) (hle : byteLength x ≤ byteLength front) :
    ∃ m, front = x ++ m ∧ y = m ++ z := by
  rcases List.append_eq_append_iff.mp h with hm | ⟨m, rfl, rfl⟩
  · exact hm
  · rw [byteLength_append] at hle
    obtain rfl : m = [] := eq_nil_of_byteLength_eq_zero (by omega)
    exact ⟨[], by simp, by simp⟩

/-- `cs` is cut at the first place behind which `P` holds. -/
def CutsFirst (P : List Char → Prop) (cs front rest : List Char) : Prop :=
  cs = front ++ rest ∧ P rest ∧ ∀ r s, cs = r ++ s → r.length < front.length → ¬ P s

theorem exists_cutsFirst {P : List Char → Prop} (h : ∃ r s, cs = r ++ s ∧ P s) :
    ∃ front rest, CutsFirst P cs front rest := by
  induction cs with
  | nil =>
      obtain ⟨r, s, heq, hs⟩ := h
      obtain ⟨rfl, rfl⟩ := List.append_eq_nil_iff.mp heq.symm
      exact ⟨[], [], rfl, hs, by simp⟩
  | cons c cs ih =>
      by_cases hhere : P (c :: cs)
      · exact ⟨[], c :: cs, rfl, hhere, by simp⟩
      · obtain ⟨r, s, heq, hs⟩ := h
        cases r with
        | nil =>
            rw [List.nil_append] at heq
            exact absurd (heq ▸ hs) hhere
        | cons d r =>
            obtain ⟨rfl, rfl⟩ := List.cons.inj heq
            obtain ⟨front, rest, hcut, hrest, hmin⟩ := ih ⟨r, s, rfl, hs⟩
            refine ⟨c :: front, rest, by rw [hcut, List.cons_append], hrest, ?_⟩
            intro r' s' heq' hlt
            cases r' with
            | nil =>
                rw [List.nil_append] at heq'
                exact heq' ▸ hhere
            | cons d' r' => exact hmin r' s' (List.cons.inj heq').2 (by simpa using hlt)

theorem CutsFirst.unique {P : List Char → Prop} {front' rest rest' : List Char}
    (h : CutsFirst P cs front rest) (h' : CutsFirst P cs front' rest') : front = front' := by
  have hle : front.length ≤ front'.length :=
    Nat.le_of_not_lt fun hlt => h.2.2 front' rest' h'.1 hlt h'.2.1
  have hge : front'.length ≤ front.length :=
    Nat.le_of_not_lt fun hlt => h'.2.2 front rest h.1 hlt h.2.1
  exact (List.append_inj (h.1.symm.trans h'.1) (Nat.le_antisymm hle hge)).1

/-- The first place of a text is the first one of every text that starts in front of it. -/
theorem CutsFirst.of_append {P : List Char → Prop} {rest : List Char}
    (h : CutsFirst P (x ++ cs) (x ++ front) rest) : CutsFirst P cs front rest := by
  obtain ⟨hcut, hrest, hmin⟩ := h
  refine ⟨List.append_cancel_left (by rw [hcut, List.append_assoc]), hrest, ?_⟩
  rintro r s rfl hlt
  refine hmin (x ++ r) s (List.append_assoc x r s).symm ?_
  simp only [List.length_append]
  omega

/-- More text behind leaves the first place where it is, if it lets no earlier place in. -/
theorem CutsFirst.append_right {P : List Char → Prop} {rest : List Char} (h : CutsFirst P cs front rest)
    (hrest : P (rest ++ z))
    (hfront : ∀ r m, front = r ++ m → m ≠ [] → P (m ++ (rest ++ z)) → P (m ++ rest)) :
    CutsFirst P (cs ++ z) front (rest ++ z) := by
  obtain ⟨hcut, -, hmin⟩ := h
  refine ⟨by rw [hcut, List.append_assoc], hrest, ?_⟩
  intro r s heq hlt hs
  rw [hcut, List.append_assoc] at heq
  rcases List.append_eq_append_iff.mp heq with ⟨m, rfl, -⟩ | ⟨m, rfl, rfl⟩
  · rw [List.length_append] at hlt
    omega
  · have hm : m ≠ [] := by
      rintro rfl
      simp at hlt
    exact hmin r (m ++ rest) (by rw [hcut, List.append_assoc]) hlt (hfront r m rfl hm hs)

/-- The text in front of the last occurrence of a marker, and the text behind it. -/
def cutLast? (marker : List Char) : List Char → Option (List Char × List Char)
  | [] => none
  | c :: cs =>
    match cutLast? marker cs with
    | some (front, own) => some (c :: front, own)
    | none => if marker.isPrefixOf (c :: cs) then some ([], (c :: cs).drop marker.length) else none

theorem not_infix_of_cutLast?_eq_none (hn : n ≠ []) (h : cutLast? n cs = none) : ¬ n <:+: cs := by
  induction cs with
  | nil => simpa using hn
  | cons c cs ih =>
      simp only [cutLast?] at h
      split at h
      · contradiction
      · next hnone =>
          split at h
          · contradiction
          · next hpre =>
              rw [List.infix_cons_iff]
              rintro (hin | hin)
              · exact hpre (List.isPrefixOf_iff_prefix.mpr hin)
              · exact ih hnone hin

theorem append_of_cutLast?_eq_some (hn : n ≠ []) (h : cutLast? n cs = some (front, own)) :
    cs = front ++ (n ++ own) ∧ ¬ n <:+: own := by
  induction cs generalizing front with
  | nil => simp [cutLast?] at h
  | cons c cs ih =>
      simp only [cutLast?] at h
      split at h
      · next front' own' hsome =>
          obtain ⟨rfl, rfl⟩ := Prod.mk.inj (Option.some.inj h)
          obtain ⟨rfl, hin⟩ := ih hsome
          exact ⟨rfl, hin⟩
      · next hnone =>
          split at h
          · next hpre =>
              obtain ⟨rest, hrest⟩ := List.isPrefixOf_iff_prefix.mp hpre
              obtain ⟨rfl, rfl⟩ := Prod.mk.inj (Option.some.inj h)
              refine ⟨?_, ?_⟩
              · rw [← hrest]
                simp
              · -- the text behind the marker stands behind its first character too
                intro hin
                apply not_infix_of_cutLast?_eq_none hn hnone
                obtain ⟨d, n, rfl⟩ := List.exists_cons_of_ne_nil hn
                rw [List.length_cons, List.drop_succ_cons] at hin
                exact hin.trans (List.drop_suffix n.length cs).isInfix
          · contradiction

end HalConstants.Text
