import HalConstants.Proofs.Header.EnumerationScan

/-!
# The own body of an enumeration

The own body of an enumeration ends at the first closing brace behind its opening brace, but a match of the
pattern passes over the ink that is glued to the opening brace first. `enumerations_own_body` says exactly
when this does no harm: no entry of the own body starts in the glued ink, and where that ink reaches over
the own closing brace and a further one stands behind it, nothing in between is an entry or the start of
an enumeration.
-/

namespace HalConstants.Header

open Text (byteLength isBlank isInk IsWord IsGap Breaks)

variable {tail ink rest after : List Char} {b : EnumerationBlock} {pos : Nat}

/-- The ink that is glued to the opening brace. -/
def gluedInk (tail : List Char) : List Char := tail.takeWhile isInk

/-- What stands between the opening brace and the first closing brace. -/
def ownBody (tail : List Char) : List Char := tail.takeWhile (· != closeBrace)

/-- What stands between the glued ink and the first closing brace behind it. -/
def laterBody (tail : List Char) : List Char :=
  (tail.dropWhile isInk).takeWhile (· != closeBrace)

/-- No enumeration starts behind the own closing brace and within the first `n` characters. -/
def NoneStarts (tail : List Char) (n : Nat) : Prop :=
  ∀ x s, tail = x ++ s → (ownBody tail).length < x.length → x.length ≤ n →
    enumerationPattern.split? s = none

/-- The entries of the block are those of its own body, each at its own place, and the block swallows no
enumeration that starts behind its closing brace. -/
def EnumerationBlock.KeepsToOwn (b : EnumerationBlock) (tail : List Char) : Prop :=
  entryPattern.findAll (b.inner + byteLength b.glued) b.body =
      entryPattern.findAll b.inner (ownBody tail) ∧
    NoneStarts tail (b.glued ++ b.body).length

/-- The glued ink holds no start of an own entry, and the text behind it holds nothing foreign. -/
def SparesOwn (pos : Nat) (tail : List Char) : Prop :=
  (∀ m ∈ entryPattern.findAll pos (ownBody tail), pos + byteLength (gluedInk tail) ≤ m.start) ∧
    (closeBrace ∈ gluedInk tail → closeBrace ∈ tail.dropWhile isInk →
      entryPattern.findAll (pos + byteLength (gluedInk tail)) (laterBody tail) = [] ∧
        NoneStarts tail (gluedInk tail ++ laterBody tail).length)

/-! ## Where the own body ends -/

theorem takeWhile_ne_append_of_notMem {c : Char} {front : List Char} (h : c ∉ front) (rest : List Char) :
    (front ++ rest).takeWhile (· != c) = front ++ rest.takeWhile (· != c) := by
  apply List.takeWhile_append_of_pos
  intro d hd
  rw [bne_iff_ne]
  rintro rfl
  exact h hd

theorem takeWhile_ne_append {c : Char} {body : List Char} (h : c ∉ body) :
    (body ++ c :: after).takeWhile (· != c) = body := by
  rw [takeWhile_ne_append_of_notMem h]
  simp

theorem ownBody_append (h : closeBrace ∈ tail) :
    ∃ rest, tail = ownBody tail ++ closeBrace :: rest ∧ closeBrace ∉ ownBody tail := by
  obtain ⟨own, rest, rfl, hown⟩ := List.eq_append_cons_of_mem h
  rw [ownBody, takeWhile_ne_append hown]
  exact ⟨rest, rfl, hown⟩

theorem tail_eq (tail : List Char) : tail = gluedInk tail ++ tail.dropWhile isInk :=
  List.takeWhile_append_dropWhile.symm

theorem ink_of_mem_gluedInk (tail : List Char) : ∀ c ∈ gluedInk tail, isInk c :=
  List.all_eq_true.mp List.all_takeWhile

/-- Without a closing brace in the ink, the own body runs through it. -/
theorem ownBody_of_notMem (h : closeBrace ∉ gluedInk tail) :
    ownBody tail = gluedInk tail ++ laterBody tail := by
  have htake := takeWhile_ne_append_of_notMem h (tail.dropWhile isInk)
  rw [← tail_eq] at htake
  exact htake

/-- With a closing brace in the ink, the own body ends inside it. -/
theorem byteLength_ownBody_lt (h : closeBrace ∈ gluedInk tail) :
    byteLength (ownBody tail) < byteLength (gluedInk tail) := by
  obtain ⟨own, rest, hink, hown⟩ := List.eq_append_cons_of_mem h
  have hbody : ownBody tail = own := by
    rw [ownBody, tail_eq tail, hink, List.append_assoc, List.cons_append, takeWhile_ne_append hown]
  have hpos := closeBrace.utf8Size_pos
  rw [hbody, hink, Text.byteLength_append, Text.byteLength_cons]
  omega

/-- Then no own entry starts behind the ink, so none may be there at all. -/
theorem spares_iff_of_mem (h : closeBrace ∈ gluedInk tail) :
    (∀ m ∈ entryPattern.findAll pos (ownBody tail), pos + byteLength (gluedInk tail) ≤ m.start) ↔
      entryPattern.findAll pos (ownBody tail) = [] := by
  have hlt := byteLength_ownBody_lt h
  constructor
  · intro hstart
    apply List.eq_nil_iff_forall_not_mem.mpr
    intro m hm
    have hle := hstart m hm
    have := Pattern.start_lt_of_mem_findAll consumes_entryPattern hm
    omega
  · intro hnil m hm
    rw [hnil] at hm
    contradiction

/-- Entries behind the ink stand at other places than those in front of its end. -/
theorem findAll_eq_iff_of_mem (h : closeBrace ∈ gluedInk tail) {body : List Char} :
    entryPattern.findAll (pos + byteLength (gluedInk tail)) body =
        entryPattern.findAll pos (ownBody tail) ↔
      entryPattern.findAll pos (ownBody tail) = [] ∧
        entryPattern.findAll (pos + byteLength (gluedInk tail)) body = [] := by
  constructor
  · intro heq
    have hnil : entryPattern.findAll pos (ownBody tail) = [] := by
      refine (spares_iff_of_mem h).mp ?_
      intro m hm
      rw [← heq] at hm
      exact Pattern.pos_le_start_of_mem_findAll hm
    exact ⟨hnil, heq.trans hnil⟩
  · rintro ⟨hown, hbody⟩
    rw [hown, hbody]

/-! ## What the pattern takes for the body -/

/-- A closing brace stands behind the ink, and all of the ink is glued; or the last closing brace stands in
the ink, and the body is empty. -/
theorem body_cases {glued body : List Char}
    (h : bodyPattern.split? tail = some ([glued, body, [closeBrace]], after)) :
    (closeBrace ∈ tail.dropWhile isInk ∧ glued = gluedInk tail ∧ body = laterBody tail) ∨
      (closeBrace ∉ tail.dropWhile isInk ∧ closeBrace ∈ gluedInk tail ∧ body = [] ∧
        ∃ ink, gluedInk tail = glued ++ closeBrace :: ink) := by
  rw [gluedInk, laterBody]
  cases split?_bodyPattern_iff.mp h with
  | behind hink hbreaks hbody =>
      obtain ⟨htake, hdrop⟩ := Text.takeWhile_ink hink hbreaks
      rw [htake, hdrop, takeWhile_ne_append hbody]
      exact .inl ⟨by simp, rfl, rfl⟩
  | inside hink hbreaks hmore hrest =>
      obtain ⟨htake, hdrop⟩ := Text.takeWhile_ink hink hbreaks
      rw [htake, hdrop]
      exact .inr ⟨hrest, by simp, rfl, _, rfl⟩

/-- A blank follows the word `enum`, so an enumeration that starts in the ink has its closing brace behind
it. -/
theorem split?_enumerationPattern_ink (hink : ∀ c ∈ ink, isInk c) (hrest : closeBrace ∉ rest) :
    enumerationPattern.split? (ink ++ rest) = none := by
  apply Option.eq_none_iff_forall_ne_some.mpr
  rintro ⟨texts, after⟩ h
  obtain ⟨cs, ts, hcs, -, hcs'⟩ := Pattern.prefix_of_split?_text h
  obtain ⟨c, gap, s, us, ⟨rfl, hgap⟩, -, hs, -⟩ := Pattern.begins_of_split?_some hcs'
  have hclose : closeBrace ∈ s := by
    obtain ⟨_, _, t, -, -, rfl, ht⟩ := Pattern.append_of_split?_append (q := [.text [closeBrace]])
      (p := [.some isInk .longest, .some isBlank .longest, .text [openBrace],
        .many isInk .longest, .many (fun _ => true) .shortest]) hs
    obtain ⟨t, -, rfl, -⟩ := Pattern.prefix_of_split?_text ht
    simp
  -- the blank behind `enum` is not in the ink
  rcases List.append_eq_append_iff.mp hcs with ⟨m, hm, rfl⟩ | ⟨m, rfl, hm⟩
  · apply hrest
    simp [hclose]
  · cases m with
    | nil =>
        apply hrest
        rw [List.nil_append] at hm
        rw [← hm]
        simp [hclose]
    | cons d m =>
        obtain ⟨rfl, -⟩ := List.cons.inj hm
        exact absurd (hgap c (by simp)) (Text.not_isBlank_of_isInk (hink c (by simp)))

/-! ## When the block keeps to its own body -/

theorem noneStarts_of_body_nil {glued : List Char} (hink : gluedInk tail = glued ++ closeBrace :: ink)
    (hrest : closeBrace ∉ tail.dropWhile isInk) : NoneStarts tail glued.length := by
  intro x s heq _ hle
  rw [tail_eq tail, hink] at heq
  obtain ⟨m, -, hm, rfl⟩ := Pattern.exists_append_of_length_lt heq (by simp; omega)
  refine split?_enumerationPattern_ink ?_ hrest
  intro c hc
  refine ink_of_mem_gluedInk tail c ?_
  rw [hink, hm]
  exact List.mem_append_right x hc

theorem keepsToOwn_iff
    (h : bodyPattern.split? tail = some ([b.glued, b.body, [closeBrace]], after)) :
    b.KeepsToOwn tail ↔ SparesOwn b.inner tail := by
  rw [EnumerationBlock.KeepsToOwn, SparesOwn]
  rcases body_cases h with ⟨hbehind, hglued, hbody⟩ | ⟨hbehind, hink, hbody, ink, hsplit⟩
  · rw [hglued, hbody]
    by_cases hink : closeBrace ∈ gluedInk tail
    · -- the match runs over the own closing brace
      rw [findAll_eq_iff_of_mem hink, spares_iff_of_mem hink]
      constructor
      · rintro ⟨⟨hown, hlater⟩, hnone⟩
        exact ⟨hown, fun _ _ => ⟨hlater, hnone⟩⟩
      · rintro ⟨hown, hforeign⟩
        obtain ⟨hlater, hnone⟩ := hforeign hink hbehind
        exact ⟨⟨hown, hlater⟩, hnone⟩
    · -- the match ends at the own closing brace
      have hown := ownBody_of_notMem hink
      have hnone : NoneStarts tail (gluedInk tail ++ laterBody tail).length := by
        intro x s _ hlt hle
        rw [hown] at hlt
        omega
      rw [hown, eq_comm, Pattern.findAll_append_eq_iff consumes_entryPattern]
      constructor
      · rintro ⟨hstart, -⟩
        exact ⟨hstart, fun hmem => absurd hmem hink⟩
      · rintro ⟨hstart, -⟩
        exact ⟨hstart, hnone⟩
  · -- the body is empty and ends in the glued ink
    have hnil : entryPattern.findAll (b.inner + byteLength b.glued) b.body = [] := by
      rw [hbody]
      exact Pattern.findAll_of_find?_eq_none rfl
    have hnone : NoneStarts tail (b.glued ++ b.body).length := by
      rw [hbody, List.append_nil]
      exact noneStarts_of_body_nil hsplit hbehind
    rw [hnil, spares_iff_of_mem hink]
    constructor
    · rintro ⟨hown, -⟩
      exact ⟨hown.symm, fun _ hmem => absurd hmem hbehind⟩
    · rintro ⟨hown, -⟩
      exact ⟨hown.symm, hnone⟩

/-- A blank behind the opening brace spares the own body. -/
theorem sparesOwn_of_breaks (h : Breaks tail) : SparesOwn pos tail := by
  have hink : gluedInk tail = [] := by
    cases tail with
    | nil => rfl
    | cons c tail => simp [gluedInk, Text.isInk_eq_false_iff.mpr (Text.breaks_cons.mp h)]
  rw [SparesOwn, hink]
  constructor
  · intro m hm
    exact Pattern.pos_le_start_of_mem_findAll hm
  · intro hmem
    contradiction

/-- **Every enumeration keeps to its own body** exactly when the ink that is glued to its opening brace
spares it, so always where a blank follows the brace. -/
theorem enumerations_own_body (text : String) :
    enumerations text = (enumerationBlocks text.toList).map EnumerationBlock.enumeration ∧
    ∀ b ∈ enumerationBlocks text.toList, ∃ before gap gap' tail after rest,
      text.toList = before ++ (b.head ++ tail) ∧ b.start = byteLength before ∧
      b.head = keyword ++ (gap ++ (b.name ++ (gap' ++ [openBrace]))) ∧ IsGap gap ∧
      IsWord b.name ∧ IsGap gap' ∧
      tail = b.glued ++ (b.body ++ closeBrace :: after) ∧
      tail = ownBody tail ++ closeBrace :: rest ∧ closeBrace ∉ ownBody tail ∧
      (b.KeepsToOwn tail ↔ SparesOwn b.inner tail) ∧ (Breaks tail → b.KeepsToOwn tail) := by
  refine ⟨enumerations_eq_map text, ?_⟩
  intro b hb
  obtain ⟨before, gap, gap', tail, after, htext, hstart, hhead, hgap, hname, hgap', hbody⟩ :=
    exists_append_of_mem_enumerationBlocks hb
  have htail : tail = b.glued ++ (b.body ++ closeBrace :: after) := by
    rw [Pattern.eq_flatten_append_of_split? hbody]
    simp
  have hclose : closeBrace ∈ tail := by
    rw [htail]
    simp
  obtain ⟨rest, hown, hnot⟩ := ownBody_append hclose
  have hkeeps := keepsToOwn_iff hbody
  exact ⟨before, gap, gap', tail, after, rest, htext, hstart, hhead, hgap, hname, hgap', htail, hown,
    hnot, hkeeps, fun hbreaks => hkeeps.mpr (sparesOwn_of_breaks hbreaks)⟩

/-- The empty block takes the entry of the block behind it, which is lost. -/
theorem enumerations_foreign_entry :
    enumerations "enum a \x7b\x7d;\nenum b \x7b B = 2 \x7d;\n" = [⟨"a", [⟨"B", "2"⟩]⟩] := by
  decide +kernel

end HalConstants.Header
