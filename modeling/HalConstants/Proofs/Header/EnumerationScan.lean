import HalConstants.Header.Enumeration
import HalConstants.Proofs.Pattern.Matches
import HalConstants.Proofs.Text.Words

/-!
# Where enumerations stand

An enumeration is a head that ends in an opening brace, and what `bodyPattern` makes of the text behind it:
as much glued ink as still leaves a closing brace, and then everything up to the first one.
`split?_bodyPattern_behind` and `split?_bodyPattern_glued` are the two cases, a closing brace behind the
whole run of ink or only inside it, and `split?_bodyPattern_iff` says that there are no others.
`exists_append_of_mem_enumerationBlocks` takes an enumeration that was found apart into its head and its body.
-/

namespace HalConstants.Header

open Text (byteLength isBlank isInk IsWord IsGap Breaks)

variable {text cs gap name gap' glued body rest after : List Char} {ts : List (List Char)}

def keyword : List Char := "enum".toList

def openBrace : Char := '\x7b'

def closeBrace : Char := '\x7d'

/-- The head of an enumeration: all up to its opening brace. -/
def headPattern : Pattern :=
  [.text keyword, .some isBlank .longest, .some isInk .longest, .some isBlank .longest,
    .text [openBrace]]

/-- The text up to the first closing brace. -/
def upToClose : Pattern := [.many (fun _ => true) .shortest, .text [closeBrace]]

def bodyPattern : Pattern := .many isInk .longest :: upToClose

theorem enumerationPattern_eq : enumerationPattern = headPattern ++ bodyPattern := rfl

/-- An enumeration before its entries are read. `start` is the byte at which its head begins. -/
structure EnumerationBlock where
  start : Nat
  head : List Char
  name : List Char
  glued : List Char
  body : List Char
deriving DecidableEq, Repr

namespace EnumerationBlock

def ofMatch? (m : Pattern.Match) : Option EnumerationBlock :=
  match m.texts with
  | [word, gap, name, gap', brace, glued, body, _] =>
    some ⟨m.start, word ++ (gap ++ (name ++ (gap' ++ brace))), name, glued, body⟩
  | _ => none

/-- The byte behind the opening brace. -/
def inner (b : EnumerationBlock) : Nat := b.start + byteLength b.head

def enumeration (b : EnumerationBlock) : Enumeration := ⟨String.ofList b.name, entries b.body⟩

end EnumerationBlock

def enumerationBlocks (text : List Char) : List EnumerationBlock :=
  (enumerationPattern.findAll 0 text).filterMap EnumerationBlock.ofMatch?

theorem enumeration?_eq (m : Pattern.Match) :
    enumeration? m = (EnumerationBlock.ofMatch? m).map EnumerationBlock.enumeration := by
  rw [enumeration?, EnumerationBlock.ofMatch?]
  -- a match has as many texts as the pattern has pieces, any other number gives nothing
  rcases m.texts with _ | ⟨t, _ | ⟨u, _ | ⟨v, _ | ⟨w, _ | ⟨x, _ | ⟨y, _ | ⟨z, _ | ⟨o, _ | more⟩⟩⟩⟩⟩⟩⟩⟩ <;>
    rfl

theorem enumerations_eq_map (text : String) :
    enumerations text = (enumerationBlocks text.toList).map EnumerationBlock.enumeration := by
  rw [enumerations, enumerationBlocks, List.map_filterMap]
  congr 1
  funext m
  exact enumeration?_eq m

theorem consumes_enumerationPattern : enumerationPattern.Consumes :=
  Pattern.consumes_text (by decide)

theorem avoids_enumerationPattern : enumerationPattern.Avoids (· ≠ 'e') := by
  intro c cs hc
  apply Pattern.split?_text_eq_none
  intro hpre
  exact hc (List.cons_prefix_cons.mp hpre).1.symm

theorem consumes_entryPattern : entryPattern.Consumes := Pattern.consumes_some

theorem avoids_entryPattern : entryPattern.Avoids (isBlank ·) := by
  intro c cs hc
  apply Pattern.split?_some_eq_none
  exact (Text.breaks_cons.mpr hc).head_ink

/-! ## The head -/

theorem isGap_openBrace : ∀ c ∈ (openBrace :: cs).head?, isBlank c = false := by
  rintro c hc
  obtain rfl : openBrace = c := by simpa using hc
  decide

/-- **A head is read in the parts it is written in**, if the text behind it has a body. -/
theorem split?_enumerationPattern (hgap : IsGap gap) (hname : IsWord name) (hgap' : IsGap gap')
    (h : bodyPattern.split? cs = some (ts, after)) :
    enumerationPattern.split? (keyword ++ (gap ++ (name ++ (gap' ++ ([openBrace] ++ cs))))) =
      some (keyword :: gap :: name :: gap' :: [openBrace] :: ts, after) := by
  refine Pattern.split?_text ?_
  refine Pattern.split?_some_longest hgap.1 hgap.2 hname.head_append ?_
  refine Pattern.split?_some_longest hname.1 hname.2 hgap'.breaks_append.head_ink ?_
  refine Pattern.split?_some_longest hgap'.1 hgap'.2 isGap_openBrace ?_
  exact Pattern.split?_text h

/-! ## The body -/

theorem split?_upToClose (hbody : closeBrace ∉ body) :
    upToClose.split? (body ++ closeBrace :: after) = some ([body, [closeBrace]], after) := by
  refine Pattern.split?_many_shortest (by simp) (Pattern.split?_text (t := [closeBrace]) rfl) ?_
  intro r s heq hlt
  obtain ⟨m, hne, rfl, rfl⟩ := Pattern.exists_append_of_length_lt heq hlt
  obtain ⟨c, m, rfl⟩ := List.exists_cons_of_ne_nil hne
  refine Pattern.split?_text_eq_none ?_
  -- an earlier closing brace would be one of the body
  intro hpre
  have hc : closeBrace = c := (List.cons_prefix_cons.mp hpre).1
  simp [hc] at hbody

theorem split?_upToClose_eq_none (h : closeBrace ∉ cs) : upToClose.split? cs = none := by
  apply Option.eq_none_iff_forall_ne_some.mpr
  rintro ⟨ts, after⟩ hsplit
  obtain ⟨r, rest, us, ⟨rfl, -⟩, -, hrest, -⟩ := Pattern.begins_of_split?_many hsplit
  obtain ⟨rest', -, rfl, -⟩ := Pattern.prefix_of_split?_text hrest
  simp at h

/-- A closing brace behind the run of ink: the run is glued, and the body starts behind it. -/
theorem split?_bodyPattern_behind (hglued : ∀ c ∈ glued, isInk c)
    (hrest : Breaks (body ++ closeBrace :: after)) (hbody : closeBrace ∉ body) :
    bodyPattern.split? (glued ++ (body ++ closeBrace :: after)) =
      some ([glued, body, [closeBrace]], after) :=
  Pattern.split?_many_longest hglued hrest.head_ink (split?_upToClose hbody)

/-- No closing brace behind the last one inside the ink: all ink in front of that one is glued. -/
theorem split?_bodyPattern_glued (hglued : ∀ c ∈ glued, isInk c) (hafter : closeBrace ∉ after) :
    bodyPattern.split? (glued ++ closeBrace :: after) = some ([glued, [], [closeBrace]], after) := by
  have hclose : upToClose.split? ([] ++ closeBrace :: after) = some ([[], [closeBrace]], after) :=
    split?_upToClose (by simp)
  refine Pattern.split?_many_of_max hglued hclose ?_
  -- a longer run passes over the last closing brace
  intro m s heq hne _
  obtain ⟨c, m, rfl⟩ := List.exists_cons_of_ne_nil hne
  obtain ⟨-, rfl⟩ := List.cons.inj heq
  refine split?_upToClose_eq_none fun hmem => hafter (List.mem_append_right m hmem)

/-- How the text behind an opening brace falls into what is passed over, the body and what stands behind the
closing brace. -/
inductive TakesBody : List Char → List Char → List Char → List Char → Prop
  | behind {ink body after : List Char} (hink : ∀ c ∈ ink, isInk c)
      (hbreaks : Breaks (body ++ closeBrace :: after)) (hbody : closeBrace ∉ body) :
      TakesBody (ink ++ (body ++ closeBrace :: after)) ink body after
  | inside {ink more rest : List Char} (hink : ∀ c ∈ ink ++ closeBrace :: more, isInk c)
      (hbreaks : Breaks rest) (hmore : closeBrace ∉ more) (hrest : closeBrace ∉ rest) :
      TakesBody (ink ++ closeBrace :: more ++ rest) ink [] (more ++ rest)

theorem split?_of_takesBody (h : TakesBody cs glued body after) :
    bodyPattern.split? cs = some ([glued, body, [closeBrace]], after) := by
  cases h with
  | behind hink hbreaks hbody => exact split?_bodyPattern_behind hink hbreaks hbody
  | @inside _ more rest hink _ hmore hrest =>
      rw [List.append_assoc, List.cons_append]
      refine split?_bodyPattern_glued (fun c hc => hink c (List.mem_append_left _ hc)) ?_
      rw [List.mem_append, not_or]
      exact ⟨hmore, hrest⟩

theorem exists_takesBody (h : closeBrace ∈ cs) : ∃ glued body after, TakesBody cs glued body after := by
  have hink : ∀ c ∈ cs.takeWhile isInk, isInk c := List.all_eq_true.mp List.all_takeWhile
  have hbreaks : Breaks (cs.dropWhile isInk) := Text.breaks_dropWhile
  have hcs := List.takeWhile_append_dropWhile (p := isInk) (l := cs)
  rw [← hcs] at h ⊢
  generalize cs.takeWhile isInk = ink at *
  generalize cs.dropWhile isInk = rest at *
  by_cases hrest : closeBrace ∈ rest
  · obtain ⟨body, after, rfl, hbody⟩ := List.eq_append_cons_of_mem hrest
    exact ⟨ink, body, after, .behind hink hbreaks hbody⟩
  · -- the last closing brace of the ink is the first one from its end
    have hmem : closeBrace ∈ ink.reverse := List.mem_reverse.mpr ((List.mem_append.mp h).resolve_right hrest)
    obtain ⟨more, front, hreverse, hmore⟩ := List.eq_append_cons_of_mem hmem
    obtain rfl : ink = front.reverse ++ closeBrace :: more.reverse := by
      rw [← List.reverse_reverse ink, hreverse]
      simp
    exact ⟨_, _, _, .inside hink hbreaks (by simpa using hmore) hrest⟩

/-- **The body is taken in one of two ways.** -/
theorem split?_bodyPattern_iff :
    bodyPattern.split? cs = some ([glued, body, [closeBrace]], after) ↔ TakesBody cs glued body after := by
  constructor
  · intro h
    have hmem : closeBrace ∈ cs := by
      rw [Pattern.eq_flatten_append_of_split? h]
      simp
    obtain ⟨glued', body', after', htakes⟩ := exists_takesBody hmem
    have heq := (split?_of_takesBody htakes).symm.trans h
    simp only [Option.some.injEq, Prod.mk.injEq, List.cons.injEq, and_true] at heq
    obtain ⟨⟨rfl, rfl⟩, rfl⟩ := heq
    exact htakes
  · exact split?_of_takesBody

/-! ## The blocks -/

/-- A match is a head and a body. -/
theorem exists_append_of_split? {texts : List (List Char)}
    (h : enumerationPattern.split? cs = some (texts, after)) :
    ∃ gap name gap' glued body tail,
      texts = [keyword, gap, name, gap', [openBrace], glued, body, [closeBrace]] ∧
      cs = keyword ++ (gap ++ (name ++ (gap' ++ [openBrace]))) ++ tail ∧ IsGap gap ∧ IsWord name ∧
      IsGap gap' ∧ bodyPattern.split? tail = some ([glued, body, [closeBrace]], after) := by
  have hfits := Pattern.fits_of_split? h
  simp only [enumerationPattern, List.forall₂_cons_left_iff, List.forall₂_nil_left_iff,
    Piece.Fits] at hfits
  obtain ⟨_, _, rfl, ⟨gap, _, hgap, ⟨name, _, hname, ⟨gap', _, hgap', ⟨_, _, rfl, ⟨glued, _, -,
    ⟨body, _, -, ⟨_, _, rfl, rfl, rfl⟩, rfl⟩, rfl⟩, rfl⟩, rfl⟩, rfl⟩, rfl⟩, rfl⟩ := hfits
  rw [enumerationPattern_eq] at h
  obtain ⟨ts, us, tail, htexts, hlen, rfl, htail⟩ := Pattern.append_of_split?_append h
  obtain ⟨rfl, rfl⟩ : ts = [keyword, gap, name, gap', [openBrace]] ∧ us = [glued, body, [closeBrace]] :=
    List.append_inj htexts.symm hlen
  refine ⟨gap, name, gap', glued, body, tail, rfl, ?_, hgap, hname, hgap', htail⟩
  simp only [List.flatten_cons, List.flatten_nil, List.append_nil]

theorem exists_append_of_mem_enumerationBlocks {b : EnumerationBlock}
    (h : b ∈ enumerationBlocks text) :
    ∃ before gap gap' tail after, text = before ++ (b.head ++ tail) ∧ b.start = byteLength before ∧
      b.head = keyword ++ (gap ++ (b.name ++ (gap' ++ [openBrace]))) ∧ IsGap gap ∧ IsWord b.name ∧
      IsGap gap' ∧ bodyPattern.split? tail = some ([b.glued, b.body, [closeBrace]], after) := by
  obtain ⟨m, hm, hb⟩ := List.mem_filterMap.mp h
  obtain ⟨before, s, after, rfl, hstart, hs⟩ := Pattern.exists_of_mem_findAll hm
  obtain ⟨gap, name, gap', glued, body, tail, htexts, rfl, hgap, hname, hgap', htail⟩ :=
    exists_append_of_split? hs
  rw [EnumerationBlock.ofMatch?, htexts] at hb
  obtain rfl := Option.some.inj hb
  exact ⟨before, gap, gap', tail, after, rfl, by rw [hstart, Nat.zero_add], rfl, hgap, hname, hgap',
    htail⟩

end HalConstants.Header
