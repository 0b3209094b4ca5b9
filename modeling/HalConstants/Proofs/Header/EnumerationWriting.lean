import HalConstants.Proofs.Header.EnumerationScan

/-!
# Reading back written enumerations

`WritesEnumerations free es cs` says that `cs` writes the enumerations `es` one after the other in some
layout with a blank behind every opening brace; `free` is what must hold for the blanks around an `=` to be
left out. `enumerations_of_writesEnumerations` reads every such text back as the list it was made of.

The name of an entry is the longest run of ink behind which an `=` follows, so a name that touches its `=`
is cut right only if no later character of that run is an `=` again, and the next name does not start with
one (`StartsEquals`).
-/

namespace HalConstants.Header

open Text (isBlank isInk IsWord IsGap Breaks)

variable {cs gap g g' name value rest : List Char} {e : Entry} {es : List Entry} {free : Prop}

/-! ## Writing -/

/-- Every entry is a name, `=`, a value and a comma, with blanks in front of the first and behind each. -/
inductive WritesEntries (free : Prop) : List Entry → List Char → Prop
  | done {gap : List Char} (hgap : IsGap gap) : WritesEntries free [] gap
  | entry {e : Entry} {es : List Entry} {gap g g' rest : List Char} (hgap : IsGap gap)
      (hname : IsWord e.name.toList) (hvalue : IsWord e.value.toList)
      (hname' : closeBrace ∉ e.name.toList) (hvalue' : closeBrace ∉ e.value.toList)
      (hg : ∀ c ∈ g, isBlank c) (hg' : ∀ c ∈ g', isBlank c) (hfree : free ∨ g ≠ [] ∧ g' ≠ [])
      (h : WritesEntries free es rest) :
      WritesEntries free (e :: es) (gap ++ (e.name.toList ++ (g ++ (['='] ++ (g' ++
        (e.value.toList ++ [','] ++ rest))))))

/-- The enumerations one after the other, each closed by `;` and a line break. -/
inductive WritesEnumerations (free : Prop) : List Enumeration → List Char → Prop
  | done : WritesEnumerations free [] []
  | enumeration {e : Enumeration} {es : List Enumeration} {gap gap' body rest : List Char}
      (hgap : IsGap gap) (hname : IsWord e.name.toList) (hgap' : IsGap gap')
      (hbody : WritesEntries free e.entries body) (h : WritesEnumerations free es rest) :
      WritesEnumerations free (e :: es) (keyword ++ (gap ++ (e.name.toList ++ (gap' ++ ([openBrace] ++
        (body ++ closeBrace :: (";\n".toList ++ rest)))))))

/-- No name and no value holds an `=`. -/
def WithoutEquals (es : List Entry) : Prop :=
  ∀ e ∈ es, '=' ∉ e.name.toList ∧ '=' ∉ e.value.toList

/-! ## One entry -/

/-- The first character that is not blank is an `=`. -/
def StartsEquals (cs : List Char) : Prop := (cs.dropWhile isBlank).head? = some '='

theorem startsEquals_gap (hg : ∀ c ∈ g, isBlank c) : StartsEquals (g ++ cs) ↔ StartsEquals cs := by
  rw [StartsEquals, List.dropWhile_append_of_pos hg, StartsEquals]

theorem startsEquals_cons {c : Char} (hc : isInk c) : StartsEquals (c :: cs) ↔ c = '=' := by
  rw [StartsEquals, List.dropWhile_cons_of_neg]
  · simp
  · simp [Text.isInk_iff.mp hc]

theorem not_startsEquals_word (hname : IsWord name) (h : '=' ∉ name) :
    ¬ StartsEquals (name ++ cs) := by
  obtain ⟨c, name, rfl⟩ := List.exists_cons_of_ne_nil hname.1
  rw [List.cons_append, startsEquals_cons (hname.2 c (by simp))]
  rintro rfl
  simp at h

/-- What follows the name of an entry in its pattern. -/
def equalsPattern : Pattern :=
  [.many isBlank .longest, .text ['='], .many isBlank .longest, .some isInk .longest]

theorem split?_equalsPattern_eq_none (h : ¬ StartsEquals cs) : equalsPattern.split? cs = none := by
  apply Option.eq_none_iff_forall_ne_some.mpr
  rintro ⟨ts, after⟩ hsplit
  obtain ⟨r, rest, us, ⟨rfl, hr⟩, -, hrest, -⟩ := Pattern.begins_of_split?_many hsplit
  obtain ⟨rest, -, rfl, -⟩ := Pattern.prefix_of_split?_text hrest
  apply h
  rw [startsEquals_gap hr, List.singleton_append, startsEquals_cons (by decide)]

theorem split?_equalsPattern (hg : ∀ c ∈ g, isBlank c) (hg' : ∀ c ∈ g', isBlank c)
    (hvalue : IsWord value) (hrest : Breaks rest) :
    equalsPattern.split? (g ++ (['='] ++ (g' ++ (value ++ rest)))) =
      some ([g, ['='], g', value], rest) := by
  refine Pattern.split?_many_longest hg (by simp; decide) ?_
  refine Pattern.split?_text ?_
  refine Pattern.split?_many_longest hg' hvalue.head_append ?_
  exact Pattern.split?_some_longest hvalue.1 hvalue.2 hrest.head_ink rfl

/-- Behind an `=` that touches the name, no longer run of ink ends in front of another `=`. -/
theorem not_startsEquals_of_ink {m s : List Char} (hm : ∀ c ∈ m, isInk c)
    (hg' : ∀ c ∈ g', isBlank c) (hvalue : IsWord value) (hvalue' : '=' ∉ value)
    (hrest : Breaks rest) (hrest' : ¬ StartsEquals rest) (h : g' ++ (value ++ rest) = m ++ s) :
    ¬ StartsEquals s := by
  cases m with
  | nil =>
      obtain rfl : g' ++ (value ++ rest) = s := h
      rw [startsEquals_gap hg']
      exact not_startsEquals_word hvalue hvalue'
  | cons c m =>
      cases g' with
      | cons d g' =>
          -- the run would start with a blank
          obtain ⟨rfl, -⟩ := List.cons.inj h
          exact absurd (hg' d (by simp)) (Text.not_isBlank_of_isInk (hm d (by simp)))
      | nil =>
          rw [List.nil_append] at h
          rcases List.append_eq_append_iff.mp h with ⟨t, ht, rfl⟩ | ⟨t, ht, rfl⟩
          · cases t with
            | nil => simpa using hrest'
            | cons d t =>
                have hd := hm d (by simp [ht])
                exact absurd (Text.breaks_cons.mp hrest) (Text.not_isBlank_of_isInk hd)
          · cases t with
            | nil => simpa using hrest'
            | cons d t =>
                rw [List.cons_append, startsEquals_cons (hvalue.2 d (by simp [ht]))]
                rintro rfl
                simp [ht] at hvalue'

/-- **An entry is read in the parts it is written in.** -/
theorem split?_entryPattern (hname : IsWord name) (hg : ∀ c ∈ g, isBlank c)
    (hg' : ∀ c ∈ g', isBlank c) (hvalue : IsWord value) (hrest : Breaks rest)
    (h : g ≠ [] ∨ '=' ∉ value ∧ ¬ StartsEquals rest) :
    entryPattern.split? (name ++ (g ++ (['='] ++ (g' ++ (value ++ rest))))) =
      some ([name, g, ['='], g', value], rest) := by
  refine Pattern.split?_some_of_max hname.1 hname.2 (split?_equalsPattern hg hg' hvalue hrest) ?_
  intro m s heq hne hm
  obtain ⟨c, m, rfl⟩ := List.exists_cons_of_ne_nil hne
  refine split?_equalsPattern_eq_none ?_
  cases g with
  | cons d g =>
      -- the run would start with a blank
      obtain ⟨rfl, -⟩ := List.cons.inj heq
      exact absurd (hg d (by simp)) (Text.not_isBlank_of_isInk (hm d (by simp)))
  | nil =>
      obtain ⟨hvalue', hrest'⟩ := h.resolve_left (by simp)
      obtain ⟨-, heq⟩ := List.cons.inj heq
      exact not_startsEquals_of_ink (fun c hc => hm c (.tail _ hc)) hg' hvalue hvalue' hrest hrest' heq

/-! ## The entries of one enumeration -/

theorem WritesEntries.breaks_append (h : WritesEntries free es cs) (rest : List Char) :
    Breaks (cs ++ rest) := by
  cases h with
  | done hgap => exact hgap.breaks_append
  | entry hgap =>
      rw [List.append_assoc]
      exact hgap.breaks_append

theorem WritesEntries.breaks (h : WritesEntries free es cs) : Breaks cs := by
  rw [← List.append_nil cs]
  exact h.breaks_append []

theorem WritesEntries.not_startsEquals (h : WritesEntries free es cs) (hes : WithoutEquals es) :
    ¬ StartsEquals cs := by
  cases h with
  | done hgap =>
      rw [← List.append_nil cs, startsEquals_gap hgap.2]
      simp [StartsEquals]
  | entry hgap hname =>
      rw [startsEquals_gap hgap.2]
      exact not_startsEquals_word hname (hes _ (.head _)).1

theorem closeBrace_notMem_blank (hgap : ∀ c ∈ gap, isBlank c) : closeBrace ∉ gap := by
  intro hmem
  exact absurd (hgap _ hmem) (by decide)

theorem WritesEntries.closeBrace_notMem (h : WritesEntries free es cs) : closeBrace ∉ cs := by
  induction h with
  | done hgap => exact closeBrace_notMem_blank hgap.2
  | entry hgap hname hvalue hname' hvalue' hg hg' hfree h ih =>
      simp only [List.mem_append, List.mem_singleton, not_or]
      refine ⟨closeBrace_notMem_blank hgap.2, hname', closeBrace_notMem_blank hg, by decide,
        closeBrace_notMem_blank hg', ⟨hvalue', by decide⟩, ih⟩

theorem stripComma_comma (v : List Char) : stripComma (v ++ [',']) = v := by
  simp [stripComma]

theorem isWord_comma {v : List Char} (hv : IsWord v) : IsWord (v ++ [',']) :=
  hv.append (by decide)

/-- The scan meets the entries one by one. -/
theorem entries_of_writesEntries (pos : Nat) (h : WritesEntries free es cs)
    (hes : free → WithoutEquals es) : (entryPattern.findAll pos cs).filterMap entry? = es := by
  induction h generalizing pos with
  | done hgap =>
      rw [Pattern.findAll_of_avoids consumes_entryPattern avoids_entryPattern hgap.2]
      rfl
  | @entry e es gap g g' rest hgap hname hvalue hname' hvalue' hg hg' hfree h ih =>
      have hes' : free → WithoutEquals es := fun hf x hx => hes hf x (.tail e hx)
      -- a blank ends the name, or no later `=` can prolong it
      have hcut : g ≠ [] ∨ '=' ∉ e.value.toList ++ [','] ∧ ¬ StartsEquals rest := by
        rcases hfree with hf | ⟨hne, -⟩
        · right
          have hvalue := (hes hf e (.head es)).2
          exact ⟨by simpa using hvalue, h.not_startsEquals (hes' hf)⟩
        · exact .inl hne
      have hsplit := split?_entryPattern hname hg hg' (isWord_comma hvalue) h.breaks hcut
      have hscan : entryPattern.findAll pos (gap ++ _) = _ :=
        Pattern.findAll_append_of_avoids consumes_entryPattern avoids_entryPattern hgap.2 hsplit
      rw [hscan, List.filterMap_cons, entry?]
      simp only [stripComma_comma, String.ofList_toList, ih _ hes']

/-! ## The enumerations -/

/-- The scan meets the enumerations one by one, each behind the end of the one in front. -/
theorem findAll_of_writesEnumerations {es : List Enumeration} {front : List Char} (pos : Nat)
    (hfront : ∀ c ∈ front, c ≠ 'e') (h : WritesEnumerations free es cs)
    (hes : free → ∀ e ∈ es, WithoutEquals e.entries) :
    (enumerationPattern.findAll pos (front ++ cs)).filterMap enumeration? = es := by
  induction h generalizing pos front with
  | done =>
      rw [List.append_nil,
        Pattern.findAll_of_avoids consumes_enumerationPattern avoids_enumerationPattern hfront]
      rfl
  | @enumeration e es gap gap' body rest hgap hname hgap' hbody h ih =>
      have hnil : ∀ c ∈ [], isInk c := by simp
      have hline : ∀ c ∈ ";\n".toList, c ≠ 'e' := by simp
      have hread := split?_bodyPattern_behind hnil
        (hbody.breaks_append (closeBrace :: (";\n".toList ++ rest))) hbody.closeBrace_notMem
      have hsplit := split?_enumerationPattern hgap hname hgap' hread
      have hscan : enumerationPattern.findAll pos (front ++ _) = _ :=
        Pattern.findAll_append_of_avoids consumes_enumerationPattern avoids_enumerationPattern
          hfront hsplit
      have hentries : entries body = e.entries :=
        entries_of_writesEntries 0 hbody fun hf => hes hf e (.head es)
      -- the scan goes on at the `;`, which no enumeration starts with
      rw [List.nil_append] at hscan
      rw [hscan, List.filterMap_cons, enumeration?]
      simp only [String.ofList_toList, hentries]
      rw [ih _ hline fun hf x hx => hes hf x (.tail e hx)]

/-- **Extraction undoes writing.** The blanks around an `=` may be left out where no name and no value of
the whole list holds one. -/
theorem enumerations_of_writesEnumerations {text : String} {es : List Enumeration}
    (h : WritesEnumerations (∀ e ∈ es, WithoutEquals e.entries) es text.toList) :
    enumerations text = es := by
  have hfront : ∀ c ∈ ([] : List Char), c ≠ 'e' := by simp
  exact findAll_of_writesEnumerations 0 hfront h id

/-- Names that are the keyword or a brace, an entry that is written twice and a value that ends in a comma
are read back too. -/
theorem enumerations_of_writesEnumerations_marks :
    enumerations "enum enum \x7b\n\x7b=1,,\n\x7b =1,,\n\x7d;\nenum \x7d \x7b \x7d;\n" =
      [⟨"enum", [⟨"\x7b", "1,"⟩, ⟨"\x7b", "1,"⟩]⟩, ⟨"\x7d", []⟩] := by
  refine enumerations_of_writesEnumerations ?_
  have hfree : ∀ e ∈ [Enumeration.mk "enum" [⟨"\x7b", "1,"⟩, ⟨"\x7b", "1,"⟩], ⟨"\x7d", []⟩],
      WithoutEquals e.entries := by
    simp only [WithoutEquals]
    decide
  have hspace : IsGap [' '] := by decide
  have hline : IsGap ['\n'] := by decide
  have hnone : ∀ c ∈ [], isBlank c := by simp
  have hentries := WritesEntries.done hline
    |>.entry (e := ⟨"\x7b", "1,"⟩) hline (by decide) (by decide) (by decide) (by decide) hspace.2
      hnone (.inl hfree)
    |>.entry (e := ⟨"\x7b", "1,"⟩) hline (by decide) (by decide) (by decide) (by decide) hnone
      hnone (.inl hfree)
  have htext := WritesEnumerations.done
    |>.enumeration (e := ⟨"\x7d", []⟩) hspace (by decide) hspace (.done hspace)
    |>.enumeration (e := ⟨"enum", _⟩) hspace (by decide) hspace hentries
  exact Eq.mp (congrArg (WritesEnumerations _ _) (by decide +kernel)) htext

end HalConstants.Header
