import HalConstants.Proofs.Header.Annotations
import HalConstants.Proofs.Header.PropertyScan
import HalConstants.Proofs.Traversal

/-!
# Reading back written properties

`WritesHeader stem ps cs` says that the header `cs` writes the properties `ps` in some layout: each property
as a documentation comment that states its facts and the define of its value, with any filler that opens
no documentation comment around them. `properties_of_writesHeader` reads every such header back as the
list it was made of.

The words of a comment may be anything, keys and comment marks included, so the argument is about words:
a comment closes early only if one word ends in `*/` and the next starts with `#define`, and the word in
front of a value is its key (`Spells.not_adjacent`).
-/

namespace HalConstants.Header

open Text (Word IsWord IsGap Laid Breaks wordsFrom)

/-! ## Writing -/

/-- What a comment states: a key, and the value behind it if the key takes one. -/
abbrev Fact : Type := AnnotationKey × Option String

/-- What a property states under a key, its range marker being written as the key `mark`. -/
def stated? (p : Property) (mark : AnnotationKey) : AnnotationKey → Option (Option String)
  | .valueType => p.valueType.map some
  | .changeMode => p.changeMode.map some
  | .access => p.access.map some
  | .unit => p.unit.map some
  | k => if p.isRangeMarker && k == mark then some none else none

/-- Exactly the facts that are set. -/
def facts (p : Property) (mark : AnnotationKey) : List Fact :=
  AnnotationKey.all.filterMap fun k => (stated? p mark k).map (k, ·)

/-- The words of a comment that states some facts in their order, with lone stars in front of keys. -/
inductive Spells : List Fact → List (List Char) → Prop
  | done : Spells [] []
  | star {fs : List Fact} {ws : List (List Char)} (h : Spells fs ws) : Spells fs (['*'] :: ws)
  | mark {k : AnnotationKey} {fs : List Fact} {ws : List (List Char)} (hk : k.takesValue = false)
      (h : Spells fs ws) : Spells ((k, none) :: fs) (k.token.toList :: ws)
  | valued {k : AnnotationKey} {v : String} {fs : List Fact} {ws : List (List Char)}
      (hk : k.takesValue = true) (h : Spells fs ws) :
      Spells ((k, some v) :: fs) (k.token.toList :: v.toList :: ws)

/-- A documentation comment with the facts of the property in some order and layout, and on the next line
the define of its value in parentheses. -/
inductive WritesProperty (stem : List Char) (p : Property) : List Char → Prop
  | intro {mark : AnnotationKey} {fs : List Fact} {ws : List (List Char)}
      {comment suffix gap : List Char} (hmark : mark.takesValue = false)
      (hfs : fs.Perm (facts p mark)) (hws : Spells fs ws) (hcomment : Laid ws comment)
      (hname : p.name.toList = stem ++ suffix) (hsuffix : IsWord suffix) (hgap : IsGap gap)
      (hvalue : IsWord p.value.toList) :
      WritesProperty stem p (opening ++ (comment ++ (closing ++ ([' '] ++ (p.name.toList ++
        (gap ++ ('(' :: p.value.toList ++ [')'] ++ ['\n'])))))))

/-- The properties one after the other, with filler around them that opens no comment. -/
inductive WritesHeader (stem : List Char) : List Property → List Char → Prop
  | filler {cs : List Char} (h : ¬ opening <:+: cs) : WritesHeader stem [] cs
  | block {p : Property} {ps : List Property} {front block rest : List Char}
      (hfront : ¬ opening <:+: front) (hblock : WritesProperty stem p block)
      (h : WritesHeader stem ps rest) : WritesHeader stem (p :: ps) (front ++ (block ++ rest))

variable {stem cs comment : List Char} {p : Property} {ps : List Property} {mark : AnnotationKey}
  {fs : List Fact} {ws : List (List Char)} {pos : Nat}

theorem not_opening_infix_newline (h : ¬ opening <:+: cs) : ¬ opening <:+: '\n' :: cs := by
  rw [List.infix_cons_iff]
  rintro (hpre | hin)
  · simp [opening, List.cons_prefix_cons] at hpre
  · exact h hin

/-- The line break behind a block counts as filler. -/
theorem WritesHeader.newline (h : WritesHeader stem ps cs) : WritesHeader stem ps ('\n' :: cs) := by
  cases h with
  | filler h => exact .filler (not_opening_infix_newline h)
  | block hfront hblock h =>
      rw [← List.cons_append]
      exact .block (not_opening_infix_newline hfront) hblock h

/-! ## The comment ends where it was closed -/

theorem not_suffix_token (k : AnnotationKey) : ¬ "*/".toList <:+ k.token.toList := by
  cases k <;> decide

theorem not_prefix_token (k : AnnotationKey) : ¬ "#define".toList <+: k.token.toList := by
  cases k <;> decide

theorem Spells.not_prefix_head {v : List Char} (h : Spells fs (v :: ws)) :
    ¬ "#define".toList <+: v := by
  cases h with
  | star _ => decide
  | mark _ _ => exact not_prefix_token _
  | valued _ _ => exact not_prefix_token _

/-- No word that ends in `*/` stands in front of a word that starts with `#define`: the word in front of a
value is its key, and no other word starts with `#define`. -/
theorem Spells.not_adjacent (h : Spells fs ws) {init more : List (List Char)} {u v : List Char}
    (hws : ws = init ++ u :: v :: more) : ¬ ("*/".toList <:+ u ∧ "#define".toList <+: v) := by
  induction h generalizing init with
  | done => simp at hws
  | star h ih =>
      cases init with
      | nil =>
          obtain ⟨rfl, rfl⟩ := List.cons.inj hws
          rintro ⟨hu, -⟩
          revert hu
          decide
      | cons x init => exact ih (List.cons.inj hws).2
  | mark hk h ih =>
      cases init with
      | nil =>
          obtain ⟨rfl, rfl⟩ := List.cons.inj hws
          rintro ⟨hu, -⟩
          exact not_suffix_token _ hu
      | cons x init => exact ih (List.cons.inj hws).2
  | valued hk h ih =>
      rcases init with _ | ⟨x, _ | ⟨y, init⟩⟩
      · obtain ⟨rfl, -⟩ := List.cons.inj hws
        rintro ⟨hu, -⟩
        exact not_suffix_token _ hu
      · obtain ⟨-, hws⟩ := List.cons.inj hws
        obtain ⟨-, rfl⟩ := List.cons.inj hws
        rintro ⟨-, hv⟩
        exact h.not_prefix_head hv
      · exact ih (List.cons.inj (List.cons.inj hws).2).2

theorem Spells.not_closing_infix (h : Spells fs ws) (hcomment : Laid ws comment) :
    ¬ closing <:+: comment := by
  rintro ⟨a, b, rfl⟩
  have hsplit : a ++ closing ++ b = (a ++ "*/".toList) ++ ('\n' :: ("#define".toList ++ b)) := by
    rw [show closing = "*/".toList ++ ('\n' :: "#define".toList) from by decide]
    simp
  -- the text in front of the line break ends in `*/`, and the text behind it starts with `#define`
  have hmark : IsWord "*/".toList := by decide
  have hdefine : IsWord "#define".toList := by decide
  have hbreak : Breaks ('\n' :: ("#define".toList ++ b)) := Text.breaks_cons.mpr (by decide)
  obtain ⟨init, last, hfront, hlast⟩ := Text.wordsFrom_append_ink (a := a) 0 hmark
  have hws := hcomment.map_text 0
  rw [hsplit, Text.wordsFrom_append hbreak, Text.wordsFrom_blank (by decide), hfront] at hws
  obtain ⟨first, more, hback, hfirst⟩ := Text.wordsFrom_ink_append _ b hdefine
  rw [hback] at hws
  have hadjacent : ws = init.map Word.text ++ last.text :: first.text :: more.map Word.text := by
    rw [← hws]
    simp
  exact h.not_adjacent hadjacent ⟨hlast, hfirst⟩

/-! ## The facts are read back -/

/-- What a fact does to a property. -/
def state (p : Property) (f : Fact) : Property := p.annotate f.1 f.2

theorem annotate_of_spells {words : List Word} (h : Spells fs (words.map Word.text)) :
    annotate p words = .ok (fs.foldl state p) := by
  generalize htexts : words.map Word.text = texts at h
  induction h generalizing words p with
  | done =>
      obtain rfl := List.map_eq_nil_iff.mp htexts
      rfl
  | star h ih =>
      obtain ⟨w, words, rfl, hw, htexts⟩ := List.map_eq_cons_iff.mp htexts
      have hkey : keyOf? w = none := by
        rw [keyOf?, hw]
        decide
      rw [annotate_other hkey, ih htexts]
  | mark hk h ih =>
      obtain ⟨w, words, rfl, hw, htexts⟩ := List.map_eq_cons_iff.mp htexts
      rw [annotate_mark (keyOf?_of_text hw) hk, ih htexts]
      rfl
  | valued hk h ih =>
      obtain ⟨w, words, rfl, hw, htexts⟩ := List.map_eq_cons_iff.mp htexts
      obtain ⟨v, words, rfl, hv, htexts⟩ := List.map_eq_cons_iff.mp htexts
      rw [annotate_valued (keyOf?_of_text hw) hk, hv, String.ofList_toList, ih htexts]
      rfl

/-- A property states at most one fact under a key. -/
theorem stated?_of_mem_facts {f : Fact} (h : f ∈ facts p mark) : stated? p mark f.1 = some f.2 := by
  obtain ⟨k, -, hk⟩ := List.mem_filterMap.mp h
  obtain ⟨x, hx, rfl⟩ := Option.map_eq_some_iff.mp hk
  exact hx

/-- The order in which the facts of a property are stated does not matter. -/
theorem foldl_state_of_perm {q : Property} (h : fs.Perm (facts p mark)) :
    fs.foldl state q = (facts p mark).foldl state q := by
  refine (h.symm.foldl_eq' ?_ q).symm
  -- two facts under one key are the same fact
  intro f hf g hg r
  by_cases hkey : f.1 = g.1
  · have hf := stated?_of_mem_facts hf
    have hg := stated?_of_mem_facts hg
    rw [hkey, hg] at hf
    have heq : f = g := Prod.ext hkey (Option.some.inj hf).symm
    rw [heq]
  · exact annotate_comm hkey

/-- A property is its name, its value and its facts. -/
theorem foldl_state_facts (hmark : mark.takesValue = false) :
    (facts p mark).foldl state ⟨p.name, p.value, none, none, none, none, false⟩ = p := by
  obtain ⟨name, value, valueType, changeMode, access, unit, isRangeMarker⟩ := p
  cases mark with
  | rangeStart | rangeEnd =>
      cases valueType <;> cases changeMode <;> cases access <;> cases unit <;>
        cases isRangeMarker <;> rfl
  | _ => contradiction

theorem stripParens_parens (v : List Char) : stripParens ('(' :: v ++ [')']) = v := by
  simp [stripParens]

theorem isWord_parens {v : List Char} (hv : IsWord v) : IsWord ('(' :: v ++ [')']) := by
  refine ⟨by simp, ?_⟩
  intro c hc
  rw [List.cons_append, List.mem_cons, List.mem_append, List.mem_singleton] at hc
  rcases hc with rfl | hc | rfl
  · decide
  · exact hv.2 c hc
  · decide

/-! ## The header is read back -/

/-- The block is read as the property, wherever it stands. -/
def PropertyBlock.IsRead (stem : List Char) (b : PropertyBlock) (p : Property) : Prop :=
  ∀ sources, b.read stem sources = .ok p

theorem isRead_of_spells {start : Nat} {suffix : List Char} (hmark : mark.takesValue = false)
    (hfs : fs.Perm (facts p mark)) (hws : Spells fs ws) (hcomment : Laid ws comment)
    (hname : p.name.toList = stem ++ suffix) :
    PropertyBlock.IsRead stem ⟨start, comment, suffix, '(' :: p.value.toList ++ [')']⟩ p := by
  intro sources
  rw [← hcomment.map_text start] at hws
  have hproperty : PropertyBlock.property ⟨start, comment, suffix, '(' :: p.value.toList ++ [')']⟩
      stem = ⟨p.name, p.value, none, none, none, none, false⟩ := by
    rw [PropertyBlock.property, stripParens_parens, ← hname, String.ofList_toList,
      String.ofList_toList]
  rw [PropertyBlock.read, hproperty, annotate_of_spells hws, foldl_state_of_perm hfs,
    foldl_state_facts hmark]
  rfl

/-- The scan meets the blocks one by one and reads each as its property. -/
theorem forall₂_isRead_of_writesHeader (pos : Nat) (hstem : IsWord stem) (h : WritesHeader stem ps cs) :
    List.Forall₂ (PropertyBlock.IsRead stem)
      (((propertyPattern stem).findAll pos cs).filterMap PropertyBlock.ofMatch?) ps := by
  induction ps generalizing cs pos with
  | nil =>
      cases h with
      | filler h =>
          have hnone : (propertyPattern stem).find? cs = none :=
            Pattern.find?_eq_none_iff.mpr fun r s hrs =>
              split?_propertyPattern_eq_none (Text.not_prefix_of_not_infix h hrs)
          rw [Pattern.findAll_of_find?_eq_none hnone]
          exact .nil
  | cons p ps ih =>
      cases h with
      | @block _ _ front _ rest hfront hblock h =>
          obtain ⟨hmark, hfs, hws, hcomment, hname, hsuffix, hgap, hvalue⟩ := hblock
          have hspace : IsGap [' '] := by decide
          have hbreak : Breaks ('\n' :: rest) := Text.breaks_cons.mpr (by decide)
          have hsplit := split?_propertyPattern hstem (hws.not_closing_infix hcomment) hspace
            hsuffix hgap (isWord_parens hvalue) hbreak
          have hscan : (propertyPattern stem).findAll pos (front ++ _) = _ :=
            Pattern.findAll_append consumes_propertyPattern hsplit
              fun r s hrs hs => split?_propertyPattern_front hfront hrs hs _
          -- the scan goes on at the line break, which is filler of the rest
          simp only [hname, List.append_assoc, List.cons_append, List.nil_append] at hscan ⊢
          rw [hscan]
          exact .cons (isRead_of_spells hmark hfs hws hcomment hname) (ih _ h.newline)

/-- **Extraction undoes writing.** -/
theorem properties_of_writesHeader {stem : String} {sources : Sources} {ps : List Property}
    (hstem : isStem stem.toList) (h : WritesHeader stem.toList ps sources.text.toList) :
    properties stem sources = .ok ps := by
  have hread := forall₂_isRead_of_writesHeader 0 (isWord_of_isStem hstem) h
  exact mapM_eq_ok_iff.mpr (hread.imp fun b p hb => hb sources)

/-- A value that is a key, words that look like comment marks and an empty comment are read back too. -/
theorem properties_of_writesHeader_marks :
    properties "P_" ⟨[⟨"vehicle.h", "*/\n/** * @range_end\n@unit @access*/\n#define P_/** (*/)\n" ++
      "//\n/***/\n#define P_#define  ((@unit))\n#define P_B 1\n"⟩]⟩ =
      .ok [⟨"P_/**", "*/", none, none, none, some "@access", true⟩,
        ⟨"P_#define", "(@unit)", none, none, none, none, false⟩] := by
  refine properties_of_writesHeader (by decide) ?_
  have hspace : IsGap [' '] := by decide
  have hcomment : Laid ["*".toList, "@range_end".toList, "@unit".toList, "@access".toList]
      ([' '] ++ ("*".toList ++ ([' '] ++ ("@range_end".toList ++ (['\n'] ++ ("@unit".toList ++
        ([' '] ++ ("@access".toList ++ [])))))))) := by
    have hnewline : IsGap ['\n'] := by decide
    refine .word hspace.2 (by decide) (Text.breaks_cons.mpr (by decide)) ?_
    refine .word hspace.2 (by decide) (Text.breaks_cons.mpr (by decide)) ?_
    refine .word hnewline.2 (by decide) (Text.breaks_cons.mpr (by decide)) ?_
    refine .word hspace.2 (by decide) Text.breaks_nil ?_
    exact .blanks (by simp)
  have hspells : Spells [(.rangeEnd, none), (.unit, some "@access")]
      ["*".toList, "@range_end".toList, "@unit".toList, "@access".toList] :=
    .star (.mark rfl (.valued rfl .done))
  have hfacts : [(AnnotationKey.rangeEnd, none), (.unit, some "@access")].Perm
      (facts ⟨"P_/**", "*/", none, none, none, some "@access", true⟩ .rangeEnd) := by decide
  have hname : "P_/**".toList = "P_".toList ++ "/**".toList := by decide
  have hfirst := WritesProperty.intro rfl hfacts hspells hcomment hname
    (by decide) hspace (by decide)
  have hnofacts : [].Perm
      (facts ⟨"P_#define", "(@unit)", none, none, none, none, false⟩ .rangeEnd) := by decide
  have hempty : Laid [] [] := .blanks (by simp)
  have hname' : "P_#define".toList = "P_".toList ++ "#define".toList := by decide
  have hgap : IsGap [' ', ' '] := by decide
  have hsecond := WritesProperty.intro rfl hnofacts .done hempty hname'
    (by decide) hgap (by decide)
  have hrest : WritesHeader "P_".toList [] "#define P_B 1\n".toList := .filler (by decide +kernel)
  have hfront : ¬ opening <:+: "*/\n".toList := by decide +kernel
  have hbetween : ¬ opening <:+: "//\n".toList := by decide +kernel
  have hheader := hrest.block hbetween hsecond |>.block hfront hfirst
  exact Eq.mp (congrArg (WritesHeader "P_".toList _) (by decide +kernel)) hheader

end HalConstants.Header
