import HalConstants.Proofs.Header.KeySpan
import HalConstants.Proofs.Header.LinearScan

/-!
# Files that are joined

The files are scanned as one text, so a block of one file may grow into the next, and an opening without an
end may hide what follows. `SelfContained` says that a text leaves no room for this: it ends in a blank, and
behind its last match nothing opens a comment. Then the scan of the joined text is the scan of the text and,
moved by its bytes, the scan of what follows (`Scans.append`): no later text closes a comment earlier, since
the define that would run over the end of the text would hold a second end of a comment
(`closes_of_append`). `properties_append` draws the conclusion for the properties of files and their faults.
-/

namespace HalConstants.Header

open Text (byteLength isBlank isInk Word IsWord IsGap Breaks wordsFrom CutsFirst)

variable {stem cs r s z front rest : List Char} {pos n : Nat} {sites sites' : List Site}

/-- The text is empty or ends in a blank. -/
def EndsBlank (cs : List Char) : Prop := ∀ c ∈ cs.getLast?, isBlank c

/-- The byte behind the last match in a text whose first character stands at byte `pos`, or `pos`. -/
def lastStop (stem : List Char) (pos : Nat) (cs : List Char) : Nat :=
  (((propertyPattern stem).findAll pos cs).map fun m => m.start + m.size).getLast?.getD pos

/-- Nothing that follows can change what is found in the text. -/
structure SelfContained (stem text : List Char) : Prop where
  endsBlank : EndsBlank text
  closed : ∃ front rest, text = front ++ rest ∧ byteLength front = lastStop stem 0 text ∧
    ¬ opening <:+: rest

/-! ## Texts that end in a blank -/

theorem EndsBlank.of_append (h : EndsBlank (r ++ s)) : EndsBlank s := by
  intro c hc
  refine h c ?_
  rw [List.getLast?_append, hc]
  rfl

theorem EndsBlank.not_isWord (h : EndsBlank s) : ¬ IsWord s := by
  intro hs
  have hlast := h (s.getLast hs.1) (List.getLast?_eq_some_getLast hs.1)
  exact Text.not_isBlank_of_isInk (hs.2 _ (List.getLast_mem hs.1)) hlast

/-- A marker of ink does not run over a blank. -/
theorem prefix_of_endsBlank {w : List Char} (hw : IsWord w) (hs : EndsBlank s) (hne : s ≠ [])
    (h : w <+: s ++ z) : w <+: s := by
  rcases List.prefix_or_prefix_of_prefix h (List.prefix_append s z) with hpre | ⟨t, rfl⟩
  · exact hpre
  · exact absurd ⟨hne, fun c hc => hw.2 c (List.mem_append_left t hc)⟩ hs.not_isWord

/-- A text that ends in a blank ends in front of any word. -/
theorem prefix_front_of_endsBlank {w u : List Char} (hw : IsWord w) (hs : EndsBlank s)
    (h : s ++ u = front ++ w) : s <+: front := by
  rcases List.append_eq_append_iff.mp h with ⟨v, rfl, -⟩ | ⟨v, rfl, rfl⟩
  · exact List.prefix_append s v
  · cases v with
    | nil => exact ⟨[], by simp⟩
    | cons c v =>
        refine absurd ⟨by simp, ?_⟩ hs.of_append.not_isWord
        exact fun d hd => hw.2 d (List.mem_append_left u hd)

/-! ## No later text closes a comment earlier -/

/-- What stands in front of the value of a define holds no end of a comment but its own. -/
theorem not_sublist_define {gap word gap' : List Char} (hgap : IsGap gap) (hword : IsWord word)
    (hgap' : IsGap gap') :
    ¬ ['*', '\n', '#'].Sublist ("/\n#define".toList ++ (gap ++ (word ++ gap'))) := by
  intro h
  obtain ⟨l, l', heq, hl, hl'⟩ := List.sublist_append_iff.mp h
  cases l with
  | nil =>
      obtain rfl : ['*', '\n', '#'] = l' := heq
      exact Text.not_sublist_word hgap.2 hword.2 hgap'.2 (by decide) (by decide) (by decide) hl'
  | cons c l =>
      obtain ⟨rfl, -⟩ := List.cons.inj heq
      exact absurd (hl.mem List.mem_cons_self) (by decide)

/-- A define that another end of a comment stands in does not run on behind a blank that follows both. -/
theorem not_append_define {suffix value define u : List Char} (hstem : IsWord stem)
    (hdefine : Defines stem suffix value define) (hr : r ≠ []) (hs : EndsBlank (r ++ (closing ++ s))) :
    closing ++ define ≠ r ++ (closing ++ s) ++ u := by
  intro h
  cases hdefine with
  | @intro gap gap' hgap hsuffix hgap' hvalue =>
      have hcut : r ++ (closing ++ s) ++ u =
          closing ++ (gap ++ ((stem ++ suffix) ++ gap')) ++ value := by
        rw [← h]
        simp only [List.append_assoc]
      have hfront := prefix_front_of_endsBlank hvalue hs hcut
      obtain ⟨c, r, rfl⟩ := List.exists_cons_of_ne_nil hr
      have hbehind : r ++ (closing ++ s) <+:
          "/\n#define".toList ++ (gap ++ ((stem ++ suffix) ++ gap')) :=
        (List.cons_prefix_cons.mp hfront).2
      have hmarks : ['*', '\n', '#'].Sublist closing := by decide
      refine not_sublist_define hgap (hstem.append hsuffix) hgap' ?_
      exact (hmarks.trans (List.infix_append' r closing s).sublist).trans hbehind.sublist

/-- **No later text closes a comment** in front of another end of a comment, if a blank is in between. -/
theorem closes_of_append (hstem : IsWord stem) (hr : r ≠ []) (hs : EndsBlank (r ++ (closing ++ s)))
    (h : Closes stem (r ++ (closing ++ s) ++ z)) : Closes stem (r ++ (closing ++ s)) := by
  obtain ⟨suffix, value, define, after, heq, hdefine, hafter⟩ := h
  rw [← List.append_assoc closing] at heq
  rcases List.append_eq_append_iff.mp heq with ⟨u, hhead, -⟩ | ⟨u, htext, rfl⟩
  · exact absurd hhead (not_append_define hstem hdefine hr hs)
  · exact ⟨suffix, value, define, u, by rw [htext, List.append_assoc], hdefine, hafter.of_append⟩

/-! ## The joined scan -/

/-- Behind a text without an opening, every opening stands in what follows. -/
theorem exists_append_of_opening (hcs : ¬ opening <:+: cs) (hblank : EndsBlank cs)
    (h : cs ++ z = r ++ s) (hs : opening <+: s) : ∃ m, r = cs ++ m ∧ z = m ++ s := by
  rcases List.append_eq_append_iff.mp h with hbehind | ⟨m, rfl, rfl⟩
  · exact hbehind
  · by_cases hm : m = []
    · exact ⟨[], by simp [hm], by simp [hm]⟩
    · have hpre := prefix_of_endsBlank isWord_opening hblank.of_append hm hs
      exact absurd (hpre.isInfix.trans (List.suffix_append r m).isInfix) hcs

theorem cutsFirst_behind (hcs : ¬ opening <:+: cs) (hblank : EndsBlank cs)
    (h : CutsFirst (opening <+: ·) z front s) : CutsFirst (opening <+: ·) (cs ++ z) (cs ++ front) s := by
  obtain ⟨rfl, hs, hmin⟩ := h
  refine ⟨(List.append_assoc cs front s).symm, hs, ?_⟩
  intro r' s' heq hlt hs'
  obtain ⟨m, rfl, hz⟩ := exists_append_of_opening hcs hblank heq hs'
  refine hmin m s' hz ?_ hs'
  simpa using hlt

/-- A text without an opening is passed over. -/
theorem Scans.behind (hcs : ¬ opening <:+: cs) (hblank : EndsBlank cs)
    (h : Scans stem (pos + byteLength cs) z sites) : Scans stem pos (cs ++ z) sites := by
  cases h with
  | unopened h =>
      refine .unopened ?_
      rintro ⟨x, y, hxy⟩
      rw [List.append_assoc] at hxy
      obtain ⟨m, -, rfl⟩ := exists_append_of_opening hcs hblank hxy.symm (List.prefix_append opening y)
      exact h ⟨m, y, List.append_assoc m opening y⟩
  | unclosed hopen h => exact .unclosed (cutsFirst_behind hcs hblank hopen) h
  | block hopen hclose hdefine hafter h =>
      simp only [Nat.add_assoc, ← Text.byteLength_append, ← List.append_assoc cs] at h ⊢
      exact .block (cutsFirst_behind hcs hblank hopen) hclose hdefine hafter h

theorem lastStop_of_nil (h : (propertyPattern stem).findAll pos cs = []) :
    lastStop stem pos cs = pos := by
  rw [lastStop, h]
  rfl

theorem lastStop_of_cons {m : Pattern.Match} {after : List Char}
    (h : (propertyPattern stem).findAll pos cs = m :: (propertyPattern stem).findAll n after)
    (hn : m.start + m.size = n) : lastStop stem pos cs = lastStop stem n after := by
  rw [lastStop, h, List.map_cons, List.getLast?_cons, Option.getD_some, hn, lastStop]

theorem le_lastStop : pos ≤ lastStop stem pos cs := by
  rw [lastStop, List.getLast?_map]
  cases h : ((propertyPattern stem).findAll pos cs).getLast? with
  | none => exact Nat.le_refl pos
  | some m =>
      have hstart := Pattern.pos_le_start_of_mem_findAll (List.mem_of_getLast? h)
      exact Nat.le_add_right_of_le hstart

/-- A define ends in ink, so a blank stands between it and what follows the text. -/
theorem breaks_of_defines {suffix value define after : List Char}
    (hdefine : Defines stem suffix value define) (hblank : EndsBlank (define ++ after))
    (hafter : Breaks after) : Breaks (after ++ z) := by
  cases after with
  | cons c after => exact Text.breaks_cons.mpr (Text.breaks_cons.mp hafter)
  | nil =>
      cases hdefine with
      | intro hgap hsuffix hgap' hvalue =>
          simp only [List.append_nil, ← List.append_assoc] at hblank
          exact absurd hvalue hblank.of_append.not_isWord

/-- A block keeps its place if more text follows. -/
theorem cutsFirst_append {comment suffix value define after : List Char} (hstem : IsWord stem)
    (hblank : EndsBlank cs) (hopen : CutsFirst (opening <+: ·) cs front (opening ++ rest))
    (hclose : CutsFirst (Closes stem) rest comment (closing ++ (define ++ after)))
    (hdefine : Defines stem suffix value define) (hafter : Breaks (after ++ z)) :
    CutsFirst (opening <+: ·) (cs ++ z) front (opening ++ (rest ++ z)) ∧
      CutsFirst (Closes stem) (rest ++ z) comment (closing ++ (define ++ (after ++ z))) := by
  have hrest : EndsBlank rest := EndsBlank.of_append (EndsBlank.of_append (hopen.1 ▸ hblank))
  constructor
  · have hlonger := hopen.append_right (z := z) ⟨rest ++ z, (List.append_assoc opening rest z).symm⟩ ?_
    · simpa only [List.append_assoc] using hlonger
    · rintro r m rfl hm hpre
      have hends : EndsBlank (m ++ (opening ++ rest)) := by
        rw [hopen.1, List.append_assoc] at hblank
        exact hblank.of_append
      refine prefix_of_endsBlank isWord_opening hends (by simp [hm]) (z := z) ?_
      simpa only [List.append_assoc] using hpre
  · have hlonger := hclose.append_right (z := z) ⟨suffix, value, define, after ++ z,
      by simp only [List.append_assoc], hdefine, hafter⟩ ?_
    · simpa only [List.append_assoc] using hlonger
    · rintro r m rfl hm hcloses
      have hends : EndsBlank (m ++ (closing ++ (define ++ after))) := by
        rw [hclose.1, List.append_assoc] at hrest
        exact hrest.of_append
      refine closes_of_append hstem hm hends (z := z) ?_
      simpa only [List.append_assoc] using hcloses

/-- **The scan of a joined text** is the scan of its first part and the scan of the rest, if nothing opens a
comment behind the last match of the first part. -/
theorem Scans.append (hstem : IsWord stem) (h : Scans stem pos cs sites) (hblank : EndsBlank cs)
    (hclosed : ∃ front rest, cs = front ++ rest ∧ pos + byteLength front = lastStop stem pos cs ∧
      ¬ opening <:+: rest)
    (h' : Scans stem (pos + byteLength cs) z sites') : Scans stem pos (cs ++ z) (sites ++ sites') := by
  induction h with
  | unopened h => exact h'.behind h hblank
  | @unclosed pos cs front rest hopen h =>
      -- without a match the rest is the whole text
      have hnone : (propertyPattern stem).findAll pos cs = [] :=
        findAll_eq_nil fun front' rest' hlater => not_closes_of_unclosed hopen h hlater
      obtain ⟨front', rest', hcs, hlast, hrest⟩ := hclosed
      rw [lastStop_of_nil hnone] at hlast
      obtain rfl : front' = [] := Text.eq_nil_of_byteLength_eq_zero (by omega)
      refine absurd ⟨front, rest, ?_⟩ hrest
      rw [List.append_assoc, ← hopen.1, hcs, List.nil_append]
  | @block pos cs front rest comment suffix value define after sites hopen hclose hdefine hafter _ ih =>
      obtain ⟨m, -, -, hstop, hfind⟩ := findAll_eq_cons hstem hopen hclose hdefine hafter
      have hcs : cs = front ++ (opening ++ (comment ++ closing)) ++ (define ++ after) := by
        rw [hopen.1, hclose.1]
        simp only [List.append_assoc]
      have hbreaks : Breaks (after ++ z) :=
        breaks_of_defines hdefine (EndsBlank.of_append (hcs ▸ hblank)) hafter
      obtain ⟨hopen', hclose'⟩ := cutsFirst_append hstem hblank hopen hclose hdefine hbreaks
      have hown : cs = front ++ (opening ++ (comment ++ (closing ++ define))) ++ after := by
        rw [hcs]
        simp only [List.append_assoc]
      refine .block hopen' hclose' hdefine hbreaks (ih (EndsBlank.of_append (hown ▸ hblank)) ?_ ?_)
      · -- the text behind the last match stands behind this one
        obtain ⟨front', rest', heq, hlast, hrest⟩ := hclosed
        rw [lastStop_of_cons hfind rfl, hstop] at hlast
        generalize front ++ (opening ++ (comment ++ (closing ++ define))) = own at hlast hown ⊢
        have hle : pos + byteLength own ≤ lastStop stem (pos + byteLength own) after := le_lastStop
        obtain ⟨k, rfl, hk⟩ := Text.exists_append_of_byteLength_le (hown.symm.trans heq) (by omega)
        refine ⟨k, rest', hk, ?_, hrest⟩
        rw [← hlast, Text.byteLength_append, Nat.add_assoc]
      · rw [hown, Text.byteLength_append, ← Nat.add_assoc] at h'
        exact h'

/-! ## Blocks that are moved -/

/-- The block `n` bytes further on. -/
def PropertyBlock.shift (n : Nat) (b : PropertyBlock) : PropertyBlock := { b with start := n + b.start }

def Site.shift (n : Nat) (d : Site) : Site := ⟨d.block.shift n, n + d.first, n + d.last⟩

/-- The blocks of a text stand where the text stands. -/
theorem Scans.shift (n : Nat) (h : Scans stem pos cs sites) :
    Scans stem (n + pos) cs (sites.map (Site.shift n)) := by
  induction h with
  | unopened h => exact .unopened h
  | unclosed hopen h => exact .unclosed hopen h
  | block hopen hclose hdefine hafter _ ih =>
      rw [← Nat.add_assoc] at ih
      simpa only [List.map_cons, Site.shift, PropertyBlock.shift, Nat.add_assoc] using
        Scans.block hopen hclose hdefine hafter ih

theorem propertyBlocks_append {text : List Char} (hstem : IsWord stem) (h : SelfContained stem text)
    (z : List Char) : propertyBlocks stem (text ++ z) = propertyBlocks stem text ++
      (propertyBlocks stem z).map (PropertyBlock.shift (byteLength text)) := by
  obtain ⟨sites, hsites⟩ := exists_scans stem 0 text
  obtain ⟨sites', hsites'⟩ := exists_scans stem 0 z
  obtain ⟨front, rest, htext, hlast, hrest⟩ := h.closed
  have hshift := hsites'.shift (byteLength text)
  rw [Nat.add_comm] at hshift
  have hjoined := hsites.append hstem h.endsBlank ⟨front, rest, htext, by rw [hlast, Nat.zero_add], hrest⟩
    hshift
  rw [propertyBlocks_eq hstem hjoined, propertyBlocks_eq hstem hsites, propertyBlocks_eq hstem hsites',
    List.map_append, List.map_map, List.map_map]
  rfl

/-- What words say does not depend on where they stand, but a fault tells where. -/
theorem annotate_shift (n : Nat) (p : Property) (ws : List Word) :
    annotate p (ws.map (Word.shift n)) =
      (annotate p ws).mapError fun (w, k) => (w.shift n, k) := by
  induction ws using wordsInduction generalizing p with
  | nil => rfl
  | other w ws h ih =>
      have h' : keyOf? (w.shift n) = none := h
      rw [List.map_cons, annotate_other h', annotate_other h, ih]
  | mark w k ws h hk ih =>
      have h' : keyOf? (w.shift n) = some k := h
      rw [List.map_cons, annotate_mark h' hk, annotate_mark h hk, ih]
  | valued w k v ws h hk ih =>
      have h' : keyOf? (w.shift n) = some k := h
      rw [List.map_cons, List.map_cons, annotate_valued h' hk, annotate_valued h hk, ih]
      rfl
  | dangling w k h hk =>
      have h' : keyOf? (w.shift n) = some k := h
      rw [List.map_cons, List.map_nil, annotate_dangling h' hk, annotate_dangling h hk]
      rfl

theorem exists_locate?_of_annotate {sources : Sources} {b : PropertyBlock} {p : Property} {w : Word}
    {k : AnnotationKey} (hb : b ∈ propertyBlocks stem sources.text.toList)
    (h : annotate p (wordsFrom b.start b.comment) = .error (w, k)) :
    ∃ file offset, sources.locate? w.start = some (file, offset) := by
  rw [annotate_eq] at h
  split at h
  · next fault hdangling =>
      obtain rfl := Except.error.inj h
      obtain ⟨front, back, htext, hstart, -⟩ := exists_append_of_danglingKey? hb hdangling
      rw [Sources.toList_text] at htext
      obtain ⟨c, hc⟩ := exists_fileCut htext (by simp [(isWord_token k).1])
      exact ⟨c.file, byteLength c.own, by rw [Sources.locate?, hstart, hc]⟩
  · contradiction

/-- **A block is read the same wherever its text stands**, if its bytes stand in the same files. -/
theorem PropertyBlock.read_shift {s t : Sources} {b : PropertyBlock}
    (hlocate : ∀ offset place, s.locate? offset = some place → t.locate? (n + offset) = some place)
    (hb : b ∈ propertyBlocks stem s.text.toList) : (b.shift n).read stem t = b.read stem s := by
  show (annotate (b.property stem) (wordsFrom (n + b.start) b.comment)).mapError _ =
    (annotate (b.property stem) (wordsFrom b.start b.comment)).mapError _
  rw [Text.wordsFrom_add, annotate_shift]
  cases hread : annotate (b.property stem) (wordsFrom b.start b.comment) with
  | ok q => rfl
  | error fault =>
      obtain ⟨file, offset, hplace⟩ := exists_locate?_of_annotate hb hread
      have hplace' : t.locate? (fault.1.shift n).start = some (file, offset) := hlocate _ _ hplace
      show Except.error (missingValue t (fault.1.shift n) fault.2 _) =
        Except.error (missingValue s fault.1 fault.2 _)
      rw [missingValue, missingValue, hplace, hplace']
      rfl

/-! ## The properties -/

theorem PropertyBlock.read_append_left {as : List SourceFile} {b : PropertyBlock}
    (hb : b ∈ propertyBlocks stem (charsOf as)) (bs : List SourceFile) :
    b.read stem ⟨as ++ bs⟩ = b.read stem ⟨as⟩ := by
  rw [← Sources.toList_text ⟨as⟩] at hb
  have hread : (b.shift 0).read stem ⟨as ++ bs⟩ = b.read stem ⟨as⟩ := by
    refine PropertyBlock.read_shift ?_ hb
    intro offset place h
    rw [Nat.zero_add]
    exact locateIn_append_left h bs
  rw [← hread, PropertyBlock.shift, Nat.zero_add]

theorem PropertyBlock.read_append_right {bs : List SourceFile} {b : PropertyBlock}
    (hb : b ∈ propertyBlocks stem (charsOf bs)) (as : List SourceFile) :
    (b.shift (byteLength (charsOf as))).read stem ⟨as ++ bs⟩ = b.read stem ⟨bs⟩ := by
  rw [← Sources.toList_text ⟨bs⟩] at hb
  refine PropertyBlock.read_shift ?_ hb
  intro offset place h
  exact (locateIn_append_right as bs offset).trans h

/-- **Extraction distributes over self-contained files.** The properties of the files are those of the first
ones and behind them those of the others; a fault is the one of the first files, or else that of the others,
with the same key, property and span in the same file. -/
theorem properties_append (stem : String) (hstem : isStem stem.toList) (as bs : List SourceFile)
    (has : SelfContained stem.toList (charsOf as)) : properties stem ⟨as ++ bs⟩ = do
      let ps ← properties stem ⟨as⟩
      let qs ← properties stem ⟨bs⟩
      return ps ++ qs := by
  have hfront : (propertyBlocks stem.toList (charsOf as)).mapM (·.read stem.toList ⟨as ++ bs⟩) =
      properties stem ⟨as⟩ := by
    rw [properties, Sources.toList_text]
    exact mapM_congr fun b hb => PropertyBlock.read_append_left hb bs
  have hback : ((propertyBlocks stem.toList (charsOf bs)).map
      (PropertyBlock.shift (byteLength (charsOf as)))).mapM (·.read stem.toList ⟨as ++ bs⟩) =
      properties stem ⟨bs⟩ := by
    rw [properties, Sources.toList_text, List.mapM_map]
    exact mapM_congr fun b hb => PropertyBlock.read_append_right hb as
  rw [← hfront, ← hback, ← List.mapM_append, ← propertyBlocks_append (isWord_of_isStem hstem) has,
    ← charsOf_append, properties, Sources.toList_text]

/-- The fault of the second file has its span in that file. -/
theorem properties_append_fault :
    isStem "P_".toList ∧
      SelfContained "P_".toList (charsOf [⟨"a.h", "/** @unit u */\n#define P_A 1\n"⟩]) ∧
      properties "P_" ⟨[⟨"a.h", "/** @unit u */\n#define P_A 1\n"⟩,
        ⟨"b.h", "/** @unit */\n#define P_B 2\n"⟩]⟩ =
          .error (.missingValue ⟨"b.h", "/** @unit */\n#define P_B 2\n"⟩ 4 5 .unit "P_B") := by
  have hstem : isStem "P_".toList := by decide
  have htext : charsOf [⟨"a.h", "/** @unit u */\n#define P_A 1\n"⟩] =
      "/** @unit u */\n#define P_A 1".toList ++ ['\n'] := by decide
  have hfirst : SelfContained "P_".toList
      (charsOf [⟨"a.h", "/** @unit u */\n#define P_A 1\n"⟩]) := by
    refine ⟨?_, _, _, htext, by decide +kernel, by decide⟩
    intro c hc
    rw [htext, List.getLast?_concat] at hc
    obtain rfl := Option.some.inj hc
    decide
  refine ⟨hstem, hfirst, ?_⟩
  refine (properties_append "P_" hstem _ [⟨"b.h", "/** @unit */\n#define P_B 2\n"⟩] hfirst).trans ?_
  decide +kernel

end HalConstants.Header
