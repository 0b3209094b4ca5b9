import HalConstants.Proofs.Header.OwnComment

/-!
# The linear scan for properties

The pattern of a property holds one lazy and four greedy runs, but none of them ever gives way: `Scans` finds
the blocks by going forward only. It looks for the first `/**`, from there for the first `*/` that a define
follows, takes the block and goes on behind its value; where no such `*/` stands behind the first `/**`, it
stops, and no later `/**` would have one either. `properties_scan` says that this is what extraction does.
-/

namespace HalConstants.Header

open Text (byteLength isInk IsWord IsGap Breaks CutsFirst)

/-- A block, the byte at which its `/**` stands and the byte behind its value. -/
structure Site where
  block : PropertyBlock
  first : Nat
  last : Nat

/-- The blocks that the scan finds in a text whose first character stands at byte `pos`. -/
inductive Scans (stem : List Char) : Nat → List Char → List Site → Prop
  | unopened {pos : Nat} {cs : List Char} (h : ¬ opening <:+: cs) : Scans stem pos cs []
  | unclosed {pos : Nat} {cs front rest : List Char}
      (hopen : CutsFirst (opening <+: ·) cs front (opening ++ rest))
      (h : ∀ r s, rest = r ++ s → ¬ Closes stem s) : Scans stem pos cs []
  | block {pos : Nat} {cs front rest comment suffix value define after : List Char}
      {sites : List Site} (hopen : CutsFirst (opening <+: ·) cs front (opening ++ rest))
      (hclose : CutsFirst (Closes stem) rest comment (closing ++ (define ++ after)))
      (hdefine : Defines stem suffix value define) (hafter : Breaks after)
      (h : Scans stem (pos + byteLength (front ++ (opening ++ (comment ++ (closing ++ define))))) after
        sites) :
      Scans stem pos cs (⟨⟨pos + byteLength (front ++ opening), comment, suffix, value⟩,
        pos + byteLength front,
        pos + byteLength (front ++ (opening ++ (comment ++ (closing ++ define))))⟩ :: sites)

/-- Every `/**` that a define follows somewhere stands in one of the blocks; and if it stands in front of the
end of the comment, then the first define behind it is the one of the block. -/
def Covers (stem text : List Char) (pos : Nat) (sites : List Site) : Prop :=
  ∀ front rest, text = front ++ (opening ++ rest) → (∃ r s, rest = r ++ s ∧ Closes stem s) →
    ∃ d ∈ sites, d.first ≤ pos + byteLength front ∧ pos + byteLength front < d.last ∧
      (pos + byteLength (front ++ opening) ≤ d.block.stop →
        ∀ comment tail, CutsFirst (Closes stem) rest comment tail →
          pos + byteLength (front ++ (opening ++ comment)) = d.block.stop)

variable {stem cs front front' rest rest' : List Char} {pos : Nat} {sites : List Site}

/-! ## Later openings -/

/-- What stands behind any opening stands behind the first one. -/
theorem suffix_of_cutsFirst (hopen : CutsFirst (opening <+: ·) cs front (opening ++ rest))
    (h : cs = front' ++ (opening ++ rest')) : rest' <:+ rest := by
  have hle : front.length ≤ front'.length := by
    by_contra hlt
    exact hopen.2.2 front' _ h (by omega) (List.prefix_append opening rest')
  have hrest : rest <:+ cs := ⟨front ++ opening, by rw [hopen.1, List.append_assoc]⟩
  have hrest' : rest' <:+ cs := ⟨front' ++ opening, by rw [h, List.append_assoc]⟩
  refine List.suffix_of_suffix_length_le hrest' hrest ?_
  have hlen := congrArg List.length (hopen.1.symm.trans h)
  simp only [List.length_append] at hlen
  omega

/-- **Starting later never helps**: without an end behind the first opening there is none behind any. -/
theorem not_closes_of_unclosed (hopen : CutsFirst (opening <+: ·) cs front (opening ++ rest))
    (h : ∀ r s, rest = r ++ s → ¬ Closes stem s) (hlater : cs = front' ++ (opening ++ rest')) :
    ∀ r s, rest' = r ++ s → ¬ Closes stem s := by
  rintro r s rfl
  obtain ⟨m, rfl⟩ := suffix_of_cutsFirst hopen hlater
  exact h (m ++ r) s (List.append_assoc m r s).symm

/-! ## The pattern finds what the scan finds -/

theorem exists_closes_of_split? {texts : List (List Char)} {after : List Char}
    (h : (propertyPattern stem).split? cs = some (texts, after)) :
    ∃ rest, cs = opening ++ rest ∧ ∃ r s, rest = r ++ s ∧ Closes stem s := by
  obtain ⟨rest, ts, rfl, -, h⟩ := Pattern.prefix_of_split?_text h
  obtain ⟨r, s, us, ⟨hrs, -⟩, -, h, -⟩ := Pattern.begins_of_split?_many h
  exact ⟨rest, rfl, r, s, hrs, closes_of_split? h⟩

theorem findAll_eq_nil (h : ∀ front rest, cs = front ++ (opening ++ rest) →
    ∀ r s, rest = r ++ s → ¬ Closes stem s) : (propertyPattern stem).findAll pos cs = [] := by
  refine Pattern.findAll_of_find?_eq_none (Pattern.find?_eq_none_iff.mpr ?_)
  rintro front s rfl
  apply Option.eq_none_iff_forall_ne_some.mpr
  rintro ⟨texts, after⟩ hsome
  obtain ⟨rest, rfl, r, t, hrt, hcloses⟩ := exists_closes_of_split? hsome
  exact h front rest rfl r t hrt hcloses

def Site.ofMatch? (m : Pattern.Match) : Option Site :=
  (PropertyBlock.ofMatch? m).map fun b => ⟨b, m.start, m.start + m.size⟩

/-- The pattern matches the first block in its parts and goes on behind it. -/
theorem findAll_eq_cons {comment suffix value define after : List Char} (hstem : IsWord stem)
    (hopen : CutsFirst (opening <+: ·) cs front (opening ++ rest))
    (hclose : CutsFirst (Closes stem) rest comment (closing ++ (define ++ after)))
    (hdefine : Defines stem suffix value define) (hafter : Breaks after) :
    ∃ m, Site.ofMatch? m = some ⟨⟨pos + byteLength (front ++ opening), comment, suffix, value⟩, m.start,
        m.start + m.size⟩ ∧ m.start = pos + byteLength front ∧
      m.start + m.size = pos + byteLength (front ++ (opening ++ (comment ++ (closing ++ define)))) ∧
      (propertyPattern stem).findAll pos cs =
        m :: (propertyPattern stem).findAll (m.start + m.size) after := by
  obtain ⟨rfl, -, hfirst⟩ := hopen
  obtain ⟨rfl, -, hmin⟩ := hclose
  obtain ⟨hgap, hsuffix, hgap', hvalue⟩ := hdefine
  simp only [List.append_assoc] at hmin hfirst ⊢
  have hsplit := split?_propertyPattern_of_first hstem hgap hsuffix hgap' hvalue hafter hmin
  refine ⟨_, ?_, rfl, ?_, Pattern.findAll_append consumes_propertyPattern hsplit ?_⟩
  · simp only [Site.ofMatch?, PropertyBlock.ofMatch?, Option.map_some, Text.byteLength_append,
      Nat.add_assoc]
  · -- the match covers the bytes of its parts
    simp only [Pattern.Match.size, List.flatten_cons, List.flatten_nil, List.append_nil,
      Text.byteLength_append, Nat.add_assoc]
  · rintro r s rfl hs
    refine split?_propertyPattern_eq_none (hfirst r _ (List.append_assoc r s _) ?_)
    have := List.length_pos_iff.mpr hs
    rw [List.length_append]
    omega

theorem Scans.sites_eq (hstem : IsWord stem) (h : Scans stem pos cs sites) :
    ((propertyPattern stem).findAll pos cs).filterMap Site.ofMatch? = sites := by
  induction h with
  | unopened h =>
      rw [findAll_eq_nil, List.filterMap_nil]
      rintro front rest rfl
      exact absurd ⟨front, rest, List.append_assoc front opening rest⟩ h
  | unclosed hopen h =>
      rw [findAll_eq_nil, List.filterMap_nil]
      intro front' rest' hlater
      exact not_closes_of_unclosed hopen h hlater
  | block hopen hclose hdefine hafter _ ih =>
      obtain ⟨m, hm, hstart, hstop, hfind⟩ := findAll_eq_cons hstem hopen hclose hdefine hafter
      rw [hfind, List.filterMap_cons, hm, hstop, ih, hstart]

theorem propertyBlocks_eq (hstem : IsWord stem) (h : Scans stem 0 cs sites) :
    propertyBlocks stem cs = sites.map Site.block := by
  rw [← h.sites_eq hstem, List.map_filterMap, propertyBlocks]
  congr 1
  funext m
  simp [Site.ofMatch?, Function.comp_def]

/-- Every text has a scan. -/
theorem exists_scans (stem : List Char) (pos : Nat) (cs : List Char) : ∃ sites, Scans stem pos cs sites := by
  induction h : cs.length using Nat.strongRecOn generalizing cs pos with
  | ind n ih =>
      by_cases hopening : opening <:+: cs
      · obtain ⟨a, b, hab⟩ := hopening
        obtain ⟨front, s, hopen⟩ : ∃ front s, CutsFirst (opening <+: ·) cs front s := by
          refine Text.exists_cutsFirst ⟨a, opening ++ b, ?_, List.prefix_append opening b⟩
          rw [← hab, List.append_assoc]
        obtain ⟨rest, rfl⟩ := hopen.2.1
        by_cases hcloses : ∃ r s, rest = r ++ s ∧ Closes stem s
        · obtain ⟨comment, s, hclose⟩ := Text.exists_cutsFirst hcloses
          obtain ⟨suffix, value, define, after, rfl, hdefine, hafter⟩ := hclose.2.1
          have hlt : after.length < n := by
            rw [← h, hopen.1, hclose.1]
            simp [opening]
            omega
          obtain ⟨sites, hsites⟩ := ih after.length hlt _ after rfl
          exact ⟨_, .block hopen hclose hdefine hafter hsites⟩
        · exact ⟨[], .unclosed hopen fun r s hrs hs => hcloses ⟨r, s, hrs, hs⟩⟩
      · exact ⟨[], .unopened hopening⟩

/-! ## Where the blocks stand -/

theorem Scans.le_first (h : Scans stem pos cs sites) : ∀ d ∈ sites, pos ≤ d.first := by
  induction h with
  | unopened | unclosed => simp
  | block _ _ _ _ _ ih =>
      intro d hd
      rcases List.mem_cons.mp hd with rfl | hd
      · exact Nat.le_add_right _ _
      · have := ih d hd
        omega

theorem Scans.pairwise (h : Scans stem pos cs sites) : sites.Pairwise fun d e => d.last ≤ e.first := by
  induction h with
  | unopened | unclosed => exact .nil
  | block _ _ _ _ h ih => exact .cons h.le_first ih

theorem Scans.covers (h : Scans stem pos cs sites) : Covers stem cs pos sites := by
  induction h with
  | unopened h =>
      rintro front rest rfl
      exact absurd ⟨front, rest, List.append_assoc front opening rest⟩ h
  | unclosed hopen h =>
      rintro front' rest' hlater ⟨r, s, hrs, hs⟩
      exact absurd hs (not_closes_of_unclosed hopen h hlater r s hrs)
  | @block pos cs front rest comment suffix value define after sites hopen hclose hdefine hafter _ ih =>
      intro front' rest' hlater hcloses
      have htext : front ++ (opening ++ (comment ++ (closing ++ define))) ++ after =
          front' ++ (opening ++ rest') := by
        rw [← hlater, hopen.1, hclose.1]
        simp only [List.append_assoc]
      by_cases hbehind : byteLength (front ++ (opening ++ (comment ++ (closing ++ define)))) ≤
          byteLength front'
      · -- the opening stands behind the block
        obtain ⟨m, rfl, hafter'⟩ := Text.exists_append_of_byteLength_le htext hbehind
        obtain ⟨d, hd, hfirst, hlast, hstop⟩ := ih m rest' hafter' hcloses
        rw [Nat.add_assoc, ← Text.byteLength_append] at hfirst hlast
        refine ⟨d, List.mem_cons_of_mem _ hd, hfirst, hlast, ?_⟩
        simpa only [Nat.add_assoc, ← Text.byteLength_append, List.append_assoc] using hstop
      · -- the opening stands in the block, `m` behind the first one
        obtain ⟨m, hm⟩ := suffix_of_cutsFirst hopen hlater
        have hfront : front ++ (opening ++ m) = front' ++ opening := by
          refine (List.append_left_inj rest').mp ?_
          have heq := hopen.1.symm.trans hlater
          rw [← hm] at heq
          simpa only [List.append_assoc] using heq
        have hbytes := congrArg byteLength hfront
        refine ⟨_, List.mem_cons_self, ?_, ?_, ?_⟩
        · simp only [Text.byteLength_append] at hbytes ⊢
          omega
        · dsimp only
          omega
        · intro hstop comment' tail hclose'
          simp only [PropertyBlock.stop, Text.byteLength_append] at hstop hbytes ⊢
          obtain ⟨k, rfl, -⟩ := Text.exists_append_of_byteLength_le (hm.trans hclose.1) (by omega)
          rw [← hm] at hclose
          rw [hclose.of_append.unique hclose', Text.byteLength_append]
          omega

/-! ## The properties -/

/-- Annotations leave the name and the value alone. -/
theorem foldl_applyTo (as : List Annotation) (p : Property) :
    (as.foldl Annotation.applyTo p).name = p.name ∧ (as.foldl Annotation.applyTo p).value = p.value := by
  induction as generalizing p with
  | nil => exact ⟨rfl, rfl⟩
  | cons a as ih =>
      obtain ⟨hname, hvalue⟩ := ih (a.applyTo p)
      rw [List.foldl_cons, hname, hvalue]
      exact ⟨Property.name_annotate _ _ _, Property.value_annotate _ _ _⟩

/-- **Extraction is the linear scan.** There is exactly one scan of a text; the properties are its blocks,
read in their order and named and valued as they stand there. The blocks follow each other without overlap, no
`/**` that a define follows stands outside of them, and where the first `/**` from some place on has no end, no
later one has. -/
theorem properties_scan (stem : String) (hstem : isStem stem.toList) (sources : Sources) :
    ∃ sites, (∀ sites', Scans stem.toList 0 sources.text.toList sites' ↔ sites' = sites) ∧
      properties stem sources = sites.mapM (·.block.read stem.toList sources) ∧
      (∀ ps, properties stem sources = .ok ps →
        List.Forall₂ (fun d p => p = d.block.annotated stem.toList ∧
          p.name = stem ++ String.ofList d.block.suffix ∧
          p.value = String.ofList (stripParens d.block.value)) sites ps) ∧
      sites.Pairwise (fun d e => d.last ≤ e.first) ∧
      Covers stem.toList sources.text.toList 0 sites ∧
      ∀ before cs front rest, sources.text.toList = before ++ cs →
        CutsFirst (opening <+: ·) cs front (opening ++ rest) →
        (∀ r s, rest = r ++ s → ¬ Closes stem.toList s) →
        ∀ front' rest', cs = front' ++ (opening ++ rest') →
          ∀ r s, rest' = r ++ s → ¬ Closes stem.toList s := by
  obtain ⟨sites, hscan⟩ := exists_scans stem.toList 0 sources.text.toList
  have hsites := hscan.sites_eq (isWord_of_isStem hstem)
  have hproperties : properties stem sources = sites.mapM (·.block.read stem.toList sources) := by
    rw [properties, propertyBlocks_eq (isWord_of_isStem hstem) hscan, List.mapM_map]
    rfl
  refine ⟨sites, ?_, hproperties, ?_, hscan.pairwise, hscan.covers, ?_⟩
  · intro sites'
    constructor
    · intro hscan'
      rw [← hscan'.sites_eq (isWord_of_isStem hstem), hsites]
    · rintro rfl
      exact hscan
  · intro ps hps
    rw [hproperties] at hps
    refine (mapM_eq_ok_iff.mp hps).imp ?_
    intro d p hread
    rw [PropertyBlock.read_eq] at hread
    split at hread
    · contradiction
    · obtain rfl := Except.ok.inj hread
      obtain ⟨hname, hvalue⟩ := foldl_applyTo (annotations d.block.words) (d.block.property stem.toList)
      refine ⟨rfl, ?_, hvalue⟩
      rw [PropertyBlock.annotated, hname, PropertyBlock.property, String.ofList_append,
        String.ofList_toList]
  · intro before cs front rest _ hopen h front' rest' hlater
    exact not_closes_of_unclosed hopen h hlater

/-- The comment runs past the define of another stem, the name ends in the end of a comment, and the define
behind that end belongs to the block as its value. -/
theorem properties_scan_marks :
    isStem "P_".toList ∧ ∃ sites,
      (∀ sites', Scans "P_".toList 0
        "/** x */\n#define Q 1\n/** @unit u */\n#define P_A*/\n#define P_B 2\n".toList sites' ↔
          sites' = sites) ∧
      sites.mapM (·.block.read "P_".toList ⟨[⟨"vehicle.h",
        "/** x */\n#define Q 1\n/** @unit u */\n#define P_A*/\n#define P_B 2\n"⟩]⟩) =
        .ok [⟨"P_A*/", "#define", none, none, none, some "u", false⟩] := by
  have hstem : isStem "P_".toList := by decide
  obtain ⟨sites, hscan, hread, -⟩ := properties_scan "P_" hstem ⟨[⟨"vehicle.h",
    "/** x */\n#define Q 1\n/** @unit u */\n#define P_A*/\n#define P_B 2\n"⟩]⟩
  refine ⟨hstem, sites, hscan, ?_⟩
  rw [← hread]
  decide +kernel

end HalConstants.Header
