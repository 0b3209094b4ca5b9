import HalConstants.Proofs.Target.JavaLines
import Mathlib.Data.List.Forall2

/-!
# Reading the Java constants class

The lines of a class are read from the top down. A line of a constant or of a case is read at its first space
behind the name, and a run of such lines ends at the first line of another form. The facts of a property
stand in one constant and up to four cases; as the names are distinct, the name of a case tells which property
it belongs to, and a missing case which property lacks the fact. So the document determines everything in it.
-/

namespace HalConstants.Java

variable {o : Options} {m m' : Model} {p q : Property} {ps qs : List Property} {s t : Switch} {level : Nat}
variable {c d : Constant} {cs ds : List Constant} {rest rest' : List String} {e e' : Enumeration}
variable {es es' : List Enumeration}

/-- Two properties that differ in their units at most. -/
structure SameFacts (p q : Property) : Prop where
  name : p.name = q.name
  value : p.value = q.value
  valueType : p.valueType = q.valueType
  changeMode : p.changeMode = q.changeMode
  access : p.access = q.access
  isRangeMarker : p.isRangeMarker = q.isRangeMarker

/-- Two enumerations that have the same entries and give classes of the same name. -/
structure SameClass (e e' : Enumeration) : Prop where
  typeName : typeName e.name = typeName e'.name
  entries : e.entries = e'.entries

/-! ## Constants -/

theorem constantLine_inj (hc : BlankFree c.name) (hd : BlankFree d.name)
    (h : constantLine level c = constantLine level d) : c = d := by
  have hcs : c.name.toList ++ ' ' :: ("= ".toList ++ c.value.toList ++ ";".toList) =
      d.name.toList ++ ' ' :: ("= ".toList ++ d.value.toList ++ ";".toList) := by
    have := congrArg String.toList h
    simpa [constantLine] using this
  obtain ⟨hname, hvalue⟩ := append_space_inj hc hd hcs
  rw [List.append_left_inj, List.append_right_inj, String.toList_inj] at hvalue
  rw [String.toList_inj] at hname
  obtain ⟨name, value⟩ := c
  obtain ⟨name', value'⟩ := d
  obtain rfl : name = name' := hname
  obtain rfl : value = value' := hvalue
  rfl

theorem map_inj_on {α β : Type} {f : α → β} {as bs : List α}
    (hinj : ∀ a ∈ as, ∀ b ∈ bs, f a = f b → a = b) (h : as.map f = bs.map f) : as = bs := by
  induction as generalizing bs with
  | nil => simpa using h.symm
  | cons a as ih =>
      cases bs with
      | nil => contradiction
      | cons b bs =>
          obtain ⟨hab, hrest⟩ := List.cons.inj h
          obtain rfl := hinj a (.head as) b (.head bs) hab
          rw [ih (fun a ha b hb => hinj a (.tail _ ha) b (.tail _ hb)) hrest]

theorem map_eq_of_forall₂ {α β : Type} {R : α → α → Prop} {f : α → β} {as bs : List α}
    (h : List.Forall₂ R as bs) (hf : ∀ a b, R a b → f a = f b) : as.map f = bs.map f := by
  rw [← List.forall₂_eq_eq_eq, List.forall₂_map_left_iff, List.forall₂_map_right_iff]
  exact h.imp hf

/-- Constants end at a line that is none of a constant. -/
theorem constantLines_inj (hcs : ∀ c ∈ cs, BlankFree c.name) (hds : ∀ d ∈ ds, BlankFree d.name)
    (hrest : ∀ l ∈ rest.head?, ¬ ∃ c, l = constantLine level c)
    (hrest' : ∀ l ∈ rest'.head?, ¬ ∃ c, l = constantLine level c)
    (h : constantLines level cs ++ rest = constantLines level ds ++ rest') : cs = ds ∧ rest = rest' := by
  have hform : ∀ (cs : List Constant) (rest : List String), constantLines level cs ++ rest =
      cs.map (constantLine level) ++ if cs.isEmpty then rest else "" :: rest := by
    intro cs rest
    rw [constantLines]
    cases cs <;> simp
  have hhead : ∀ (cs : List Constant) (rest : List String),
      (∀ l ∈ rest.head?, ¬ ∃ c, l = constantLine level c) →
      ∀ l ∈ (if cs.isEmpty then rest else "" :: rest).head?, ¬ ∃ c, l = constantLine level c := by
    intro cs rest hrest
    split
    · exact hrest
    · rintro l hl ⟨c, rfl⟩
      have hcs := congrArg String.toList (Option.some.inj hl)
      simp [constantLine] at hcs
  have hlines := h
  rw [hform, hform] at hlines
  have hisLine : ∀ cs : List Constant, ∀ l ∈ cs.map (constantLine level), ∃ c, l = constantLine level c := by
    intro cs l hl
    obtain ⟨c, -, rfl⟩ := List.mem_map.mp hl
    exact ⟨c, rfl⟩
  obtain ⟨hmap, -⟩ := append_inj_of_head (hisLine cs) (hisLine ds) (hhead cs rest hrest)
    (hhead ds rest' hrest') hlines
  obtain rfl := map_inj_on (fun c hc d hd => constantLine_inj (hcs c hc) (hds d hd)) hmap
  exact ⟨rfl, List.append_cancel_left h⟩

/-! ## Methods -/

theorem caseLine_inj {c d : String × String} (hc : BlankFree c.1) (hd : BlankFree d.1)
    (h : caseLine level c = caseLine level d) : c = d := by
  have hcs : (c.1.toList ++ [':']) ++ ' ' :: ("return ".toList ++ c.2.toList ++ ";".toList) =
      (d.1.toList ++ [':']) ++ ' ' :: ("return ".toList ++ d.2.toList ++ ";".toList) := by
    have := congrArg String.toList h
    simpa [caseLine] using this
  have hlabel : ∀ {label : String}, BlankFree label → ∀ x ∈ label.toList ++ [':'], Text.isInk x := by
    intro label h
    rw [List.forall_mem_append, List.forall_mem_singleton]
    exact ⟨h, by decide⟩
  obtain ⟨hname, hexpr⟩ := append_space_inj (hlabel hc) (hlabel hd) hcs
  rw [List.append_left_inj, String.toList_inj] at hname
  rw [List.append_left_inj, List.append_right_inj, String.toList_inj] at hexpr
  exact Prod.ext hname hexpr

theorem switchLines_inj (hframe : t = { s with cases := t.cases }) (hs : ∀ c ∈ s.cases, BlankFree c.1)
    (ht : ∀ c ∈ t.cases, BlankFree c.1) (h : switchLines level s ++ rest = switchLines level t ++ rest') :
    s.cases = t.cases ∧ rest = rest' := by
  have hback : ∀ rest : List String, ∀ l ∈ (switchBack level s ++ rest).head?,
      ¬ ∃ c, l = caseLine (level + 2) c := by
    rintro rest l hl ⟨c, rfl⟩
    have hcs := congrArg String.toList (Option.some.inj hl)
    simp [caseLine] at hcs
  have hisCase : ∀ cases : List (String × String), ∀ l ∈ cases.map (caseLine (level + 2)),
      ∃ c, l = caseLine (level + 2) c := by
    intro cases l hl
    obtain ⟨c, -, rfl⟩ := List.mem_map.mp hl
    exact ⟨c, rfl⟩
  have ht' : switchLines level t =
      switchFront level s ++ t.cases.map (caseLine (level + 2)) ++ switchBack level s := by
    rw [hframe]
    rfl
  rw [ht', switchLines, List.append_assoc, List.append_assoc, List.append_assoc, List.append_assoc,
    List.append_right_inj] at h
  obtain ⟨hcases, hrest⟩ := append_inj_of_head (hisCase s.cases) (hisCase t.cases) (hback rest)
    (hback rest') h
  exact ⟨map_inj_on (fun c hc d hd => caseLine_inj (hs c hc) (ht d hd)) hcases,
    List.append_cancel_left hrest⟩

/-! ## Facts of a property -/

theorem casesOf_cons (expr : Property → Option String) (p : Property) (ps : List Property) :
    casesOf expr (p :: ps) = ((expr p).map (p.name, ·)).toList ++ casesOf expr ps := by
  rw [casesOf, casesOf, List.filterMap_cons]
  cases expr p <;> rfl

theorem name_of_mem_casesOf {expr : Property → Option String} {c : String × String}
    (h : c ∈ casesOf expr ps) : c.1 ∈ ps.map (·.name) := by
  obtain ⟨p, hp, hc⟩ := List.mem_filterMap.mp h
  obtain ⟨e, -, rfl⟩ := Option.map_eq_some_iff.mp hc
  exact List.mem_map.mpr ⟨p, hp, rfl⟩

/-- **Cases are attached to the properties again**: a case that only one of two lists of properties has
would carry a name that occurs twice. -/
theorem forall₂_of_casesOf {R : Property → Property → Prop} {expr : Property → Option String}
    (hR : List.Forall₂ R ps qs) (hname : ∀ p q, R p q → p.name = q.name)
    (hnodup : (ps.map (·.name)).Nodup) (h : casesOf expr ps = casesOf expr qs) :
    List.Forall₂ (fun p q => R p q ∧ expr p = expr q) ps qs := by
  induction hR with
  | nil => exact .nil
  | @cons p q ps qs hpq hR ih =>
      obtain ⟨hp, hnodup⟩ := List.nodup_cons.mp hnodup
      have hnames : ps.map (·.name) = qs.map (·.name) := map_eq_of_forall₂ hR hname
      rw [casesOf_cons, casesOf_cons] at h
      cases hep : expr p with
      | none =>
          cases heq : expr q with
          | none =>
              rw [hep, heq] at h
              exact .cons ⟨hpq, by rw [hep, heq]⟩ (ih hnodup h)
          | some e' =>
              rw [hep, heq] at h
              have hmem : (q.name, e') ∈ casesOf expr ps := by
                have h : casesOf expr ps = (q.name, e') :: casesOf expr qs := h
                exact h ▸ .head _
              have hlabel : p.name ∈ ps.map (·.name) := by
                rw [hname p q hpq]
                exact name_of_mem_casesOf hmem
              exact absurd hlabel hp
      | some e =>
          cases heq : expr q with
          | none =>
              rw [hep, heq] at h
              have hmem : (p.name, e) ∈ casesOf expr qs := by
                have h : (p.name, e) :: casesOf expr ps = casesOf expr qs := h
                exact h ▸ .head _
              exact absurd (hnames ▸ name_of_mem_casesOf hmem) hp
          | some e' =>
              rw [hep, heq] at h
              obtain ⟨hcase, hrest⟩ := List.cons.inj h
              have hexpr : e = e' := (Prod.mk.inj hcase).2
              exact .cons ⟨hpq, by rw [hep, heq, hexpr]⟩ (ih hnodup hrest)

theorem qualified_inj {qualifier a b : String} (h : qualifier ++ "." ++ a = qualifier ++ "." ++ b) :
    a = b := by
  simpa using h

theorem valueType_of_expr (h : valueTypeExpr o p = valueTypeExpr o q) : p.valueType = q.valueType :=
  Option.map_injective (fun _ _ => qualified_inj) h

theorem access_of_expr (h : accessExpr o p = accessExpr o q) : p.access = q.access :=
  Option.map_injective (fun _ _ => qualified_inj) h

theorem isRangeMarker_of_expr (h : nameExpr p = nameExpr q) : p.isRangeMarker = q.isRangeMarker := by
  cases hp : p.isRangeMarker <;> cases hq : q.isRangeMarker <;> simp [nameExpr, hp, hq] at h ⊢

/-- What stands in front of every mode but the first. -/
def modeMark (o : Options) : List Char := ',' :: ' ' :: (o.changeModeClass ++ ".").toList

theorem toList_modes (o : Options) (mode : String) (modes : List String) :
    (" , ".intercalate ((mode :: modes).map (o.changeModeClass ++ "." ++ ·))).toList =
      (o.changeModeClass ++ ".").toList ++
        (mode.toList ++ modes.flatMap (' ' :: modeMark o ++ String.toList ·)) := by
  rw [String.toList_intercalate, List.map_cons, List.map_cons, intercalate_cons_eq_flatMap,
    List.flatMap_map, List.flatMap_map]
  simp [modeMark]

/-- **Modes are told apart**: they have no spaces, so each one ends where the comma behind it is set off. -/
theorem modeArray_inj {modes modes' : List String} (hne : modes ≠ []) (hne' : modes' ≠ [])
    (h : ∀ mode ∈ modes, BlankFree mode) (h' : ∀ mode ∈ modes', BlankFree mode)
    (heq : modeArray o modes = modeArray o modes') : modes = modes' := by
  obtain ⟨mode, modes, rfl⟩ := List.exists_cons_of_ne_nil hne
  obtain ⟨mode', modes', rfl⟩ := List.exists_cons_of_ne_nil hne'
  rw [List.forall_mem_cons] at h h'
  have hcs : mode.toList ++ modes.flatMap (' ' :: modeMark o ++ String.toList ·) =
      mode'.toList ++ modes'.flatMap (' ' :: modeMark o ++ String.toList ·) := by
    have hmodes := congrArg String.toList heq
    simp only [modeArray, String.toList_append, toList_modes] at hmodes
    exact List.append_cancel_left (List.append_cancel_left (List.append_cancel_right hmodes))
  have hspace : ¬ Text.isInk ' ' := by decide
  have hhead : ∀ modes : List String,
      ∀ c ∈ (modes.flatMap (' ' :: modeMark o ++ String.toList ·)).head?, ¬ Text.isInk c := by
    intro modes c hc
    exact head_flatMap_mark hc ▸ hspace
  obtain ⟨hmode, hmodes⟩ :=
    append_inj_of_head (p := (Text.isInk ·)) h.1 h'.1 (hhead modes) (hhead modes') hcs
  rw [String.toList_inj.mp hmode, flatMap_mark_inj ' ' (modeMark o) String.toList (p := (Text.isInk ·)) hspace
    h.2 h'.2 (fun _ _ => String.toList_inj.mp) hmodes]

/-- The modes of a property joined again. -/
theorem changeMode_of_changeModes {mode mode' : String}
    (h : (mode.toList.splitOn '|').map String.ofList = (mode'.toList.splitOn '|').map String.ofList) :
    mode = mode' := by
  have hpieces : mode.toList.splitOn '|' = mode'.toList.splitOn '|' :=
    List.map_injective_iff.mpr (fun _ _ => String.ofList_injective) h
  have hjoined := congrArg ['|'].intercalate hpieces
  rwa [List.intercalate_splitOn, List.intercalate_splitOn, String.toList_inj] at hjoined

theorem changeMode_of_expr (hp : BlankFreeProperty p) (hq : BlankFreeProperty q)
    (h : changeModeExpr o p = changeModeExpr o q) : p.changeMode = q.changeMode := by
  cases hmode : p.changeMode with
  | none =>
      cases hmode' : q.changeMode with
      | none => rfl
      | some mode' => simp [changeModeExpr, hmode, hmode'] at h
  | some mode =>
      cases hmode' : q.changeMode with
      | none => simp [changeModeExpr, hmode, hmode'] at h
      | some mode' =>
          have hne : ∀ {p : Property} {mode : String}, p.changeMode = some mode → p.changeModes ≠ [] := by
            intro p mode hmode
            simp [Property.changeModes, hmode, List.splitOn_ne_nil]
          have harray : modeArray o p.changeModes = modeArray o q.changeModes := by
            simpa [changeModeExpr, hmode, hmode'] using h
          have hmodes := modeArray_inj (hne hmode) (hne hmode') hp.changeModes hq.changeModes harray
          simp only [Property.changeModes, hmode, hmode'] at hmodes
          rw [changeMode_of_changeModes hmodes]

/-! ## Enumerations -/

/-- The first line of a method is none of a constant. -/
theorem head_switchLines (hs : s.returnType = "int" ∨ s.returnType = "String") :
    ∀ l ∈ (switchLines level s ++ rest).head?, ¬ ∃ c, l = constantLine level c := by
  rintro l hl ⟨c, rfl⟩
  have hcs := congrArg String.toList (Option.some.inj hl)
  rcases hs with hs | hs <;> simp [constantLine, hs] at hcs

theorem enumerationLines_inj (he : BlankFreeEnumeration e) (he' : BlankFreeEnumeration e')
    (h : enumerationLines e ++ rest = enumerationLines e' ++ rest') : SameClass e e' ∧ rest = rest' := by
  have hform : ∀ (e : Enumeration) (rest : List String), enumerationLines e ++ rest =
      (layout.margin 1 ++ classHeader true (typeName e.name)) ::
        (constantLines 2 (e.entries.map entryConstant) ++
          (switchLines 2 (enumToStringMethod e) ++ (layout.margin 1 ++ "\x7d") :: rest)) := by
    intro e rest
    simp only [enumerationLines, List.cons_append, List.append_assoc, List.nil_append]
  have hnames : ∀ {e : Enumeration}, BlankFreeEnumeration e →
      ∀ c ∈ e.entries.map entryConstant, BlankFree c.name := by
    intro e he
    rw [List.forall_mem_map]
    exact fun entry hentry => (he.entries entry hentry).1
  rw [hform, hform] at h
  obtain ⟨hheader, h⟩ := List.cons.inj h
  obtain ⟨hconstants, h⟩ := constantLines_inj (hnames he) (hnames he') (head_switchLines (.inr rfl))
    (head_switchLines (.inr rfl)) h
  have hname : typeName e.name = typeName e'.name := by
    simpa [classHeader] using hheader
  have hentries : e.entries = e'.entries := by
    refine List.map_injective_iff.mpr ?_ hconstants
    rintro ⟨name, value⟩ ⟨name', value'⟩ heq
    cases heq
    rfl
  have hmethod : enumToStringMethod e = enumToStringMethod e' := by
    rw [enumToStringMethod, enumToStringMethod, Enumeration.withoutAliases, Enumeration.withoutAliases,
      hentries]
  rw [hmethod] at h
  exact ⟨⟨hname, hentries⟩, (List.cons.inj (List.append_cancel_left h)).2⟩

theorem enumerations_inj (hes : ∀ e ∈ es, BlankFreeEnumeration e) (hes' : ∀ e ∈ es', BlankFreeEnumeration e)
    {last : String} (hlast : last ≠ "")
    (h : es.flatMap ("" :: enumerationLines ·) ++ [last] = es'.flatMap ("" :: enumerationLines ·) ++ [last]) :
    List.Forall₂ SameClass es es' := by
  induction es generalizing es' with
  | nil =>
      cases es' with
      | nil => exact .nil
      | cons e' es' => exact absurd (List.cons.inj h).1 hlast
  | cons e es ih =>
      cases es' with
      | nil => exact absurd (List.cons.inj h).1.symm hlast
      | cons e' es' =>
          rw [List.forall_mem_cons] at hes hes'
          rw [List.flatMap_cons, List.flatMap_cons, List.append_assoc, List.append_assoc] at h
          obtain ⟨hclass, h⟩ := enumerationLines_inj hes.1 hes'.1 (List.cons.inj h).2
          exact .cons hclass (ih hes.2 hes'.2 h)

/-! ## The document -/

theorem blankFree_of_mem_casesOf {expr : Property → Option String} (h : ∀ p ∈ ps, BlankFreeProperty p) :
    ∀ c ∈ casesOf expr ps, BlankFree c.1 := by
  intro c hc
  obtain ⟨p, hp, hname⟩ := List.mem_map.mp (name_of_mem_casesOf hc)
  exact hname ▸ (h p hp).name

/-- A method gives away its cases, whatever lines stand behind it. -/
theorem Tabulates.casesOf_eq {method : List Property → Switch} {expr : Property → Option String}
    (hmethod : Tabulates method expr) (hps : ∀ p ∈ ps, BlankFreeProperty p)
    (hqs : ∀ q ∈ qs, BlankFreeProperty q)
    (h : switchLines level (method ps) ++ rest = switchLines level (method qs) ++ rest') :
    casesOf expr ps = casesOf expr qs ∧ rest = rest' := by
  have hlabels : ∀ {ps : List Property}, (∀ p ∈ ps, BlankFreeProperty p) →
      ∀ c ∈ (method ps).cases, BlankFree c.1 := by
    intro ps hps
    rw [hmethod.cases]
    exact blankFree_of_mem_casesOf hps
  obtain ⟨hcases, hrest⟩ := switchLines_inj (hmethod.frame ps qs) (hlabels hps) (hlabels hqs) h
  rw [hmethod.cases, hmethod.cases] at hcases
  exact ⟨hcases, hrest⟩

theorem forall₂_of_constants (hps : ∀ p ∈ ps, BlankFreeProperty p) (hqs : ∀ q ∈ qs, BlankFreeProperty q)
    (h : ps.map propertyConstant = qs.map propertyConstant) :
    List.Forall₂ (fun p q => propertyConstant p = propertyConstant q ∧
      BlankFreeProperty p ∧ BlankFreeProperty q) ps qs := by
  induction ps generalizing qs with
  | nil =>
      obtain rfl : [] = qs := by simpa using h.symm
      exact .nil
  | cons p ps ih =>
      cases qs with
      | nil => contradiction
      | cons q qs =>
          rw [List.forall_mem_cons] at hps hqs
          obtain ⟨hpq, h⟩ := List.cons.inj h
          exact .cons ⟨hpq, hps.1, hqs.1⟩ (ih hps.2 hqs.2 h)

theorem memberLines_append : memberLines o m ++ rest =
    constantLines 1 (m.properties.map propertyConstant) ++
      (switchLines 1 (valueTypeMethod o m.properties) ++
        "" :: (switchLines 1 (propertyNameMethod m.properties) ++
          "" :: (switchLines 1 (changeModeMethod o m.properties) ++
            "" :: (switchLines 1 (accessMethod o m.properties) ++
              (m.enumerations.flatMap ("" :: enumerationLines ·) ++ rest))))) := by
  simp [memberLines, methods]

theorem memberLines_inj (hm : BlankFreeModel m) (hm' : BlankFreeModel m')
    (hnodup : (m.properties.map (·.name)).Nodup) {last : String} (hlast : last ≠ "")
    (h : memberLines o m ++ [last] = memberLines o m' ++ [last]) :
    List.Forall₂ SameFacts m.properties m'.properties ∧
      List.Forall₂ SameClass m.enumerations m'.enumerations := by
  have hps := hm.properties
  have hqs := hm'.properties
  have hnames : ∀ {ps : List Property}, (∀ p ∈ ps, BlankFreeProperty p) →
      ∀ c ∈ ps.map propertyConstant, BlankFree c.name := by
    intro ps hps
    rw [List.forall_mem_map]
    exact fun p hp => (hps p hp).name
  rw [memberLines_append, memberLines_append] at h
  obtain ⟨hconstants, h⟩ := constantLines_inj (hnames hps) (hnames hqs) (head_switchLines (.inl rfl))
    (head_switchLines (.inl rfl)) h
  obtain ⟨hvalueTypes, h⟩ := tabulates_valueTypeMethod.casesOf_eq hps hqs h
  obtain ⟨hmarkers, h⟩ := tabulates_propertyNameMethod.casesOf_eq hps hqs (List.cons.inj h).2
  obtain ⟨hmodes, h⟩ := tabulates_changeModeMethod.casesOf_eq hps hqs (List.cons.inj h).2
  obtain ⟨haccess, h⟩ := tabulates_accessMethod.casesOf_eq hps hqs (List.cons.inj h).2
  have hname : ∀ {p q : Property}, propertyConstant p = propertyConstant q → p.name = q.name :=
    fun h => congrArg Constant.name h
  have hfacts := forall₂_of_constants hps hqs hconstants
  have hfacts := forall₂_of_casesOf hfacts (fun _ _ h => hname h.1) hnodup hvalueTypes
  have hfacts := forall₂_of_casesOf hfacts (fun _ _ h => hname h.1.1) hnodup hmarkers
  have hfacts := forall₂_of_casesOf hfacts (fun _ _ h => hname h.1.1.1) hnodup hmodes
  have hfacts := forall₂_of_casesOf hfacts (fun _ _ h => hname h.1.1.1.1) hnodup haccess
  refine ⟨hfacts.imp ?_, enumerations_inj hm.enumerations hm'.enumerations hlast h⟩
  rintro p q ⟨⟨⟨⟨⟨hconstant, hp, hq⟩, hvalueType⟩, hmarker⟩, hmode⟩, haccess⟩
  exact {
    name := hname hconstant
    value := congrArg Constant.value hconstant
    valueType := valueType_of_expr hvalueType
    changeMode := changeMode_of_expr hp hq hmode
    access := access_of_expr haccess
    isRangeMarker := isRangeMarker_of_expr hmarker }

/-! ### Back from the facts -/

theorem casesOf_congr {expr : Property → Option String} (h : List.Forall₂ SameFacts ps qs)
    (hexpr : ∀ p q, SameFacts p q → expr p = expr q) : casesOf expr ps = casesOf expr qs := by
  induction h with
  | nil => rfl
  | cons hpq _ ih => rw [casesOf_cons, casesOf_cons, hexpr _ _ hpq, hpq.name, ih]

theorem Tabulates.switchLines_congr {method : List Property → Switch} {expr : Property → Option String}
    (hmethod : Tabulates method expr) (hfacts : List.Forall₂ SameFacts ps qs)
    (hexpr : ∀ p q, SameFacts p q → expr p = expr q) :
    switchLines level (method ps) = switchLines level (method qs) := by
  have hcases : (method qs).cases = (method ps).cases := by
    rw [hmethod.cases, hmethod.cases, casesOf_congr hfacts hexpr]
  rw [hmethod.frame ps qs, hcases]

theorem enumerationLines_congr (h : SameClass e e') : enumerationLines e = enumerationLines e' := by
  rw [enumerationLines, enumerationLines, enumToStringMethod, enumToStringMethod,
    Enumeration.withoutAliases, Enumeration.withoutAliases, h.typeName, h.entries]

theorem memberLines_congr (hps : List.Forall₂ SameFacts m.properties m'.properties)
    (hes : List.Forall₂ SameClass m.enumerations m'.enumerations) : memberLines o m = memberLines o m' := by
  have hconstants : m.properties.map propertyConstant = m'.properties.map propertyConstant := by
    refine map_eq_of_forall₂ hps fun p q h => ?_
    rw [propertyConstant, propertyConstant, h.name, h.value]
  have hvalueTypes : switchLines 1 (valueTypeMethod o m.properties) =
      switchLines 1 (valueTypeMethod o m'.properties) := by
    refine tabulates_valueTypeMethod.switchLines_congr hps fun p q h => ?_
    rw [valueTypeExpr, valueTypeExpr, h.valueType]
  have hnames : switchLines 1 (propertyNameMethod m.properties) =
      switchLines 1 (propertyNameMethod m'.properties) := by
    refine tabulates_propertyNameMethod.switchLines_congr hps fun p q h => ?_
    rw [nameExpr, nameExpr, h.isRangeMarker, h.name]
  have hmodes : switchLines 1 (changeModeMethod o m.properties) =
      switchLines 1 (changeModeMethod o m'.properties) := by
    refine tabulates_changeModeMethod.switchLines_congr hps fun p q h => ?_
    rw [changeModeExpr, changeModeExpr, Property.changeModes, Property.changeModes, h.changeMode]
  have haccess : switchLines 1 (accessMethod o m.properties) =
      switchLines 1 (accessMethod o m'.properties) := by
    refine tabulates_accessMethod.switchLines_congr hps fun p q h => ?_
    rw [accessExpr, accessExpr, h.access]
  have henumerations : m.enumerations.flatMap ("" :: enumerationLines ·) =
      m'.enumerations.flatMap ("" :: enumerationLines ·) := by
    rw [List.flatMap_def, List.flatMap_def]
    refine congrArg List.flatten (map_eq_of_forall₂ hes fun e e' h => ?_)
    rw [enumerationLines_congr h]
  simp only [memberLines, methods, List.flatMap_cons, List.flatMap_nil, hconstants, hvalueTypes, hnames,
    hmodes, haccess, henumerations]

/-- **The document determines the facts of its model**, and is determined by them. -/
theorem document_determines_facts (ho : OptionsAreLines o) (hm : BlankFreeModel m) (hm' : BlankFreeModel m')
    (hnodup : (m.properties.map (·.name)).Nodup) :
    (document o m).text = (document o m').text ↔
      List.Forall₂ SameFacts m.properties m'.properties ∧
        List.Forall₂ SameClass m.enumerations m'.enumerations := by
  constructor
  · intro h
    have hlines := linesOfAll_inj_of_render (plain_fragments ho hm) (plain_fragments ho hm') h
    have hlast : layout.margin 0 ++ "\x7d" ≠ "" := by decide
    rw [linesOfAll_fragments, linesOfAll_fragments, List.append_assoc, List.append_assoc,
      List.append_right_inj] at hlines
    exact memberLines_inj hm hm' hnodup hlast hlines
  · rintro ⟨hps, hes⟩
    rw [document, document, Layout.render_eq, Layout.render_eq, linesOfAll_fragments, linesOfAll_fragments,
      memberLines_congr hps hes]

/-- Names made of punctuation, entries that share a value, and modes that end like the text between modes. -/
def punctuation : Model where
  properties := [
    { name := "A:", value := "(0x1;", valueType := some "=", changeMode := some "x,|y", unit := some "s" },
    { name := "=", value := "", access := some "\x7d", isRangeMarker := true }]
  enumerations := [⟨"a_b", [⟨"X", "1"⟩, ⟨"Y", "1"⟩]⟩, ⟨"c", []⟩]

/-- The same but for a unit, a group and the spelling of names. -/
def respelled : Model where
  properties := punctuation.properties.map fun p => { p with unit := none }
  enumerations := [⟨"_a_b", [⟨"X", "1"⟩, ⟨"Y", "1"⟩]⟩, ⟨"C", []⟩]
  groups := [⟨"g", []⟩]

theorem document_determines_facts_punctuation :
    (document { year := 2017 } punctuation).text = (document { year := 2017 } respelled).text ∧
      (document { year := 2017 } punctuation).text ≠
        (document { year := 2017 } { punctuation with properties := [] }).text := by
  have ho : OptionsAreLines { year := 2017 } := by
    constructor <;> exact isLine_ofList (by decide)
  have hm : BlankFreeModel punctuation := by
    constructor
    · simp only [punctuation, List.forall_mem_cons, List.not_mem_nil, false_implies, implies_true, and_true]
      exact ⟨⟨by decide, by decide, by decide, by decide, by decide⟩,
        ⟨by decide, by decide, by decide, by decide, by decide⟩⟩
    · simp only [punctuation, List.forall_mem_cons, List.not_mem_nil, false_implies, implies_true, and_true]
      exact ⟨⟨by decide, by decide⟩, ⟨by decide, by decide⟩⟩
  have hrespelled : BlankFreeModel respelled := by
    constructor
    · rw [respelled, List.forall_mem_map]
      intro p hp
      obtain ⟨hname, hvalue, hvalueType, hchangeMode, haccess⟩ := hm.properties p hp
      exact ⟨hname, hvalue, hvalueType, hchangeMode, haccess⟩
    · simp only [respelled, List.forall_mem_cons, List.not_mem_nil, false_implies, implies_true, and_true]
      exact ⟨⟨by decide, by decide⟩, ⟨by decide, by decide⟩⟩
  have hnone : BlankFreeModel { punctuation with properties := [] } := ⟨by simp, hm.enumerations⟩
  have hnodup : (punctuation.properties.map (·.name)).Nodup := by decide
  constructor
  · refine (document_determines_facts ho hm hrespelled hnodup).mpr ⟨?_, ?_⟩
    · exact .cons ⟨rfl, rfl, rfl, rfl, rfl, rfl⟩ (.cons ⟨rfl, rfl, rfl, rfl, rfl, rfl⟩ .nil)
    · exact .cons ⟨by decide +kernel, rfl⟩ (.cons ⟨by decide +kernel, rfl⟩ .nil)
  · intro h
    obtain ⟨hfacts, -⟩ := (document_determines_facts ho hm hnone hnodup).mp h
    cases hfacts

end HalConstants.Java
