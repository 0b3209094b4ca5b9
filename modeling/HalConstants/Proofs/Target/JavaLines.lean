import HalConstants.Proofs.Code.Lines
import HalConstants.Proofs.Text.Uppercase
import HalConstants.Target.JavaDocument

/-!
# The lines of the Java constants class

A class has its constants first, a line each and then a blank line, then its methods and nested classes with
a blank line in front of each one but the first. A method has a line for each case. The lines in front of a
class, and those around the cases of a method, do not depend on the model.
-/

namespace HalConstants.Java

variable {o : Options} {m : Model} {s : Switch} {level : Nat} {cs : List Constant} {name : String}
variable {ps : List Property}

def constantLine (level : Nat) (c : Constant) : String :=
  layout.margin level ++ ("public static final int " ++ c.name ++ " = " ++ c.value ++ ";")

def caseLine (level : Nat) (c : String × String) : String :=
  layout.margin level ++ ("case " ++ c.1 ++ ": return " ++ c.2 ++ ";")

def constantLines (level : Nat) (cs : List Constant) : List String :=
  if cs.isEmpty then [] else cs.map (constantLine level) ++ [""]

/-- The lines of a method in front of its cases. -/
def switchFront (level : Nat) (s : Switch) : List String :=
  [layout.margin level ++ ("public static " ++ s.returnType ++ " " ++ s.name ++ "(int " ++ s.param ++ ") \x7b"),
    layout.margin (level + 1) ++ ("switch (" ++ s.param ++ ") \x7b")]

/-- The lines of a method behind its cases. -/
def switchBack (level : Nat) (s : Switch) : List String :=
  [layout.margin (level + 2) ++ ("default: return " ++ s.fallback ++ ";"),
    layout.margin (level + 1) ++ "\x7d", layout.margin level ++ "\x7d"]

def switchLines (level : Nat) (s : Switch) : List String :=
  switchFront level s ++ s.cases.map (caseLine (level + 2)) ++ switchBack level s

def propertyConstant (p : Property) : Constant := ⟨p.name, p.value⟩

def entryConstant (e : Entry) : Constant := ⟨e.name, e.value⟩

def classHeader (nested : Bool) (name : String) : String :=
  (if nested then "public static class" else "public class") ++ " " ++ name ++ " \x7b"

def enumerationLines (e : Enumeration) : List String :=
  (layout.margin 1 ++ classHeader true (typeName e.name)) ::
    (constantLines 2 (e.entries.map entryConstant) ++ switchLines 2 (enumToStringMethod e)) ++
    [layout.margin 1 ++ "\x7d"]

/-- The lines of a document in front of the members of the class. -/
def front (o : Options) : List String :=
  layout.linesOfAll 0 ({ year := o.year : License }.fragments .slash ++
    [.blank, .comment s!"Autogenerated from {o.sourceLabel}. Do not modify manually.", .blank,
      .line s!"package {o.package};", .blank]) ++
    [layout.margin 0 ++ classHeader false o.className]

/-- The methods that look a property up. -/
def methods (o : Options) (ps : List Property) : List Switch :=
  [propertyNameMethod ps, changeModeMethod o ps, accessMethod o ps]

def memberLines (o : Options) (m : Model) : List String :=
  constantLines 1 (m.properties.map propertyConstant) ++ switchLines 1 (valueTypeMethod o m.properties) ++
    (methods o m.properties).flatMap ("" :: switchLines 1 ·) ++
    m.enumerations.flatMap ("" :: enumerationLines ·)

/-! ## Layout -/

theorem linesOfAll_constants :
    layout.linesOfAll level (cs.map (·.fragment)) = cs.map (constantLine level) := by
  unfold Constant.fragment
  rw [Layout.linesOfAll_map_line]
  rfl

theorem linesOfAll_cases (cases : List (String × String)) :
    layout.linesOfAll level (cases.map fun c => .line s!"case {c.1}: return {c.2};") =
      cases.map (caseLine level) := by
  rw [Layout.linesOfAll_map_line]
  rfl

theorem linesOfAll_switch (s : Switch) : layout.linesOfAll level s.fragments = switchLines level s := by
  simp only [Switch.fragments, Layout.linesOfAll, Layout.lines, Layout.linesOfAll_append]
  rw [linesOfAll_cases]
  simp [switchLines, switchFront, switchBack, ToString.toString]

/-- Members are separated by blank lines. -/
theorem linesOfAll_intercalate (fs : List Fragment) (members : List (List Fragment)) :
    layout.linesOfAll level ([Fragment.blank].intercalate (fs :: members)) =
      layout.linesOfAll level fs ++ members.flatMap ("" :: layout.linesOfAll level ·) := by
  have hmember : ∀ fs : List Fragment, layout.linesOfAll level ([Fragment.blank] ++ fs) =
      "" :: layout.linesOfAll level fs := by
    intro fs
    rw [List.singleton_append, Layout.linesOfAll, Layout.lines, List.singleton_append]
  rw [intercalate_cons_eq_flatMap, Layout.linesOfAll_append]
  congr 1
  induction members with
  | nil => rfl
  | cons next members ih =>
      rw [List.flatMap_cons, List.flatMap_cons, Layout.linesOfAll_append, hmember, ih]

def constantMember (cs : List Constant) : List (List Fragment) :=
  if cs.isEmpty then [] else [cs.map (·.fragment)]

theorem linesOfAll_members (fs : List Fragment) (members : List (List Fragment)) :
    layout.linesOfAll level ([Fragment.blank].intercalate (constantMember cs ++ fs :: members)) =
      constantLines level cs ++ layout.linesOfAll level fs ++
        members.flatMap ("" :: layout.linesOfAll level ·) := by
  rw [constantMember, constantLines]
  split
  · rw [List.nil_append, List.nil_append, linesOfAll_intercalate]
  · rw [List.singleton_append, linesOfAll_intercalate, linesOfAll_constants]
    simp

theorem member_constants (c : Class) (cs : List Constant) : c.member (cs.map (·.fragment)) =
    { c with members := c.members ++ constantMember cs } := by
  rw [Class.member, constantMember, List.isEmpty_map]
  split <;> simp

theorem member_switch (c : Class) (s : Switch) :
    c.member s.fragments = { c with members := c.members ++ [s.fragments] } := rfl

theorem foldl_member (c : Class) (es : List Enumeration) :
    es.foldl (fun c e => c.member (enumerationClass e).fragments) c =
      { c with members := c.members ++ es.map fun e => (enumerationClass e).fragments } := by
  induction es generalizing c with
  | nil => simp
  | cons e es ih =>
      have hmember : c.member (enumerationClass e).fragments =
        { c with members := c.members ++ [(enumerationClass e).fragments] } := rfl
      rw [List.foldl_cons, ih, hmember]
      simp

theorem linesOfAll_class (c : Class) : layout.linesOfAll level c.fragments =
    (layout.margin level ++ classHeader c.nested c.name) ::
      layout.linesOfAll (level + 1) ([Fragment.blank].intercalate c.members) ++
        [layout.margin level ++ "\x7d"] := by
  simp [Class.fragments, Layout.linesOfAll, Layout.lines, classHeader, ToString.toString]

theorem enumerationClass_eq (e : Enumeration) : enumerationClass e =
    { name := typeName e.name, nested := true,
      members := constantMember (e.entries.map entryConstant) ++ [(enumToStringMethod e).fragments] } := by
  have hconstants : (e.entries.map fun entry => (Constant.mk entry.name entry.value).fragment) =
      (e.entries.map entryConstant).map (·.fragment) := by
    rw [List.map_map]
    rfl
  rw [enumerationClass, hconstants, member_constants, member_switch]
  rfl

theorem constantsClass_eq : constantsClass o m =
    { name := o.className,
      members := constantMember (m.properties.map propertyConstant) ++
        (valueTypeMethod o m.properties).fragments ::
          ((methods o m.properties).map (·.fragments) ++
            m.enumerations.map fun e => (enumerationClass e).fragments) } := by
  have hconstants : (m.properties.map fun p => (Constant.mk p.name p.value).fragment) =
      (m.properties.map propertyConstant).map (·.fragment) := by
    rw [List.map_map]
    rfl
  rw [constantsClass, foldl_member, hconstants, member_constants]
  simp only [member_switch, methods]
  simp

theorem linesOfAll_enumerationClass (e : Enumeration) :
    layout.linesOfAll 1 (enumerationClass e).fragments = enumerationLines e := by
  rw [linesOfAll_class, enumerationClass_eq]
  simp only [linesOfAll_members, linesOfAll_switch]
  simp [enumerationLines]

theorem linesOfAll_fragments :
    layout.linesOfAll 0 (fragments o m) = front o ++ memberLines o m ++ [layout.margin 0 ++ "\x7d"] := by
  have hmembers : ((methods o m.properties).map (·.fragments) ++
      m.enumerations.map fun e => (enumerationClass e).fragments).flatMap ("" :: layout.linesOfAll 1 ·) =
      (methods o m.properties).flatMap ("" :: switchLines 1 ·) ++
        m.enumerations.flatMap ("" :: enumerationLines ·) := by
    simp only [List.flatMap_append, List.flatMap_map, linesOfAll_switch, linesOfAll_enumerationClass]
  rw [fragments, Layout.linesOfAll_append, linesOfAll_class, constantsClass_eq]
  simp only [linesOfAll_members, linesOfAll_switch, hmembers]
  simp only [front, memberLines, List.append_assoc, List.cons_append, List.nil_append]

theorem constantLine_mem (o : Options) {p : Property} (hp : p ∈ m.properties) :
    constantLine 1 (propertyConstant p) ∈ layout.linesOfAll 0 (fragments o m) := by
  have hline : constantLine 1 (propertyConstant p) ∈
      (m.properties.map propertyConstant).map (constantLine 1) :=
    List.mem_map_of_mem (List.mem_map_of_mem hp)
  have hconstants : constantLine 1 (propertyConstant p) ∈ constantLines 1 (m.properties.map propertyConstant) := by
    unfold constantLines
    split
    · next hempty =>
        rw [List.isEmpty_iff.mp hempty] at hline
        contradiction
    · exact List.mem_append_left [""] hline
  rw [linesOfAll_fragments, memberLines]
  simp only [List.mem_append, hconstants, true_or, or_true]

/-! ## The cases of the methods -/

/-- The cases of a method that maps a property to an expression, or leaves it out. -/
def casesOf (expr : Property → Option String) (ps : List Property) : List (String × String) :=
  ps.filterMap fun p => (expr p).map (p.name, ·)

def valueTypeExpr (o : Options) (p : Property) : Option String :=
  p.valueType.map fun t => s!"{o.valueTypeClass}.{t}"

def nameExpr (p : Property) : Option String :=
  if p.isRangeMarker then none else some (quoted p.name)

def changeModeExpr (o : Options) (p : Property) : Option String :=
  p.changeMode.map fun _ => modeArray o p.changeModes

def accessExpr (o : Options) (p : Property) : Option String :=
  p.access.map fun a => s!"{o.accessClass}.{a}"

/-- The method of a list of properties has their cases, and nothing else in it depends on them. -/
structure Tabulates (method : List Property → Switch) (expr : Property → Option String) : Prop where
  cases : ∀ ps, (method ps).cases = casesOf expr ps
  frame : ∀ ps qs, method qs = { method ps with cases := (method qs).cases }

theorem tabulates_valueTypeMethod : Tabulates (valueTypeMethod o) (valueTypeExpr o) where
  cases ps := by
    simp only [casesOf, valueTypeExpr, Option.map_map]
    rfl
  frame _ _ := rfl

theorem tabulates_propertyNameMethod : Tabulates propertyNameMethod nameExpr where
  cases ps := by
    have hcase : ∀ p : Property, (nameExpr p).map (p.name, ·) =
        if !p.isRangeMarker then some (p.name, quoted p.name) else none := by
      intro p
      cases hp : p.isRangeMarker <;> simp [nameExpr, hp]
    simp only [casesOf, hcase, propertyNameMethod, ← List.filterMap_eq_map, List.filterMap_filter]
    rfl
  frame _ _ := rfl

theorem tabulates_changeModeMethod : Tabulates (changeModeMethod o) (changeModeExpr o) where
  cases ps := by
    simp only [casesOf, changeModeExpr, Option.map_map]
    rfl
  frame _ _ := rfl

theorem tabulates_accessMethod : Tabulates (accessMethod o) (accessExpr o) where
  cases ps := by
    simp only [casesOf, accessExpr, Option.map_map]
    rfl
  frame _ _ := rfl

/-! ## Texts without line breaks -/

/-- The texts of the options have no line breaks. -/
structure OptionsAreLines (o : Options) : Prop where
  package : IsLine o.package
  className : IsLine o.className
  sourceLabel : IsLine o.sourceLabel
  valueTypeClass : IsLine o.valueTypeClass
  changeModeClass : IsLine o.changeModeClass
  accessClass : IsLine o.accessClass
  unknownValueType : IsLine o.unknownValueType

/-- What a document shows of a property has no blanks. -/
structure BlankFreeProperty (p : Property) : Prop where
  name : BlankFree p.name
  value : BlankFree p.value
  valueType : ∀ t ∈ p.valueType, BlankFree t
  changeMode : ∀ t ∈ p.changeMode, BlankFree t
  access : ∀ t ∈ p.access, BlankFree t

structure BlankFreeEnumeration (e : Enumeration) : Prop where
  name : BlankFree e.name
  entries : ∀ entry ∈ e.entries, BlankFree entry.name ∧ BlankFree entry.value

structure BlankFreeModel (m : Model) : Prop where
  properties : ∀ p ∈ m.properties, BlankFreeProperty p
  enumerations : ∀ e ∈ m.enumerations, BlankFreeEnumeration e

/-- What a document shows of a property has no line breaks. -/
structure PropertyIsLines (p : Property) : Prop where
  name : IsLine p.name
  value : IsLine p.value
  valueType : ∀ t ∈ p.valueType, IsLine t
  changeMode : ∀ t ∈ p.changeMode, IsLine t
  access : ∀ t ∈ p.access, IsLine t

structure EnumerationIsLines (e : Enumeration) : Prop where
  name : IsLine e.name
  entries : ∀ entry ∈ e.entries, IsLine entry.name ∧ IsLine entry.value

structure ModelIsLines (m : Model) : Prop where
  properties : ∀ p ∈ m.properties, PropertyIsLines p
  enumerations : ∀ e ∈ m.enumerations, EnumerationIsLines e

theorem BlankFreeProperty.isLines {p : Property} (h : BlankFreeProperty p) : PropertyIsLines p :=
  ⟨h.name.isLine, h.value.isLine, fun t ht => (h.valueType t ht).isLine,
    fun t ht => (h.changeMode t ht).isLine, fun t ht => (h.access t ht).isLine⟩

theorem BlankFreeEnumeration.isLines {e : Enumeration} (h : BlankFreeEnumeration e) : EnumerationIsLines e :=
  ⟨h.name.isLine, fun entry hentry => ⟨(h.entries entry hentry).1.isLine, (h.entries entry hentry).2.isLine⟩⟩

theorem BlankFreeModel.isLines (h : BlankFreeModel m) : ModelIsLines m :=
  ⟨fun p hp => (h.properties p hp).isLines, fun e he => (h.enumerations e he).isLines⟩

theorem plain_constants (h : ∀ c ∈ cs, IsLine c.name ∧ IsLine c.value) :
    ∀ f ∈ cs.map (·.fragment), f.Plain := by
  have hparts : IsLine "public static final int " ∧ IsLine " = " ∧ IsLine ";" :=
    ⟨isLine_ofList (by decide), isLine_ofList (by decide), isLine_ofList (by decide)⟩
  rw [List.forall_mem_map]
  intro c hc
  have hname := isLine_append hparts.1 (h c hc).1
  exact .line (isLine_append (isLine_append (isLine_append hname hparts.2.1) (h c hc).2) hparts.2.2)

theorem isLine_name_of_constantLine {c : Constant} (h : IsLine (constantLine level c)) : IsLine c.name := by
  intro hmem
  apply h
  simp only [constantLine, String.toList_append, List.mem_append, hmem, true_or, or_true]

theorem isLine_closing : ∀ last ∈ some "\x7d", IsLine last := by
  rintro _ ⟨⟩
  exact isLine_ofList (by decide)

structure FrameIsLines (s : Switch) : Prop where
  returnType : IsLine s.returnType
  name : IsLine s.name
  param : IsLine s.param
  fallback : IsLine s.fallback

theorem plain_switch (hs : FrameIsLines s) (hcases : ∀ c ∈ s.cases, IsLine c.1 ∧ IsLine c.2) :
    ∀ f ∈ s.fragments, f.Plain := by
  have hhead : IsLine s!"public static {s.returnType} {s.name}(int {s.param}) \x7b" := by
    have hparts : IsLine "public static " ∧ IsLine " " ∧ IsLine "(int " ∧ IsLine ") \x7b" :=
      ⟨isLine_ofList (by decide), isLine_ofList (by decide), isLine_ofList (by decide),
        isLine_ofList (by decide)⟩
    have hname := isLine_append (isLine_append (isLine_append hparts.1 hs.returnType) hparts.2.1) hs.name
    exact isLine_append (isLine_append (isLine_append hname hparts.2.2.1) hs.param) hparts.2.2.2
  have hswitch : IsLine s!"switch ({s.param}) \x7b" := by
    have hparts : IsLine "switch (" ∧ IsLine ") \x7b" :=
      ⟨isLine_ofList (by decide), isLine_ofList (by decide)⟩
    exact isLine_append (isLine_append hparts.1 hs.param) hparts.2
  have harms : ∀ c ∈ s.cases, IsLine s!"case {c.1}: return {c.2};" := by
    have hparts : IsLine "case " ∧ IsLine ": return " ∧ IsLine ";" :=
      ⟨isLine_ofList (by decide), isLine_ofList (by decide), isLine_ofList (by decide)⟩
    intro c hc
    have hlabel := isLine_append (isLine_append hparts.1 (hcases c hc).1) hparts.2.1
    exact isLine_append (isLine_append hlabel (hcases c hc).2) hparts.2.2
  have hdefault : IsLine s!"default: return {s.fallback};" := by
    have hparts : IsLine "default: return " ∧ IsLine ";" :=
      ⟨isLine_ofList (by decide), isLine_ofList (by decide)⟩
    exact isLine_append (isLine_append hparts.1 hs.fallback) hparts.2
  rw [Switch.fragments, List.forall_mem_singleton]
  refine .block hhead ?_ isLine_closing
  rw [List.forall_mem_singleton]
  refine .block hswitch ?_ isLine_closing
  rw [List.forall_mem_append, List.forall_mem_map, List.forall_mem_singleton]
  exact ⟨fun c hc => .line (harms c hc), .line hdefault⟩

theorem plain_class {c : Class} (hname : IsLine c.name) (h : ∀ fs ∈ c.members, ∀ f ∈ fs, f.Plain) :
    ∀ f ∈ c.fragments, f.Plain := by
  have hheader : IsLine (classHeader c.nested c.name) := by
    have hmodifiers : IsLine (if c.nested then "public static class" else "public class") := by
      split
      · exact isLine_ofList (by decide)
      · exact isLine_ofList (by decide)
    have hparts : IsLine " " ∧ IsLine " \x7b" := ⟨isLine_ofList (by decide), isLine_ofList (by decide)⟩
    exact isLine_append (isLine_append (isLine_append hmodifiers hparts.1) hname) hparts.2
  have hbody : ∀ f ∈ [Fragment.blank].intercalate c.members, f.Plain := by
    cases hm : c.members with
    | nil => simp
    | cons fs members =>
        rw [hm, List.forall_mem_cons] at h
        rw [intercalate_cons_eq_flatMap, List.forall_mem_append]
        refine ⟨h.1, ?_⟩
        intro f hf
        obtain ⟨fs, hfs, hf⟩ := List.mem_flatMap.mp hf
        rcases List.mem_cons.mp hf with rfl | hf
        · exact .blank
        · exact h.2 fs hfs f hf
  rw [Class.fragments, List.forall_mem_singleton]
  exact .block hheader hbody isLine_closing

theorem isLine_quoted (h : IsLine name) : IsLine (quoted name) := by
  have hquote : IsLine "\"" := isLine_ofList (by decide)
  exact isLine_append (isLine_append hquote h) hquote

theorem isLine_typeName (h : IsLine name) : IsLine (typeName name) := by
  rw [IsLine, typeName, String.toList_ofList, typeNameChars]
  split
  · exact h
  · intro hmem
    obtain ⟨piece, hpiece, hmem⟩ := List.mem_flatMap.mp hmem
    apply h
    apply mem_of_mem_splitOn hpiece
    cases piece with
    | nil => contradiction
    | cons c cs =>
        rcases List.mem_append.mp hmem with hmem | hmem
        · rcases Text.eq_or_isInk_of_mem_upperCase hmem with rfl | hink
          · exact .head cs
          · contradiction
        · exact .tail c hmem

theorem plain_constantMember (h : ∀ c ∈ cs, IsLine c.name ∧ IsLine c.value) :
    ∀ fs ∈ constantMember cs, ∀ f ∈ fs, f.Plain := by
  rw [constantMember]
  split
  · simp
  · rw [List.forall_mem_singleton]
    exact plain_constants h

theorem plain_enumToStringMethod {e : Enumeration} (he : EnumerationIsLines e) :
    ∀ f ∈ (enumToStringMethod e).fragments, f.Plain := by
  have hentry : ∀ entry ∈ e.withoutAliases, IsLine entry.name := fun entry hentry =>
    (he.entries entry ((firstsAfter_sublist Entry.value [] e.entries).subset hentry)).1
  apply plain_switch
  · exact ⟨isLine_ofList (by decide), isLine_ofList (by decide), isLine_ofList (by decide),
      isLine_quoted (isLine_ofList (by decide))⟩
  · rw [enumToStringMethod, List.forall_mem_map]
    exact fun entry hmem => ⟨hentry entry hmem, isLine_quoted (hentry entry hmem)⟩

theorem plain_enumerationClass {e : Enumeration} (he : EnumerationIsLines e) :
    ∀ f ∈ (enumerationClass e).fragments, f.Plain := by
  have hconstants : ∀ c ∈ e.entries.map entryConstant, IsLine c.name ∧ IsLine c.value := by
    rw [List.forall_mem_map]
    exact he.entries
  rw [enumerationClass_eq]
  refine plain_class (isLine_typeName he.name) ?_
  rw [List.forall_mem_append, List.forall_mem_singleton]
  exact ⟨plain_constantMember hconstants, plain_enumToStringMethod he⟩

theorem Tabulates.plain {method : List Property → Switch} {expr : Property → Option String}
    (hmethod : Tabulates method expr) (hframe : FrameIsLines (method ps))
    (hps : ∀ p ∈ ps, PropertyIsLines p) (hexpr : ∀ p ∈ ps, ∀ e ∈ expr p, IsLine e) :
    ∀ f ∈ (method ps).fragments, f.Plain := by
  apply plain_switch hframe
  rw [hmethod.cases, casesOf]
  intro c hc
  obtain ⟨p, hp, hcase⟩ := List.mem_filterMap.mp hc
  obtain ⟨e, he, rfl⟩ := Option.map_eq_some_iff.mp hcase
  exact ⟨(hps p hp).name, hexpr p hp e he⟩

/-- An expression that qualifies a name by the name of a class. -/
theorem isLine_qualified {qualifier : String} (hqualifier : IsLine qualifier) (h : IsLine name) :
    IsLine (qualifier ++ "." ++ name) :=
  isLine_append (isLine_append hqualifier (isLine_ofList (by decide))) h

theorem isLine_modeArray {modes : List String} (ho : OptionsAreLines o)
    (h : ∀ mode ∈ modes, IsLine mode) : IsLine (modeArray o modes) := by
  have hparts : IsLine "new int[] \x7b " ∧ IsLine " , " ∧ IsLine " \x7d" :=
    ⟨isLine_ofList (by decide), isLine_ofList (by decide), isLine_ofList (by decide)⟩
  have hmodes : ∀ mode ∈ modes.map (o.changeModeClass ++ "." ++ ·), IsLine mode := by
    rw [List.forall_mem_map]
    exact fun mode hmode => isLine_qualified ho.changeModeClass (h mode hmode)
  exact isLine_append (isLine_append hparts.1 (isLine_intercalate hparts.2.1 hmodes)) hparts.2.2

/-- The modes are made of the characters of the change mode. -/
theorem exists_of_mem_changeModes {p : Property} {mode : String} {c : Char} (h : mode ∈ p.changeModes)
    (hc : c ∈ mode.toList) : ∃ modes ∈ p.changeMode, c ∈ modes.toList := by
  unfold Property.changeModes at h
  cases hmodes : p.changeMode with
  | none =>
      rw [hmodes] at h
      contradiction
  | some modes =>
      rw [hmodes] at h
      obtain ⟨piece, hpiece, rfl⟩ := List.mem_map.mp h
      rw [String.toList_ofList] at hc
      exact ⟨modes, rfl, mem_of_mem_splitOn hpiece hc⟩

theorem BlankFreeProperty.changeModes {p : Property} (h : BlankFreeProperty p) :
    ∀ mode ∈ p.changeModes, BlankFree mode := by
  intro mode hmode c hc
  obtain ⟨modes, hmodes, hc⟩ := exists_of_mem_changeModes hmode hc
  exact h.changeMode modes hmodes c hc

theorem PropertyIsLines.changeModes {p : Property} (h : PropertyIsLines p) :
    ∀ mode ∈ p.changeModes, IsLine mode := by
  intro mode hmode hc
  obtain ⟨modes, hmodes, hc⟩ := exists_of_mem_changeModes hmode hc
  exact h.changeMode modes hmodes hc

theorem plain_valueTypeMethod (ho : OptionsAreLines o) (h : ∀ p ∈ ps, PropertyIsLines p) :
    ∀ f ∈ (valueTypeMethod o ps).fragments, f.Plain := by
  have hfallback : IsLine (o.valueTypeClass ++ "." ++ o.unknownValueType) :=
    isLine_append (isLine_append ho.valueTypeClass (isLine_ofList (by decide))) ho.unknownValueType
  apply tabulates_valueTypeMethod.plain _ h
  · intro p hp e he
    obtain ⟨t, ht, rfl⟩ := Option.map_eq_some_iff.mp he
    exact isLine_qualified ho.valueTypeClass ((h p hp).valueType t ht)
  · exact ⟨isLine_ofList (by decide), isLine_ofList (by decide), isLine_ofList (by decide), hfallback⟩

theorem plain_methods (ho : OptionsAreLines o) (h : ∀ p ∈ ps, PropertyIsLines p) :
    ∀ s ∈ methods o ps, ∀ f ∈ s.fragments, f.Plain := by
  have hquoted : IsLine (quoted "UNKNOWN_PROPERTY") := isLine_quoted (isLine_ofList (by decide))
  have hname : ∀ f ∈ (propertyNameMethod ps).fragments, f.Plain := by
    apply tabulates_propertyNameMethod.plain _ h
    · intro p hp e he
      rw [nameExpr] at he
      split at he
      · contradiction
      · obtain rfl := Option.some.inj he
        exact isLine_quoted (h p hp).name
    · exact ⟨isLine_ofList (by decide), isLine_ofList (by decide), isLine_ofList (by decide), hquoted⟩
  have hmode : ∀ f ∈ (changeModeMethod o ps).fragments, f.Plain := by
    apply tabulates_changeModeMethod.plain _ h
    · intro p hp e he
      obtain ⟨_, -, rfl⟩ := Option.map_eq_some_iff.mp he
      exact isLine_modeArray ho (h p hp).changeModes
    · exact ⟨isLine_ofList (by decide), isLine_ofList (by decide), isLine_ofList (by decide),
        isLine_ofList (by decide)⟩
  have haccess : ∀ f ∈ (accessMethod o ps).fragments, f.Plain := by
    apply tabulates_accessMethod.plain _ h
    · intro p hp e he
      obtain ⟨t, ht, rfl⟩ := Option.map_eq_some_iff.mp he
      exact isLine_qualified ho.accessClass ((h p hp).access t ht)
    · exact ⟨isLine_ofList (by decide), isLine_ofList (by decide), isLine_ofList (by decide),
        isLine_ofList (by decide)⟩
  simp only [methods, List.forall_mem_cons, List.not_mem_nil, false_implies, implies_true, and_true]
  exact ⟨hname, hmode, haccess⟩

theorem plain_constantsClass (ho : OptionsAreLines o) (hm : ModelIsLines m) :
    ∀ f ∈ (constantsClass o m).fragments, f.Plain := by
  have hconstants : ∀ c ∈ m.properties.map propertyConstant, IsLine c.name ∧ IsLine c.value := by
    rw [List.forall_mem_map]
    exact fun p hp => ⟨(hm.properties p hp).name, (hm.properties p hp).value⟩
  rw [constantsClass_eq]
  refine plain_class ho.className ?_
  rw [List.forall_mem_append, List.forall_mem_cons, List.forall_mem_append, List.forall_mem_map,
    List.forall_mem_map]
  exact ⟨plain_constantMember hconstants, plain_valueTypeMethod ho hm.properties,
    plain_methods ho hm.properties, fun e he => plain_enumerationClass (hm.enumerations e he)⟩

theorem plain_fragments_of_isLines (ho : OptionsAreLines o) (hm : ModelIsLines m) :
    ∀ f ∈ fragments o m, f.Plain := by
  have hlicense := License.plain_fragments { year := o.year } (isLine_ofList (by decide)) .slash
  have hsource : IsLine s!"Autogenerated from {o.sourceLabel}. Do not modify manually." := by
    have hparts : IsLine "Autogenerated from " ∧ IsLine ". Do not modify manually." :=
      ⟨isLine_ofList (by decide), isLine_ofList (by decide)⟩
    exact isLine_append (isLine_append hparts.1 ho.sourceLabel) hparts.2
  have hpackage : IsLine s!"package {o.package};" := by
    have hparts : IsLine "package " ∧ IsLine ";" := ⟨isLine_ofList (by decide), isLine_ofList (by decide)⟩
    exact isLine_append (isLine_append hparts.1 ho.package) hparts.2
  simp only [fragments, List.forall_mem_append, List.forall_mem_cons, List.not_mem_nil, false_implies,
    implies_true, and_true]
  exact ⟨⟨hlicense, .blank, .comment hsource, .blank, .line hpackage, .blank⟩, plain_constantsClass ho hm⟩

theorem plain_fragments (ho : OptionsAreLines o) (hm : BlankFreeModel m) : ∀ f ∈ fragments o m, f.Plain :=
  plain_fragments_of_isLines ho hm.isLines

end HalConstants.Java
