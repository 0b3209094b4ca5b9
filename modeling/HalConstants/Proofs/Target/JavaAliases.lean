import HalConstants.Proofs.Code.Steps
import HalConstants.Proofs.Model.FirstValues
import HalConstants.Proofs.Target.JavaLines

/-!
# Aliases in the nested classes

Entries of an enumeration that share a value text are aliases. The nested class declares them all, but a
`switch` with two equal labels does not compile, so `enumToString` has a case for the first entry of each
value text only. The rows of the class say so without the filter: they name the first entries by position.
A document has these rows for each of its enumerations.
-/

namespace HalConstants.Java

/-- The entries whose value text no earlier entry has. -/
def firstEntries (e : Enumeration) : List Entry := (firstPositions Entry.value e.entries).map e.entries.get

def constantRow (entry : Entry) : Row :=
  .code 1 ("public static final int " ++ entry.name ++ " = " ++ entry.value ++ ";")

def caseRow (entry : Entry) : Row :=
  .code 3 ("case " ++ entry.name ++ ": return " ++ quoted entry.name ++ ";")

/-- The rows of the nested class of an enumeration. -/
def nestedRows (e : Enumeration) : List Row :=
  [.code 0 ("public static class " ++ typeName e.name ++ " \x7b")] ++
    e.entries.map constantRow ++ (if e.entries = [] then [] else [.blank]) ++
    [.code 1 "public static String enumToString(int v) \x7b", .code 2 "switch (v) \x7b"] ++
    (firstEntries e).map caseRow ++
    [.code 3 "default: return \"UNKNOWN\";", .code 2 "\x7d", .code 1 "\x7d", .code 0 "\x7d"]

/-- The nested classes of a document, each behind a blank line. -/
def nestedText (es : List Enumeration) : String :=
  String.join (es.map fun e => "\n" ++ Row.printAll layout 1 (nestedRows e))

theorem withoutAliases_eq (e : Enumeration) : e.withoutAliases = firstEntries e := firsts_eq_map

/-! ## The rows of the class -/

theorem rows_cases (e : Enumeration) :
    Fragment.rowsOfAll 3 ((enumToStringMethod e).cases.map fun c =>
      .line s!"case {c.1}: return {c.2};") = (firstEntries e).map caseRow := by
  unfold enumToStringMethod
  rw [Fragment.rowsOfAll_map_line, withoutAliases_eq, List.map_map]
  rfl

theorem rows_enumToStringMethod (e : Enumeration) :
    Fragment.rowsOfAll 1 (enumToStringMethod e).fragments =
      [.code 1 "public static String enumToString(int v) \x7b", .code 2 "switch (v) \x7b"] ++
        (firstEntries e).map caseRow ++
        [.code 3 "default: return \"UNKNOWN\";", .code 2 "\x7d", .code 1 "\x7d"] := by
  have hheader : "public static " ++ "String" ++ " " ++ "enumToString" ++ "(int " ++ "v" ++ ") \x7b" =
      "public static String enumToString(int v) \x7b" := rfl
  have hswitch : "switch (" ++ "v" ++ ") \x7b" = "switch (v) \x7b" := rfl
  have hdefault : "default: return " ++ quoted "UNKNOWN" ++ ";" = "default: return \"UNKNOWN\";" := rfl
  unfold Switch.fragments
  simp only [Fragment.rowsOfAll, Fragment.rows, Fragment.rowsOfAll_append, List.append_nil]
  rw [rows_cases, ← hheader, ← hswitch, ← hdefault]
  simp only [List.cons_append, List.nil_append, List.append_assoc]
  rfl

theorem rows_class (c : Class) : Fragment.rowsOfAll 0 c.fragments =
    .code 0 (classHeader c.nested c.name) :: Fragment.rowsOfAll 1 ([Fragment.blank].intercalate c.members) ++
      [.code 0 "\x7d"] := by
  unfold Class.fragments
  simp only [Fragment.rowsOfAll, Fragment.rows, List.append_nil]
  rfl

/-- Constants are followed by a blank line, but no constants leave none. -/
theorem rows_members (cs : List Constant) (fs : List Fragment) :
    Fragment.rowsOfAll 1 ([Fragment.blank].intercalate (constantMember cs ++ [fs])) =
      cs.map (fun c => .code 1 s!"public static final int {c.name} = {c.value};") ++
        (if cs = [] then [] else [.blank]) ++ Fragment.rowsOfAll 1 fs := by
  unfold constantMember
  by_cases h : cs = []
  · rw [h, List.isEmpty_nil, if_pos rfl, if_pos rfl, List.nil_append, List.intercalate_singleton]
    rfl
  · rw [if_neg fun hempty => h (List.isEmpty_iff.mp hempty), if_neg h, List.singleton_append,
      List.intercalate_cons_cons, List.intercalate_singleton, Fragment.rowsOfAll_append,
      Fragment.rowsOfAll_append]
    unfold Constant.fragment
    rw [Fragment.rowsOfAll_map_line]
    rfl

/-- **The nested class** declares all entries, but its method names the first ones only. -/
theorem rows_enumerationClass (e : Enumeration) :
    Fragment.rowsOfAll 0 (enumerationClass e).fragments = nestedRows e := by
  have hheader : classHeader true (typeName e.name) = "public static class " ++ typeName e.name ++ " \x7b" := by
    have hmodifiers : "public static class" ++ " " = "public static class " := rfl
    rw [← hmodifiers]
    rfl
  rw [enumerationClass_eq, rows_class, rows_members, rows_enumToStringMethod, List.map_map, hheader]
  unfold nestedRows
  simp only [List.map_eq_nil_iff, List.cons_append, List.nil_append, List.append_assoc]
  rfl

/-! ## Rendering -/

theorem nestedText_cons (e : Enumeration) (es : List Enumeration) :
    nestedText (e :: es) = "\n" ++ Row.printAll layout 1 (nestedRows e) ++ nestedText es := by
  unfold nestedText
  rw [List.map_cons, String.join_cons]

theorem nestedText_append (es fs : List Enumeration) : nestedText (es ++ fs) = nestedText es ++ nestedText fs := by
  unfold nestedText
  rw [List.map_append, String.join_append]

theorem unlines_enumerationLines (e : Enumeration) :
    unlines (enumerationLines e) = Row.printAll layout 1 (nestedRows e) := by
  rw [← linesOfAll_enumerationClass, ← rows_enumerationClass]
  exact unlines_linesOfAll 0 _

theorem unlines_nested (es : List Enumeration) :
    unlines (es.flatMap ("" :: enumerationLines ·)) = nestedText es := by
  induction es with
  | nil => rfl
  | cons e es ih =>
      have hblank : unlines [""] = "\n" := rfl
      rw [List.flatMap_cons, ← List.singleton_append, unlines_append, unlines_append, ih,
        unlines_enumerationLines, hblank, nestedText_cons]

/-- **A document ends in its nested classes**, in order. The text in front of them does not depend on them. -/
theorem text_document (o : Options) (m : Model) : ∃ front, ∀ es,
    (document o { m with enumerations := es }).text = front ++ nestedText es ++ "\x7d\n" := by
  have hclose : unlines [layout.margin 0 ++ "\x7d"] = "\x7d\n" := rfl
  refine ⟨unlines (front o ++ (constantLines 1 (m.properties.map propertyConstant) ++
    switchLines 1 (valueTypeMethod o m.properties) ++
    (methods o m.properties).flatMap ("" :: switchLines 1 ·))), fun es => ?_⟩
  show layout.render (fragments o { m with enumerations := es }) = _
  rw [Layout.render_eq, linesOfAll_fragments, memberLines, unlines_append, ← List.append_assoc,
    unlines_append, unlines_nested, hclose]

/-- **Aliases are declared but not looked up**, wherever the enumeration stands in a document. -/
theorem nested_class_of_aliases (e : Enumeration) :
    e.withoutAliases = (firstPositions Entry.value e.entries).map e.entries.get ∧
    e.withoutAliases.Sublist e.entries ∧
    (e.withoutAliases.map Entry.value).Nodup ∧
    (∀ v, v ∈ e.withoutAliases.map Entry.value ↔ v ∈ e.entries.map Entry.value) ∧
    (∀ v, e.withoutAliases.filter (·.value == v) = (e.entries.find? (·.value == v)).toList) ∧
    e.withoutAliases.length = distinctNames Entry.value e.entries ∧
    (∀ entry, (e.push entry).withoutAliases =
      if entry.value ∈ e.entries.map Entry.value then e.withoutAliases else e.withoutAliases ++ [entry]) ∧
    (∀ b : Builder, b.emit (enumerationClass e).fragments =
      { b with text := b.text ++ Row.printAll b.layout b.level (nestedRows e) }) ∧
    ∀ (o : Options) (m : Model), ∃ front, ∀ es fs : List Enumeration,
      (document o { m with enumerations := es ++ e :: fs }).text =
        front ++ nestedText es ++ "\n" ++ Row.printAll layout 1 (nestedRows e) ++ nestedText fs ++ "\x7d\n" := by
  refine ⟨firsts_eq_map, firstsAfter_sublist Entry.value [] e.entries, nodup_map_firsts,
    fun v => mem_map_firsts, fun v => filter_firsts, length_firsts, fun entry => firsts_append_singleton, ?_, ?_⟩
  · intro b
    rw [Builder.emit_eq_rows, rows_enumerationClass]
  · intro o m
    obtain ⟨front, htext⟩ := text_document o m
    refine ⟨front, fun es fs => ?_⟩
    rw [htext, nestedText_append, nestedText_cons]
    simp only [String.append_assoc]

example : (Enumeration.mk "e" [⟨"A", "1"⟩, ⟨"B", "0x1"⟩, ⟨"C", "1"⟩]).withoutAliases =
    [⟨"A", "1"⟩, ⟨"B", "0x1"⟩] := rfl

end HalConstants.Java
