import HalConstants.Proofs.EnumDocument.ReadBack
import HalConstants.Proofs.Json.Printing

/-!
# The JSON forms of a model

A record is read from an object of its members or from an array of its fields in their order. A fact that is not
set is left out of the object and null in the array. Each record of a model may be in either form, whatever the
form of the records around it, and the model is read back.
-/

namespace HalConstants

open Json
open EnumDocument (pairFields)

variable {α β γ : Type} {depth : Nat} {first second : String} {v : Value}

/-! ## Forms -/

/-- A record of two fields in one of its forms. -/
inductive IsPair (first second : String) (a b : Value) : Value → Prop
  | object : IsPair first second a b (.object [(first, a), (second, b)])
  | fields : IsPair first second a b (.array [a, b])

/-- A record of a name and a list, in one of its forms, with each element in one of its own. -/
def IsNamedList (R : α → Value → Prop) (key name : String) (as : List α) (v : Value) : Prop :=
  ∃ vs, List.Forall₂ R as vs ∧ IsPair "name" key (.string name) (.array vs) v

/-- A fact as a field in its place, where it cannot be left out. -/
def orNull (fact : Option String) : Value := fact.elim .null .string

inductive Property.Shows (p : Property) : Value → Prop
  | object : Shows p p.toJson
  | fields : Shows p (.array [.string p.name, .string p.value, orNull p.valueType, orNull p.changeMode,
      orNull p.access, orNull p.unit, .bool p.isRangeMarker])

def Entry.Shows (e : Entry) (v : Value) : Prop := IsPair "name" "value" (.string e.name) (.string e.value) v

def Case.Shows (c : Case) (v : Value) : Prop :=
  IsPair "name" "value" (.string c.name) (.integer c.value.toInt) v

def Enumeration.Shows (e : Enumeration) (v : Value) : Prop :=
  IsNamedList Entry.Shows "entries" e.name e.entries v

def Group.Shows (g : Group) (v : Value) : Prop :=
  IsNamedList Case.Shows "cases" g.name g.cases v

/-- The three lists of a model in one of the forms of the record that holds them. -/
inductive Model.Shows (m : Model) : Value → Prop
  | object {ps es gs : List Value} (hps : List.Forall₂ Property.Shows m.properties ps)
      (hes : List.Forall₂ Enumeration.Shows m.enumerations es) (hgs : List.Forall₂ Group.Shows m.groups gs) :
      Shows m (.object [("properties", .array ps), ("enums", .array es), ("groups", .array gs)])
  | fields {ps es gs : List Value} (hps : List.Forall₂ Property.Shows m.properties ps)
      (hes : List.Forall₂ Enumeration.Shows m.enumerations es) (hgs : List.Forall₂ Group.Shows m.groups gs) :
      Shows m (.array [.array ps, .array es, .array gs])

/-! ## Reading values -/

theorem decode_string (depth : Nat) (s : String) : Decoder.string depth (Value.string s).scan = .ok s := by
  rw [Value.scan]
  rfl

theorem decode_int64 (depth : Nat) (i : Int64) : Decoder.int64 depth (Value.integer i.toInt).scan = .ok i := by
  rw [Value.scan, Decoder.int64, Text.int64?_toInt]
  rfl

theorem decode_bool (depth : Nat) (b : Bool) : Decoder.bool depth (Value.bool b).scan = .ok b := by
  rw [Value.scan]
  rfl

theorem decode_orNull (depth : Nat) (fact : Option String) :
    Decoder.option Decoder.string depth (orNull fact).scan = .ok fact := by
  unfold orNull
  cases fact with
  | none =>
      rw [Option.elim, Value.scan]
      rfl
  | some t =>
      rw [Option.elim, Value.scan]
      rfl

theorem decode_array {d : Decoder α} {R : α → Value → Prop} {as : List α} {vs : List Value}
    (hd : ∀ a v, R a v → d depth v.scan = .ok a) (h : List.Forall₂ R as vs) :
    Decoder.list d (depth + 1) (Value.array vs).scan = .ok as := by
  have hread : (vs.map Value.scan).mapM (d depth) = .ok as := by
    rw [mapM_eq_ok_iff, List.forall₂_map_left_iff]
    exact h.flip.imp fun v a hav => hd a v hav
  rw [Value.scan, Value.scanItems_eq_map, Decoder.list, hread]
  rfl

/-! ## Reading records -/

variable {σ : Type} {fields : List (Decoder.Field σ)} {f : Decoder.Field σ} {draft draft' : σ} {key : String}
variable {build : σ → Option α} {a : α} {vs : List Value} {ms : List (String × Value)}

theorem read_of {get : σ → Option α} {set : σ → α → σ} {d : Decoder α} (h : d depth v.scan = .ok a) :
    (Decoder.Field.of key get set d).read draft depth v.scan = .ok (set draft a) := by
  show (d depth v.scan).map (set draft) = _
  rw [h]
  rfl

theorem readMembers_cons (hfind : fields.find? (·.name == key) = some f) (hnew : f.isSet draft = false)
    (hread : f.read draft depth v.scan = .ok draft') :
    Decoder.readMembers fields depth draft (Value.scanMembers ((key, v) :: ms)) =
      Decoder.readMembers fields depth draft' (Value.scanMembers ms) := by
  rw [Value.scanMembers, Value.scanMember, Decoder.readMembers]
  simp only [bind, Except.bind, hfind, hnew, hread]
  rfl

/-- A fact that is left out leaves the draft as it was. -/
theorem readMembers_optional {get : σ → Option (Option String)} {set : σ → Option String → σ}
    (update : Option (Option String) → σ) (fact : Option String)
    (hfind : fields.find? (·.name == key) = some (.of key get set (.option .string)))
    (hnew : (get (update none)).isSome = false) (hset : ∀ x, set (update none) x = update (some x)) :
    Decoder.readMembers fields depth (update none)
        (Value.scanMembers (Property.optionalMember key fact ++ ms)) =
      Decoder.readMembers fields depth (update (fact.map some)) (Value.scanMembers ms) := by
  cases fact with
  | none => rfl
  | some t =>
      have hread : (Decoder.Field.of key get set (.option .string)).read (update none) depth
          (Value.string t).scan = .ok (update (some (some t))) := by
        rw [← hset]
        exact read_of (decode_orNull depth (some t))
      exact readMembers_cons hfind hnew hread

theorem readItems_cons (hread : f.read draft depth v.scan = .ok draft') :
    Decoder.readItems depth draft (f :: fields) (Value.scanItems (v :: vs)) =
      Decoder.readItems depth draft' fields (Value.scanItems vs) := by
  rw [Value.scanItems, Decoder.readItems, hread]
  rfl

theorem record_object (hread : Decoder.readMembers fields depth draft (Value.scanMembers ms) = .ok draft')
    (hbuild : build draft' = some a) :
    Decoder.record fields draft build (depth + 1) (Value.object ms).scan = .ok a := by
  rw [Value.scan, Decoder.record, hread]
  simp only [bind, Except.bind, Decoder.stopHere, hbuild]
  rfl

theorem record_array (hread : Decoder.readItems depth draft fields (Value.scanItems vs) = .ok draft')
    (hbuild : build draft' = some a) :
    Decoder.record fields draft build (depth + 1) (Value.array vs).scan = .ok a := by
  rw [Value.scan, Decoder.record, hread]
  simp only [bind, Except.bind, Decoder.stopHere, hbuild]
  rfl

theorem find?_pairFields {da : Decoder α} {db : Decoder β} (hne : first ≠ second) :
    (pairFields first second da db).find? (·.name == second) =
      some (.of second (fun d => d.2) (fun d b => (d.1, some b)) db) := by
  unfold pairFields
  refine Eq.trans (List.find?_cons_of_neg ?_) (List.find?_cons_of_pos (beq_self_eq_true second))
  show ¬ (first == second) = true
  simpa using hne

/-- **A pair is read** in either form. -/
theorem decode_pair {da : Decoder α} {db : Decoder β} {make : α → β → γ} {b : β} {va vb : Value}
    (hne : first ≠ second) (h : IsPair first second va vb v) (ha : da depth va.scan = .ok a)
    (hb : db depth vb.scan = .ok b) :
    pairDecoder first second da db make (depth + 1) v.scan = .ok (make a b) := by
  have hmake : (fun d : Option α × Option β => do some (make (← d.1) (← d.2))) (some a, some b) =
      some (make a b) := rfl
  show Decoder.record (pairFields first second da db) (none, none) _ (depth + 1) v.scan = _
  cases h with
  | object =>
      refine record_object ?_ hmake
      have hfirst : (pairFields first second da db).find? (·.name == first) =
          some (.of first (fun d => d.1) (fun d a => (some a, d.2)) da) :=
        List.find?_cons_of_pos (beq_self_eq_true first)
      refine Eq.trans (readMembers_cons hfirst rfl (read_of ha)) ?_
      exact readMembers_cons (find?_pairFields hne) rfl (read_of hb)
  | fields =>
      refine record_array ?_ hmake
      exact Eq.trans (readItems_cons (read_of ha)) (readItems_cons (read_of hb))

theorem decode_namedList {d : Decoder α} {R : α → Value → Prop} {make : String → List α → γ} {name : String}
    {as : List α} (hne : "name" ≠ key) (hd : ∀ a v, R a v → d (depth + 1) v.scan = .ok a)
    (h : IsNamedList R key name as v) :
    pairDecoder "name" key .string (.list d) make (depth + 3) v.scan = .ok (make name as) := by
  obtain ⟨vs, has, hpair⟩ := h
  exact decode_pair hne hpair (decode_string _ name) (decode_array hd has)

/-! ## Properties -/

theorem join_map_some (fact : Option String) : (fact.map some).join = fact := by
  cases fact <;> rfl

namespace Property

/-- The draft of a property that has been read from an object. -/
def Draft.of (p : Property) : Draft where
  name := some p.name
  value := some p.value
  valueType := p.valueType.map some
  changeMode := p.changeMode.map some
  access := p.access.map some
  unit := p.unit.map some
  isRangeMarker := some p.isRangeMarker

theorem Draft.build_of (p : Property) : (Draft.of p).build = some p := by
  simp [Draft.of, Draft.build, join_map_some]

/-- The facts are read one by one, and those that are not set are passed over. -/
theorem readMembers_toJson (depth : Nat) (p : Property) :
    Decoder.readMembers Draft.fields depth {} (Value.scanMembers
      ([("name", .string p.name), ("value", .string p.value)] ++ optionalMember "value_type" p.valueType ++
        optionalMember "change_mode" p.changeMode ++ optionalMember "access" p.access ++
        optionalMember "unit" p.unit ++ [("is_range_marker", .bool p.isRangeMarker)])) =
      .ok (Draft.of p) := by
  simp only [List.append_assoc, List.cons_append, List.nil_append]
  let unmarked : Draft := { Draft.of p with isRangeMarker := none }
  refine Eq.trans (readMembers_cons rfl rfl (read_of (decode_string depth p.name))) ?_
  refine Eq.trans (readMembers_cons rfl rfl (read_of (decode_string depth p.value))) ?_
  -- each draft holds the facts up to its own
  refine Eq.trans (readMembers_optional
    (fun x => { unmarked with valueType := x, changeMode := none, access := none, unit := none })
    p.valueType rfl rfl fun _ => rfl) ?_
  refine Eq.trans (readMembers_optional
    (fun x => { unmarked with changeMode := x, access := none, unit := none })
    p.changeMode rfl rfl fun _ => rfl) ?_
  refine Eq.trans (readMembers_optional
    (fun x => { unmarked with access := x, unit := none }) p.access rfl rfl fun _ => rfl) ?_
  refine Eq.trans (readMembers_optional (fun x => { unmarked with unit := x }) p.unit rfl rfl fun _ => rfl) ?_
  exact readMembers_cons rfl rfl (read_of (decode_bool depth p.isRangeMarker))

theorem readItems_fields (depth : Nat) (p : Property) :
    Decoder.readItems depth {} Draft.fields (Value.scanItems [.string p.name, .string p.value,
      orNull p.valueType, orNull p.changeMode, orNull p.access, orNull p.unit, .bool p.isRangeMarker]) =
      .ok ⟨some p.name, some p.value, some p.valueType, some p.changeMode, some p.access, some p.unit,
        some p.isRangeMarker⟩ := by
  refine Eq.trans (readItems_cons (read_of (decode_string depth p.name))) ?_
  refine Eq.trans (readItems_cons (read_of (decode_string depth p.value))) ?_
  refine Eq.trans (readItems_cons (read_of (decode_orNull depth p.valueType))) ?_
  refine Eq.trans (readItems_cons (read_of (decode_orNull depth p.changeMode))) ?_
  refine Eq.trans (readItems_cons (read_of (decode_orNull depth p.access))) ?_
  refine Eq.trans (readItems_cons (read_of (decode_orNull depth p.unit))) ?_
  exact readItems_cons (read_of (decode_bool depth p.isRangeMarker))

theorem decode_of_shows {p : Property} (h : p.Shows v) : Property.decoder (depth + 1) v.scan = .ok p := by
  unfold Property.decoder
  cases h with
  | object => exact record_object (readMembers_toJson depth p) (Draft.build_of p)
  | fields => exact record_array (readItems_fields depth p) rfl

end Property

/-! ## Enumerations and groups -/

theorem Entry.decode_of_shows {e : Entry} (h : e.Shows v) : Entry.decoder (depth + 1) v.scan = .ok e :=
  decode_pair (by decide) h (decode_string depth e.name) (decode_string depth e.value)

theorem Case.decode_of_shows {c : Case} (h : c.Shows v) : Case.decoder (depth + 1) v.scan = .ok c :=
  decode_pair (by decide) h (decode_string depth c.name) (decode_int64 depth c.value)

theorem Enumeration.decode_of_shows {e : Enumeration} (h : e.Shows v) :
    Enumeration.decoder (depth + 3) v.scan = .ok e :=
  decode_namedList (by decide) (fun _ _ => Entry.decode_of_shows) h

theorem Group.decode_of_shows {g : Group} (h : g.Shows v) : Group.decoder (depth + 3) v.scan = .ok g :=
  decode_namedList (by decide) (fun _ _ => Case.decode_of_shows) h

theorem forall₂_map_of_forall {R : α → Value → Prop} {toJson : α → Value} (h : ∀ a, R a (toJson a))
    (as : List α) : List.Forall₂ R as (as.map toJson) := by
  rw [List.forall₂_map_right_iff, List.forall₂_same]
  exact fun a _ => h a

theorem Enumeration.shows_toJson (e : Enumeration) : e.Shows e.toJson :=
  ⟨_, forall₂_map_of_forall (fun _ => .object) e.entries, .object⟩

theorem Group.shows_toJson (g : Group) : g.Shows g.toJson :=
  ⟨_, forall₂_map_of_forall (fun _ => .object) g.cases, .object⟩

/-! ## Ranges -/

theorem inRange_array {R : α → Value → Prop} {as : List α} (hR : ∀ a v, R a v → v.InRange)
    (h : List.Forall₂ R as vs) : (Value.array vs).InRange := by
  refine .array fun v hv => ?_
  obtain ⟨a, -, hav⟩ := exists_of_mem_of_forall₂ h hv
  exact hR a v hav

theorem IsPair.inRange {va vb : Value} (h : IsPair first second va vb v) (ha : va.InRange) (hb : vb.InRange) :
    v.InRange := by
  cases h with
  | object => exact .object (List.forall_mem_cons.mpr ⟨ha, List.forall_mem_singleton.mpr hb⟩)
  | fields => exact .array (List.forall_mem_cons.mpr ⟨ha, List.forall_mem_singleton.mpr hb⟩)

theorem IsNamedList.inRange {R : α → Value → Prop} {name : String} {as : List α}
    (hR : ∀ a v, R a v → v.InRange) (h : IsNamedList R key name as v) : v.InRange := by
  obtain ⟨vs, has, hpair⟩ := h
  exact hpair.inRange .string (inRange_array hR has)

theorem inRange_orNull (fact : Option String) : (orNull fact).InRange := by
  unfold orNull
  cases fact with
  | none => exact .null
  | some t => exact .string

theorem inRange_optionalMember (key : String) (fact : Option String) :
    ∀ m ∈ Property.optionalMember key fact, m.2.InRange := by
  unfold Property.optionalMember
  rw [List.forall_mem_map]
  exact fun t _ => .string

theorem Property.inRange_of_shows {p : Property} (h : p.Shows v) : v.InRange := by
  cases h with
  | object =>
      refine .object ?_
      simp only [List.forall_mem_append, List.forall_mem_cons, List.not_mem_nil, false_implies, implies_true,
        and_true]
      exact ⟨⟨⟨⟨⟨⟨.string, .string⟩, inRange_optionalMember _ _⟩, inRange_optionalMember _ _⟩,
        inRange_optionalMember _ _⟩, inRange_optionalMember _ _⟩, .bool⟩
  | fields =>
      refine .array ?_
      simp only [List.forall_mem_cons, List.not_mem_nil, false_implies, implies_true, and_true]
      exact ⟨.string, .string, inRange_orNull _, inRange_orNull _, inRange_orNull _, inRange_orNull _, .bool⟩

theorem Enumeration.inRange_of_shows {e : Enumeration} (h : e.Shows v) : v.InRange := by
  have hentry (entry : Entry) (v : Value) (h : entry.Shows v) : v.InRange := IsPair.inRange h .string .string
  exact IsNamedList.inRange hentry h

theorem Group.inRange_of_shows {g : Group} (h : g.Shows v) : v.InRange := by
  have hcase (c : Case) (v : Value) (h : c.Shows v) : v.InRange :=
    IsPair.inRange h .string (Value.inRange_int64 c.value)
  exact IsNamedList.inRange hcase h

/-! ## Models -/

namespace Model

theorem decode_of_shows {m : Model} (h : m.Shows v) : Model.decoder (depth + 5) v.scan = .ok m := by
  have hproperty (p : Property) (v : Value) (h : p.Shows v) : Property.decoder (depth + 3) v.scan = .ok p :=
    Property.decode_of_shows h
  have henumeration (e : Enumeration) (v : Value) (h : e.Shows v) :
      Enumeration.decoder (depth + 3) v.scan = .ok e := Enumeration.decode_of_shows h
  have hgroup (g : Group) (v : Value) (h : g.Shows v) : Group.decoder (depth + 3) v.scan = .ok g :=
    Group.decode_of_shows h
  have hbuild : Draft.build ⟨some m.properties, some m.enumerations, some m.groups⟩ = some m := rfl
  unfold Model.decoder
  cases h with
  | object hps hes hgs =>
      refine record_object ?_ hbuild
      refine Eq.trans (readMembers_cons rfl rfl (read_of (decode_array hproperty hps))) ?_
      refine Eq.trans (readMembers_cons rfl rfl (read_of (decode_array henumeration hes))) ?_
      exact readMembers_cons rfl rfl (read_of (decode_array hgroup hgs))
  | fields hps hes hgs =>
      refine record_array ?_ hbuild
      refine Eq.trans (readItems_cons (read_of (decode_array hproperty hps))) ?_
      refine Eq.trans (readItems_cons (read_of (decode_array henumeration hes))) ?_
      exact readItems_cons (read_of (decode_array hgroup hgs))

/-! ## What is written -/

theorem shows_toJson (m : Model) : m.Shows m.toJson :=
  .object (forall₂_map_of_forall (fun _ => .object) m.properties)
    (forall₂_map_of_forall Enumeration.shows_toJson m.enumerations)
    (forall₂_map_of_forall Group.shows_toJson m.groups)

theorem inRange_of_shows {m : Model} (h : m.Shows v) : v.InRange := by
  have hproperties {vs : List Value} (h : List.Forall₂ Property.Shows m.properties vs) :
      (Value.array vs).InRange := inRange_array (fun _ _ => Property.inRange_of_shows) h
  have henumerations {vs : List Value} (h : List.Forall₂ Enumeration.Shows m.enumerations vs) :
      (Value.array vs).InRange := inRange_array (fun _ _ => Enumeration.inRange_of_shows) h
  have hgroups {vs : List Value} (h : List.Forall₂ Group.Shows m.groups vs) : (Value.array vs).InRange :=
    inRange_array (fun _ _ => Group.inRange_of_shows) h
  cases h with
  | object hps hes hgs =>
      refine .object ?_
      simp only [List.forall_mem_cons, List.not_mem_nil, false_implies, implies_true, and_true]
      exact ⟨hproperties hps, henumerations hes, hgroups hgs⟩
  | fields hps hes hgs =>
      refine .array ?_
      simp only [List.forall_mem_cons, List.not_mem_nil, false_implies, implies_true, and_true]
      exact ⟨hproperties hps, henumerations hes, hgroups hgs⟩

theorem decode_of_spells {m : Model} {cs : List Char} (h : m.Shows v) (hspells : Spells (.value v.scan) cs) :
    Model.decoder.decode cs = .ok m := by
  have hread : Model.decoder maxDepth v.scan = .ok m := decode_of_shows h
  exact decode_eq_ok_of_spells hspells hread

/-- **A model is read back from what is written of it**, whatever it holds, from its own text and from every
text of a value that shows it, with each record as an object or as an array of its fields. -/
theorem reads_back (m : Model) :
    Model.decoder.decode m.toJson.print.toList = .ok m ∧
    ∀ v, m.Shows v →
      Model.decoder.decode v.print.toList = .ok m ∧
      ∀ cs, Spells (.value v.scan) cs → Model.decoder.decode cs = .ok m := by
  have hprint {v : Value} (h : m.Shows v) : Model.decoder.decode v.print.toList = .ok m :=
    decode_of_spells h (Value.spells_print (inRange_of_shows h))
  exact ⟨hprint m.shows_toJson, fun v h => ⟨hprint h, fun cs => decode_of_spells h⟩⟩

/-- Strings to escape, the least and the greatest value, and facts that are and are not set. -/
def mixed : Model where
  properties := [{ name := "\"\\\n", value := "", unit := some "\x01" }, { name := "é", value := "1" }]
  enumerations := [⟨"e", []⟩]
  groups := [⟨"g", [⟨"A", Int64.minValue⟩, ⟨"B", Int64.maxValue⟩]⟩]

/-- Records as objects and as arrays, one in the other. -/
def mixedForms : Value :=
  .array [.array [.array [.string "\"\\\n", .string "", .null, .null, .null, .string "\x01", .bool false],
      .object [("name", .string "é"), ("value", .string "1"), ("is_range_marker", .bool false)]],
    .array [.object [("name", .string "e"), ("entries", .array [])]],
    .array [.array [.string "g",
      .array [.object [("name", .string "A"), ("value", .integer (-0x8000000000000000))],
        .array [.string "B", .integer 0x7fffffffffffffff]]]]]

theorem reads_back_mixed : mixed.Shows mixedForms ∧
    Model.decoder.decode mixedForms.print.toList = .ok mixed ∧
    ∃ cs, Spells (.value mixedForms.scan) cs ∧ Model.decoder.decode cs = .ok mixed := by
  have hproperties : List.Forall₂ Property.Shows mixed.properties
      [.array [.string "\"\\\n", .string "", .null, .null, .null, .string "\x01", .bool false],
        .object [("name", .string "é"), ("value", .string "1"), ("is_range_marker", .bool false)]] :=
    .cons .fields (.cons .object .nil)
  have hcases : List.Forall₂ Case.Shows [⟨"A", Int64.minValue⟩, ⟨"B", Int64.maxValue⟩]
      [.object [("name", .string "A"), ("value", .integer (-0x8000000000000000))],
        .array [.string "B", .integer 0x7fffffffffffffff]] := .cons .object (.cons .fields .nil)
  have hshows : mixed.Shows mixedForms :=
    .fields hproperties (.cons ⟨[], .nil, .object⟩ .nil) (.cons ⟨_, hcases, .fields⟩ .nil)
  have hspells := Value.spells_print (inRange_of_shows hshows)
  obtain ⟨-, hforms⟩ := reads_back mixed
  obtain ⟨hprint, htexts⟩ := hforms mixedForms hshows
  exact ⟨hshows, hprint, _, hspells, htexts _ hspells⟩

end Model

end HalConstants
