import HalConstants.EnumDocument.Resolve
import HalConstants.Proofs.Json.Spelling
import HalConstants.Proofs.Traversal

/-!
# Reading back enum documents

`WritesDocument gs text` says that a JSON text lists the groups `gs` in order, every case value as an integer
or as a numeral in a string. Names and values may stand in either order and among members that the reader does
not know, and blanks, escapes and numerals may be written in any way. Every such text is read back as `gs`, if
no two groups have one name.
-/

namespace HalConstants.EnumDocument

open Json

variable {α β σ : Type} {depth : Nat} {v : Scan} {vs : List Scan} {ms : List (String × Scan)} {i : Int64}
variable {c : Case} {g : Group} {gs : List Group} {raws : List RawGroup} {seen : List String}
variable {first second path : String}

/-! ## Documents -/

/-- Members that state two values, in either order and among others. -/
def StatesPair (first second : String) (ms : List (String × Scan)) (a b : Scan) : Prop :=
  let stated := ms.filter fun m => first == m.1 || second == m.1
  stated = [(first, a), (second, b)] ∨ stated = [(second, b), (first, a)]

theorem StatesPair.ordered {a b : Scan} : StatesPair first second [(first, a), (second, b)] a b :=
  .inl (by simp)

theorem StatesPair.swapped {a b : Scan} : StatesPair first second [(second, b), (first, a)] a b :=
  .inr (by simp)

inductive ShowsNumber (i : Int64) : Scan → Prop
  | integer : ShowsNumber i (.number (.ok (.integer i.toInt)))
  | text {s : String} (h : Text.WritesNumber i s.toList) : ShowsNumber i (.string (.ok s))

inductive ShowsCase (c : Case) : Scan → Prop
  | mk {ms : List (String × Scan)} {value : Scan} (hvalue : ShowsNumber c.value value)
      (h : StatesPair "name" "value" ms (.string (.ok c.name)) value) : ShowsCase c (.object (keyed ms) none)

/-- The cases may be left out if there are none. -/
inductive ShowsGroup (g : Group) : Scan → Prop
  | listed {ms : List (String × Scan)} {vs : List Scan} (hcases : List.Forall₂ ShowsCase g.cases vs)
      (h : StatesPair "name" "cases" ms (.string (.ok g.name)) (.array vs none)) :
      ShowsGroup g (.object (keyed ms) none)
  | empty {ms : List (String × Scan)} (hcases : g.cases = [])
      (h : (ms.filter fun m => "name" == m.1 || "cases" == m.1) = [("name", .string (.ok g.name))]) :
      ShowsGroup g (.object (keyed ms) none)

inductive ShowsGroups (gs : List Group) : Scan → Prop
  | mk {ms : List (String × Scan)} {vs : List Scan} (hgroups : List.Forall₂ ShowsGroup gs vs)
      (h : (ms.filter fun m => "enums" == m.1) = [("enums", .array vs none)]) :
      ShowsGroups gs (.object (keyed ms) none)

inductive WritesDocument (gs : List Group) : List Char → Prop
  | mk {v : Scan} {b cs b' : List Char} (hb : ∀ c ∈ b, IsJsonBlank c) (h : Spells (.value v) cs)
      (hb' : ∀ c ∈ b', IsJsonBlank c) (hgroups : ShowsGroups gs v) : WritesDocument gs (b ++ (cs ++ b'))

/-! ## Records -/

/-- Members that are no fields of a record are skipped. -/
theorem readMembers_filter (fields : List (Decoder.Field σ)) (depth : Nat) (draft : σ)
    (hskip : ∀ m ∈ ms, m.2.skipFault = none) :
    Decoder.readMembers fields depth draft (keyed ms) =
      Decoder.readMembers fields depth draft (keyed (ms.filter fun m => fields.any (·.name == m.1))) := by
  induction ms generalizing draft with
  | nil => rfl
  | cons m ms ih =>
      rw [List.forall_mem_cons] at hskip
      have hkeyed : keyed (m :: ms) = (.ok m.1, m.2) :: keyed ms := rfl
      rw [hkeyed, Decoder.readMembers]
      cases hfind : fields.find? (·.name == m.1) with
      | none =>
          have hany : fields.any (·.name == m.1) = false := by
            simpa using List.find?_eq_none.mp hfind
          rw [List.filter_cons_of_neg (by simp [hany])]
          simp only [bind, Except.bind, hfind, hskip.1]
          exact ih draft hskip.2
      | some f =>
          have hname := List.find?_some hfind
          have hany : fields.any (·.name == m.1) :=
            List.any_eq_true.mpr ⟨f, List.mem_of_find?_eq_some hfind, hname⟩
          have hkept : keyed ((m :: ms).filter fun m => fields.any (·.name == m.1)) =
              (.ok m.1, m.2) :: keyed (ms.filter fun m => fields.any (·.name == m.1)) := by
            simp [keyed, hany]
          rw [hkept, Decoder.readMembers]
          simp only [bind, Except.bind, hfind, ih _ hskip.2]

/-- The fields of a record of two. -/
def pairFields (first second : String) (da : Decoder α) (db : Decoder β) :
    List (Decoder.Field (Option α × Option β)) :=
  [.of first (·.1) (fun d a => (some a, d.2)) da, .of second (·.2) (fun d b => (d.1, some b)) db]

theorem readMembers_pairFields {da : Decoder α} {db : Decoder β} (draft : Option α × Option β)
    (hskip : ∀ m ∈ ms, m.2.skipFault = none) :
    Decoder.readMembers (pairFields first second da db) depth draft (keyed ms) =
      Decoder.readMembers (pairFields first second da db) depth draft
        (keyed (ms.filter fun m => first == m.1 || second == m.1)) := by
  have hfields : ∀ x : String, (pairFields first second da db).any (·.name == x) =
      (first == x || second == x) := by
    intro x
    simp [pairFields, Decoder.Field.of]
  rw [readMembers_filter _ depth _ hskip]
  simp only [hfields]

theorem readMembers_pair {da : Decoder α} {db : Decoder β} {va vb : Scan} {a : α} {b : β}
    (hne : first ≠ second) (hskip : ∀ m ∈ ms, m.2.skipFault = none) (h : StatesPair first second ms va vb)
    (ha : da depth va = .ok a) (hb : db depth vb = .ok b) :
    Decoder.readMembers (pairFields first second da db) depth (none, none) (keyed ms) =
      .ok (some a, some b) := by
  rw [readMembers_pairFields _ hskip]
  rcases h with h | h
  all_goals
    rw [h]
    simp [keyed, Decoder.readMembers, pairFields, Decoder.Field.of, hne, ha, hb, bind, Except.bind,
      Except.map]

theorem pairDecoder_object {γ : Type} {da : Decoder α} {db : Decoder β} {make : α → β → γ}
    {va vb : Scan} {a : α} {b : β} (hne : first ≠ second) (hskip : ∀ m ∈ ms, m.2.skipFault = none)
    (h : StatesPair first second ms va vb) (ha : da depth va = .ok a) (hb : db depth vb = .ok b) :
    pairDecoder first second da db make (depth + 1) (.object (keyed ms) none) = .ok (make a b) := by
  have hread := readMembers_pair hne hskip h ha hb
  rw [pairFields] at hread
  rw [pairDecoder, Decoder.record, hread]
  rfl

/-! ## Values -/

theorem decode_number (depth : Nat) (h : ShowsNumber i v) :
    ∃ raw, RawValue.decoder depth v = .ok raw ∧ raw.resolve? = some i := by
  cases h with
  | integer =>
      refine ⟨.integer i, ?_, rfl⟩
      rw [RawValue.decoder, Text.int64?_toInt]
      rfl
  | @text s h => exact ⟨.text s, rfl, Text.readInt64?_of_writesNumber h⟩

/-- The raw case resolves to the case. -/
def Resolves (raw : RawCase) (c : Case) : Prop := raw.name = c.name ∧ raw.value.resolve? = some c.value

def ResolvesGroup (raw : RawGroup) (g : Group) : Prop :=
  raw.name = g.name ∧ List.Forall₂ Resolves raw.cases g.cases

theorem decode_case (depth : Nat) (h : ShowsCase c v) (hskip : v.skipFault = none) :
    ∃ raw, RawCase.decoder (depth + 1) v = .ok raw ∧ Resolves raw c := by
  cases h with
  | mk hvalue h =>
      obtain ⟨raw, hraw, hresolve⟩ := decode_number depth hvalue
      exact ⟨⟨c.name, raw⟩, pairDecoder_object (by decide) (skipFault_object_eq_none_iff.mp hskip) h rfl hraw,
        rfl, hresolve⟩

theorem mapM_decode {R : α → Scan → Prop} {S : β → α → Prop} {d : Decoder β} {as : List α}
    (hd : ∀ a v, R a v → v.skipFault = none → ∃ b, d depth v = .ok b ∧ S b a) (h : List.Forall₂ R as vs)
    (hskip : ∀ v ∈ vs, v.skipFault = none) : ∃ bs, vs.mapM (d depth) = .ok bs ∧ List.Forall₂ S bs as := by
  induction h with
  | nil => exact ⟨[], rfl, .nil⟩
  | @cons a v as vs hav _ ih =>
      rw [List.forall_mem_cons] at hskip
      obtain ⟨b, hb, hab⟩ := hd a v hav hskip.1
      obtain ⟨bs, hbs, habs⟩ := ih hskip.2
      refine ⟨b :: bs, ?_, .cons hab habs⟩
      rw [List.mapM_cons, hb, hbs]
      rfl

theorem decode_list {R : α → Scan → Prop} {S : β → α → Prop} {d : Decoder β} {as : List α}
    (hd : ∀ a v, R a v → v.skipFault = none → ∃ b, d depth v = .ok b ∧ S b a) (h : List.Forall₂ R as vs)
    (hskip : (Scan.array vs none).skipFault = none) :
    ∃ bs, Decoder.list d (depth + 1) (.array vs none) = .ok bs ∧ List.Forall₂ S bs as := by
  obtain ⟨bs, hbs, habs⟩ := mapM_decode hd h (skipFault_array_eq_none_iff.mp hskip)
  refine ⟨bs, ?_, habs⟩
  rw [Decoder.list, hbs]
  rfl

/-- A member that an object states is skipped without fault when the object is. -/
theorem skipFault_of_statesPair {a b : Scan} (h : StatesPair first second ms a b)
    (hskip : ∀ m ∈ ms, m.2.skipFault = none) : b.skipFault = none := by
  have hmem : (second, b) ∈ ms.filter fun m => first == m.1 || second == m.1 := by
    rcases h with h | h <;> simp [h]
  exact hskip _ (List.mem_of_mem_filter hmem)

theorem decode_group (depth : Nat) (h : ShowsGroup g v) (hskip : v.skipFault = none) :
    ∃ raw, RawGroup.decoder (depth + 3) v = .ok raw ∧ ResolvesGroup raw g := by
  cases h with
  | @listed ms vs hcases h =>
      have hmembers := skipFault_object_eq_none_iff.mp hskip
      obtain ⟨raws, hraws, hresolve⟩ :=
        decode_list (R := ShowsCase) (fun _ _ => decode_case depth) hcases
          (skipFault_of_statesPair h hmembers)
      have hname : Decoder.string (depth + 2) (.string (.ok g.name)) = .ok g.name := rfl
      have hread := readMembers_pair (by decide) hmembers h hname hraws
      refine ⟨⟨g.name, raws⟩, ?_, rfl, hresolve⟩
      rw [pairFields] at hread
      rw [RawGroup.decoder, Decoder.record, hread]
      rfl
  | @empty ms hcases h =>
      have hread : Decoder.readMembers
          (pairFields "name" "cases" Decoder.string (Decoder.list RawCase.decoder)) (depth + 2) (none, none)
          (keyed ms) = .ok (some g.name, none) := by
        rw [readMembers_pairFields _ (skipFault_object_eq_none_iff.mp hskip), h]
        rfl
      refine ⟨⟨g.name, []⟩, ?_, rfl, hcases ▸ .nil⟩
      rw [pairFields] at hread
      rw [RawGroup.decoder, Decoder.record, hread]
      rfl

theorem decode_groups (depth : Nat) (h : ShowsGroups gs v) (hskip : v.skipFault = none) :
    ∃ raws, decoder (depth + 5) v = .ok raws ∧ List.Forall₂ ResolvesGroup raws gs := by
  cases h with
  | @mk ms vs hgroups h =>
      have hmembers := skipFault_object_eq_none_iff.mp hskip
      have hmem : ("enums", Scan.array vs none) ∈ ms.filter fun m => "enums" == m.1 := by simp [h]
      obtain ⟨raws, hraws, hresolve⟩ := decode_list (R := ShowsGroup) (fun _ _ => decode_group depth) hgroups
        (hmembers _ (List.mem_of_mem_filter hmem))
      refine ⟨raws, ?_, hresolve⟩
      have hread : Decoder.readMembers
          [.of "enums" id (fun _ groups => some groups) (.list RawGroup.decoder)] (depth + 4) none (keyed ms) =
            .ok (some raws) := by
        rw [readMembers_filter _ _ _ hmembers]
        simp only [Decoder.Field.of, List.any_cons, List.any_nil, Bool.or_false, h]
        simp only [keyed, List.map_cons, List.map_nil, Decoder.readMembers, bind, Except.bind,
          List.find?_cons_of_pos, beq_self_eq_true, id_eq, Option.isSome_none, hraws, Except.map]
        rfl
      rw [decoder, Decoder.record, hread]
      rfl

/-! ## Resolving -/

theorem mapM_resolveCase {raws : List RawCase} {cs : List Case} (group : String)
    (h : List.Forall₂ Resolves raws cs) : raws.mapM (resolveCase group) = .ok cs := by
  refine mapM_eq_ok_iff.mpr (h.imp ?_)
  rintro ⟨name, value⟩ ⟨name', value'⟩ ⟨hname, hvalue⟩
  obtain rfl : name = name' := hname
  rw [resolveCase, hvalue]

theorem resolveAfter_of_forall₂ (h : List.Forall₂ ResolvesGroup raws gs)
    (hnames : (gs.map (·.name)).Nodup) (hseen : ∀ g ∈ gs, g.name ∉ seen) :
    resolveAfter path seen raws = .ok gs := by
  induction h generalizing seen with
  | nil => rfl
  | @cons raw g raws gs hraw _ ih =>
      obtain ⟨name, cases⟩ := raw
      obtain ⟨rfl, hcases⟩ : name = g.name ∧ List.Forall₂ Resolves cases g.cases := hraw
      obtain ⟨hg, hnames⟩ := List.nodup_cons.mp hnames
      rw [List.forall_mem_cons] at hseen
      have hrest : ∀ g' ∈ gs, g'.name ∉ g.name :: seen := by
        intro g' hg'
        rw [List.mem_cons, not_or]
        refine ⟨?_, hseen.2 g' hg'⟩
        intro heq
        exact hg (List.mem_map.mpr ⟨g', hg', heq⟩)
      have hnew : seen.contains g.name = false := by
        simpa using hseen.1
      rw [resolveAfter, mapM_resolveCase g.name hcases]
      simp only [bind, Except.bind, hnew, ih hnames hrest]
      rfl

/-- The groups behind a resolved one are resolved behind its name, which was not there before. -/
theorem resolveAfter_cons_eq_ok {raw : RawGroup} (h : resolveAfter path seen (raw :: raws) = .ok gs) :
    ∃ cases more, raw.name ∉ seen ∧ resolveAfter path (raw.name :: seen) raws = .ok more ∧
      gs = ⟨raw.name, cases⟩ :: more := by
  rw [resolveAfter] at h
  obtain ⟨cases, -, h⟩ := bind_eq_ok_iff.mp h
  split at h
  · contradiction
  · rename_i hseen
    obtain ⟨more, hmore, h⟩ := bind_eq_ok_iff.mp h
    exact ⟨cases, more, by simpa using hseen, hmore, (Except.ok.inj h).symm⟩

theorem names_of_resolveAfter (h : resolveAfter path seen raws = .ok gs) :
    (gs.map (·.name)).Nodup ∧ ∀ g ∈ gs, g.name ∉ seen := by
  induction raws generalizing seen gs with
  | nil =>
      obtain rfl : [] = gs := Except.ok.inj h
      exact ⟨List.nodup_nil, List.forall_mem_nil _⟩
  | cons raw raws ih =>
      obtain ⟨cases, more, hnew, hmore, rfl⟩ := resolveAfter_cons_eq_ok h
      obtain ⟨hnodup, hseen⟩ := ih hmore
      have hfresh : raw.name ∉ more.map (·.name) := by
        intro hmem
        obtain ⟨g, hg, hname⟩ := List.mem_map.mp hmem
        exact hseen g hg (hname ▸ List.mem_cons_self)
      refine ⟨List.nodup_cons.mpr ⟨hfresh, hnodup⟩, List.forall_mem_cons.mpr ⟨hnew, ?_⟩⟩
      exact fun g hg hmem => hseen g hg (List.mem_cons_of_mem _ hmem)

/-- An accepted document names each group once. -/
theorem nodup_names_of_parse {content : String} (h : parse path content = .ok gs) :
    (gs.map (·.name)).Nodup := by
  obtain ⟨raws, -, hresolve⟩ := bind_eq_ok_iff.mp h
  exact (names_of_resolveAfter hresolve).1

/-- **Enum documents are read back**, whatever way they are written. -/
theorem parse_of_writesDocument {content : String} (h : WritesDocument gs content.toList)
    (hnames : (gs.map (·.name)).Nodup) : parse path content = .ok gs := by
  have hdecode : ∃ raws, decoder.decode content.toList = .ok raws ∧ List.Forall₂ ResolvesGroup raws gs := by
    generalize content.toList = text at h
    cases h with
    | mk hb hspells hb' hgroups =>
        obtain ⟨raws, hraws, hresolve⟩ := decode_groups 122 hgroups hspells.skips
        refine ⟨raws, ?_, hresolve⟩
        rw [Decoder.decode, ofText_of_spells hb hspells hb']
        simp only [maxDepth, hraws, bind, Except.bind]
        rfl
  obtain ⟨raws, hraws, hresolve⟩ := hdecode
  rw [parse, hraws]
  exact resolveAfter_of_forall₂ hresolve hnames (by simp)

/-- A document with the smallest number as a hexadecimal text, the largest as an integer, an escaped name,
members in both orders, and a member that the reader does not know. -/
def extremes : String :=
  "\x7b\"v\":1.5,\"enums\":[\x7b\"cases\":[\x7b\"value\":\" -0X8000000000000000\",\"name\":\"A\"\x7d," ++
    "\x7b\"name\":\"\\u0042\\n\",\"value\":9223372036854775807\x7d],\"name\":\"G\"\x7d," ++
    "\x7b\"name\":\"\"\x7d]\x7d"

def extremeGroups : List Group := [⟨"G", [⟨"A", .minValue⟩, ⟨"B\n", .maxValue⟩]⟩, ⟨"", []⟩]

theorem writesDocument_extremes : WritesDocument extremeGroups extremes.toList := by
  have hn : ∀ c ∈ ([] : List Char), IsJsonBlank c := by simp
  have hstring : ∀ s : List Char, (s.all fun c => 0x20 ≤ c.toNat ∧ c ≠ '"' ∧ c ≠ '\\') → SpellsString s s := by
    intro s h
    exact spellsString_self (by simpa using h)
  -- the numbers
  have hmin : Text.WritesNumber .minValue " -0X8000000000000000".toList := by
    have hdigits : Text.WritesDigits 16 Int64.minValue.toInt.natAbs "8000000000000000".toList :=
      ⟨0, by decide⟩
    have hparts : " -0X8000000000000000".toList =
        [' '] ++ (Text.signOf .minValue ++ '0' :: 'X' :: "8000000000000000".toList ++ []) := by decide
    rw [hparts]
    exact .hex (List.forall_mem_singleton.mpr rfl) (List.forall_mem_nil _) (.inr rfl) hdigits
  have hmax :
      Spells (.value (.number (.ok (.integer Int64.maxValue.toInt)))) "9223372036854775807".toList := by
    have hparts : integerText Int64.maxValue.toInt = "9223372036854775807".toList := by decide
    rw [← hparts]
    exact .integer (by decide) (by decide)
  have hdigit : ∀ c ∈ ['1'], c.isDigit := List.forall_mem_singleton.mpr rfl
  have hdigit' : ∀ c ∈ ['5'], c.isDigit := List.forall_mem_singleton.mpr rfl
  have hreal := Spells.number
    (.mk false (.digits (by decide) hdigit) (.some (List.cons_ne_nil _ _) hdigit') .none)
  have hescaped : SpellsString "B\n".toList "\\u0042\\n".toList := by
    have hunit : Text.WritesDigits 16 0x42 ['0', '0', '4', '2'] := ⟨2, by decide⟩
    exact .unit hunit (by decide) (by decide) (.short rfl .nil)
  -- the cases
  have hcase₁ := Spells.object (.members hn (hstring "value".toList (by decide)) hn hn
    (.string (hstring " -0X8000000000000000".toList (by decide))) hn
    (.member hn (hstring "name".toList (by decide)) hn hn (.string (hstring "A".toList (by decide))) hn))
  have hcase₂ := Spells.object (.members hn (hstring "name".toList (by decide)) hn hn (.string hescaped) hn
    (.member hn (hstring "value".toList (by decide)) hn hn hmax hn))
  -- the groups
  have hgroup₁ := Spells.object (.members hn (hstring "cases".toList (by decide)) hn hn
    (.array (.items hn hcase₁ hn (.item hn hcase₂ hn))) hn
    (.member hn (hstring "name".toList (by decide)) hn hn (.string (hstring "G".toList (by decide))) hn))
  have hgroup₂ := Spells.object (.member hn (hstring "name".toList (by decide)) hn hn (.string .nil) hn)
  have hdocument := Spells.object (.members hn (hstring "v".toList (by decide)) hn hn hreal hn
    (.member hn (hstring "enums".toList (by decide)) hn hn
      (.array (.items hn hgroup₁ hn (.item hn hgroup₂ hn))) hn))
  simp only [String.ofList_toList] at hdocument
  have hcase₁ : ShowsCase ⟨"A", .minValue⟩ _ := .mk (.text hmin) .swapped
  have hcase₂ : ShowsCase ⟨"B\n", .maxValue⟩ _ := .mk .integer .ordered
  have hgroup₁ : ShowsGroup ⟨"G", _⟩ _ := .listed (.cons hcase₁ (.cons hcase₂ .nil)) .swapped
  have hgroup₂ : ShowsGroup ⟨"", []⟩ (.object (keyed [("name", .string (.ok ""))]) none) :=
    .empty rfl (by simp)
  convert WritesDocument.mk hn hdocument hn (.mk (.cons hgroup₁ (.cons hgroup₂ .nil)) (by simp)) using 1
  · rfl
  · decide +kernel

theorem parse_of_writesDocument_extremes : parse "types.json" extremes = .ok extremeGroups :=
  parse_of_writesDocument writesDocument_extremes (by decide)

end HalConstants.EnumDocument
