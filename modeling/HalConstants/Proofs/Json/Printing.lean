import HalConstants.Json.Value
import HalConstants.Proofs.Code.Lines
import HalConstants.Proofs.Json.Spelling

/-!
# Printed JSON values

A printed value is one of the texts that spell it: line breaks and indentation are blanks between its parts,
every string is escaped so that it spells itself, and an integer is written in decimal digits. So whoever scans
the printed text gets the scan of the value.
-/

namespace HalConstants.Json

variable {v : Value} {vs : List Value} {ms : List (String × Value)} {cs g : List Char} {level : Nat}

namespace Value

/-- The integers of the value fit 64 bits, with or without a sign. -/
inductive InRange : Value → Prop
  | null : InRange .null
  | bool {b : Bool} : InRange (.bool b)
  | integer {i : Int} (hlow : -0x8000000000000000 ≤ i) (hhigh : i < 0x10000000000000000) : InRange (.integer i)
  | string {s : String} : InRange (.string s)
  | array {items : List Value} (h : ∀ v ∈ items, InRange v) : InRange (.array items)
  | object {members : List (String × Value)} (h : ∀ m ∈ members, InRange m.2) : InRange (.object members)

theorem inRange_int64 (i : Int64) : InRange (.integer i.toInt) := by
  have hbound : Int64.maxValue.toInt < 0x10000000000000000 := by decide
  exact .integer i.minValue_le_toInt (Int.lt_of_le_of_lt i.toInt_le hbound)

theorem scanItems_eq_map (vs : List Value) : scanItems vs = vs.map scan := by
  induction vs with
  | nil => rw [scanItems, List.map_nil]
  | cons v vs ih => rw [scanItems, ih, List.map_cons]

theorem scanMembers_eq_keyed (ms : List (String × Value)) :
    scanMembers ms = keyed (ms.map fun m => (m.1, m.2.scan)) := by
  unfold keyed
  induction ms with
  | nil => rw [scanMembers, List.map_nil, List.map_nil]
  | cons m ms ih =>
      obtain ⟨key, v⟩ := m
      rw [scanMembers, ih, scanMember]
      rfl

/-! ## Tokens -/

theorem isJsonBlank_newline (level : Nat) : ∀ c ∈ (newline level).toList, IsJsonBlank c := by
  unfold newline
  rw [toList_pushn]
  intro c hc
  rcases List.mem_append.mp hc with hc | hc
  · rw [List.mem_singleton.mp hc]
    exact .inr (.inr (.inl rfl))
  · rw [List.eq_of_mem_replicate hc]
    exact .inl rfl

theorem toList_toString_int (i : Int) : (toString i).toList = integerText i := by
  rw [Int.toString_eq_repr, Int.repr_eq_if]
  unfold integerText
  split
  · next hi =>
      have hnat : i.toNat = i.natAbs := by omega
      rw [if_neg (Int.not_lt.mpr hi), Nat.toList_repr, List.nil_append, hnat]
  · next hi =>
      have hnat : (-i).toNat = i.natAbs := by omega
      rw [if_pos (Int.not_le.mp hi), String.toList_append, Nat.toList_repr, hnat]
      rfl

theorem writesDigits_hexUnit {n : Nat} (hn : n < 0x20) :
    Text.WritesDigits 16 n ['0', '0', Nat.digitChar (n / 16), Nat.digitChar (n % 16)] := by
  have hdigits : ∀ n < 0x20, (['0', '0', Nat.digitChar (n / 16), Nat.digitChar (n % 16)]).map Char.toLower =
      List.replicate (if n < 16 then 3 else 2) '0' ++ Nat.toDigits 16 n := by decide
  exact ⟨_, hdigits n hn⟩

/-- An escaped character spells itself. -/
theorem spellsString_escapeChar (c : Char) {s cs : List Char} (h : SpellsString s cs) :
    SpellsString (c :: s) (escapeChar c ++ cs) := by
  unfold escapeChar
  split
  · exact .short rfl h
  · exact .short rfl h
  · exact .short rfl h
  · exact .short rfl h
  · exact .short rfl h
  · exact .short rfl h
  · exact .short rfl h
  · next hquote hslash _ _ _ _ _ =>
      split
      · next hcontrol =>
          have hunit := writesDigits_hexUnit hcontrol
          have hhigh : ¬ Scan.isHighSurrogate c.toNat := by
            simp only [Scan.isHighSurrogate, Bool.and_eq_true, decide_eq_true_eq]
            omega
          have hlow : ¬ Scan.isLowSurrogate c.toNat := by
            simp only [Scan.isLowSurrogate, Bool.and_eq_true, decide_eq_true_eq]
            omega
          have hspells := SpellsString.unit hunit hhigh hlow h
          rwa [Char.ofNat_toNat] at hspells
      · next hcontrol => exact .plain (Nat.not_lt.mp hcontrol) hquote hslash h

theorem spellsString_escaped (s : List Char) : SpellsString s (s.flatMap escapeChar) := by
  induction s with
  | nil => exact .nil
  | cons c s ih => exact spellsString_escapeChar c ih

theorem spells_quote (s : String) : Spells (.value (.string (.ok s))) (quote s).toList := by
  have hstring := Spells.string (spellsString_escaped s.toList)
  rw [String.ofList_toList] at hstring
  unfold quote
  rwa [String.toList_ofList]

/-! ## Values -/

/-- Items are printed one below the other, with a blank behind the last one. -/
theorem spells_printItems (hclose : ∀ c ∈ g, IsJsonBlank c)
    (h : ∀ u ∈ v :: vs, Spells (.value u.scan) (u.printAt level).toList) :
    Spells (.items ((v :: vs).map scan))
      ((newline level).toList ++ ((v.printAt level).toList ++ ((printItems level vs).toList ++ g))) := by
  obtain ⟨hv, hvs⟩ := List.forall_mem_cons.mp h
  induction vs generalizing v with
  | nil =>
      have hitem := Spells.item (isJsonBlank_newline level) hv hclose
      rw [printItems]
      exact hitem
  | cons u vs ih =>
      obtain ⟨hu, hmore⟩ := List.forall_mem_cons.mp hvs
      have hnone : ∀ c ∈ ([] : List Char), IsJsonBlank c := List.forall_mem_nil _
      have hitems := Spells.items (isJsonBlank_newline level) hv hnone (ih hvs hu hmore)
      rw [printItems]
      simp only [String.toList_append, List.append_assoc]
      exact hitems

/-- A member is printed with its key in quotes and a space behind the colon. -/
theorem toList_printMember (level : Nat) (key : String) (v : Value) :
    (printMember level (key, v)).toList =
      '"' :: (key.toList.flatMap escapeChar ++ '"' :: ':' :: ' ' :: (v.printAt level).toList) := by
  unfold printMember quote
  simp

theorem spells_printMembers {m : String × Value} (hclose : ∀ c ∈ g, IsJsonBlank c)
    (h : ∀ n ∈ m :: ms, Spells (.value n.2.scan) (n.2.printAt level).toList) :
    Spells (.members ((m :: ms).map fun m => (m.1, m.2.scan)))
      ((newline level).toList ++ ((printMember level m).toList ++ ((printMembers level ms).toList ++ g))) := by
  have hnone : ∀ c ∈ ([] : List Char), IsJsonBlank c := List.forall_mem_nil _
  have hspace : ∀ c ∈ [' '], IsJsonBlank c := List.forall_mem_singleton.mpr (.inl rfl)
  have hbreak := isJsonBlank_newline level
  obtain ⟨hv, hms⟩ := List.forall_mem_cons.mp h
  obtain ⟨key, v⟩ := m
  have hkey := spellsString_escaped key.toList
  rw [toList_printMember]
  induction ms generalizing key v with
  | nil =>
      have hmember := Spells.member hbreak hkey hnone hspace hv hclose
      rw [String.ofList_toList] at hmember
      rw [printMembers]
      simpa using hmember
  | cons n ms ih =>
      obtain ⟨hn, hmore⟩ := List.forall_mem_cons.mp hms
      obtain ⟨next, u⟩ := n
      have hmembers := Spells.members hbreak hkey hnone hspace hv hnone
        (ih hmore next u hms hn (spellsString_escaped next.toList))
      rw [String.ofList_toList] at hmembers
      rw [printMembers]
      simp only [String.toList_append, toList_printMember, List.append_assoc, List.cons_append,
        List.nil_append] at hmembers ⊢
      exact hmembers

theorem spells_printAt (h : v.InRange) (level : Nat) : Spells (.value v.scan) (v.printAt level).toList := by
  induction h generalizing level with
  | null =>
      rw [printAt, scan]
      exact .null
  | @bool b =>
      rw [printAt, scan]
      cases b with
      | true => exact .true
      | false => exact .false
  | @integer i hlow hhigh =>
      rw [printAt, toList_toString_int]
      exact .integer hlow hhigh
  | @string s =>
      rw [printAt]
      exact spells_quote s
  | @array items _ ih =>
      cases items with
      | nil =>
          rw [printAt, scan, scanItems]
          exact .emptyArray (List.forall_mem_nil _)
      | cons v vs =>
          have hitems := spells_printItems (isJsonBlank_newline level) fun u hu => ih u hu (level + 1)
          have harray := Spells.array hitems
          rw [printAt, scan, scanItems_eq_map]
          simp only [String.toList_append, List.append_assoc] at harray ⊢
          exact harray
  | @object members _ ih =>
      cases members with
      | nil =>
          rw [printAt, scan, scanMembers]
          exact .emptyObject (List.forall_mem_nil _)
      | cons m ms =>
          have hmembers := spells_printMembers (isJsonBlank_newline level) fun n hn => ih n hn (level + 1)
          have hobject := Spells.object hmembers
          rw [printAt, scan, scanMembers_eq_keyed]
          simp only [String.toList_append, List.append_assoc] at hobject ⊢
          exact hobject

/-- **A printed value spells itself.** -/
theorem spells_print (h : v.InRange) : Spells (.value v.scan) v.print.toList := spells_printAt h 0

end Value

/-- Whoever decodes a text decodes what it spells. -/
theorem decode_eq_ok_of_spells {α : Type} {d : Decoder α} {a : α} {v : Scan} (h : Spells (.value v) cs)
    (hread : d maxDepth v = .ok a) : d.decode cs = .ok a := by
  have hnone : ∀ c ∈ ([] : List Char), IsJsonBlank c := List.forall_mem_nil _
  have hscan := ofText_of_spells hnone h hnone
  rw [List.append_nil, List.nil_append] at hscan
  unfold Decoder.decode
  simp only [hscan, hread, bind, Except.bind]
  rfl

end HalConstants.Json
