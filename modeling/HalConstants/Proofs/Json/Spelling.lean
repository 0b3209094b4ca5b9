import HalConstants.Json.Decode
import HalConstants.Proofs.Json.Tokens

/-!
# JSON texts as written

`Spells` relates a value, the items of an array or the members of an object to the texts that write them, with
any blanks and any way to write strings and numbers. Every such text is scanned to what it spells, and whoever
skips the value meets no fault. Two steps for each character suffice, as a value takes at least one character
and only a list of items or members takes a step of its own.
-/

namespace HalConstants.Json

variable {v : Scan} {vs : List Scan} {ms : List (String × Scan)} {cs g g' rest : List Char} {steps : Nat}

def IsJsonBlank (c : Char) : Prop := c = ' ' ∨ c = '\t' ∨ c = '\n' ∨ c = '\r'

/-- Members whose keys are read. -/
def keyed (ms : List (String × Scan)) : List (Except Fault String × Scan) := ms.map fun m => (.ok m.1, m.2)

inductive Part where
  | value (v : Scan)
  | items (vs : List Scan)
  | members (ms : List (String × Scan))

inductive Spells : Part → List Char → Prop
  | null : Spells (.value .null) ['n', 'u', 'l', 'l']
  | true : Spells (.value (.bool true)) ['t', 'r', 'u', 'e']
  | false : Spells (.value (.bool false)) ['f', 'a', 'l', 's', 'e']
  | number {d : Decimal} {cs : List Char} (h : SpellsDecimal d cs) :
      Spells (.value (.number (d.number?.elim (.error .malformed) .ok))) cs
  | string {s cs : List Char} (h : SpellsString s cs) :
      Spells (.value (.string (.ok (String.ofList s)))) ('"' :: (cs ++ ['"']))
  | emptyArray {g : List Char} (hg : ∀ c ∈ g, IsJsonBlank c) :
      Spells (.value (.array [] none)) ('[' :: (g ++ [']']))
  | array {vs : List Scan} {cs : List Char} (h : Spells (.items vs) cs) :
      Spells (.value (.array vs none)) ('[' :: (cs ++ [']']))
  | emptyObject {g : List Char} (hg : ∀ c ∈ g, IsJsonBlank c) :
      Spells (.value (.object [] none)) ('{' :: (g ++ ['}']))
  | object {ms : List (String × Scan)} {cs : List Char} (h : Spells (.members ms) cs) :
      Spells (.value (.object (keyed ms) none)) ('{' :: (cs ++ ['}']))
  | item {v : Scan} {g cs g' : List Char} (hg : ∀ c ∈ g, IsJsonBlank c) (h : Spells (.value v) cs)
      (hg' : ∀ c ∈ g', IsJsonBlank c) : Spells (.items [v]) (g ++ (cs ++ g'))
  | items {v : Scan} {vs : List Scan} {g cs g' more : List Char} (hg : ∀ c ∈ g, IsJsonBlank c)
      (h : Spells (.value v) cs) (hg' : ∀ c ∈ g', IsJsonBlank c) (hmore : Spells (.items vs) more) :
      Spells (.items (v :: vs)) (g ++ (cs ++ (g' ++ ',' :: more)))
  | member {v : Scan} {s g key g₁ g₂ cs g' : List Char} (hg : ∀ c ∈ g, IsJsonBlank c)
      (hkey : SpellsString s key) (hg₁ : ∀ c ∈ g₁, IsJsonBlank c) (hg₂ : ∀ c ∈ g₂, IsJsonBlank c)
      (h : Spells (.value v) cs) (hg' : ∀ c ∈ g', IsJsonBlank c) :
      Spells (.members [(String.ofList s, v)])
        (g ++ '"' :: (key ++ '"' :: (g₁ ++ ':' :: (g₂ ++ (cs ++ g')))))
  | members {v : Scan} {ms : List (String × Scan)} {s g key g₁ g₂ cs g' more : List Char}
      (hg : ∀ c ∈ g, IsJsonBlank c) (hkey : SpellsString s key) (hg₁ : ∀ c ∈ g₁, IsJsonBlank c)
      (hg₂ : ∀ c ∈ g₂, IsJsonBlank c) (h : Spells (.value v) cs) (hg' : ∀ c ∈ g', IsJsonBlank c)
      (hmore : Spells (.members ms) more) :
      Spells (.members ((String.ofList s, v) :: ms))
        (g ++ '"' :: (key ++ '"' :: (g₁ ++ ':' :: (g₂ ++ (cs ++ (g' ++ ',' :: more))))))

theorem Spells.integer {i : Int} (hlow : -0x8000000000000000 ≤ i) (hhigh : i < 0x10000000000000000) :
    Spells (.value (.number (.ok (.integer i)))) (integerText i) := by
  have h := Spells.number (spellsDecimal_integerText i)
  rwa [number?_integer hlow hhigh] at h

/-! ## Blanks -/

theorem skipBlanks_append (hg : ∀ c ∈ g, IsJsonBlank c) (cs : List Char) :
    Scan.skipBlanks (g ++ cs) = Scan.skipBlanks cs := by
  refine List.dropWhile_append_of_pos fun c hc => ?_
  rcases hg c hc with rfl | rfl | rfl | rfl <;> rfl

theorem skipBlanks_cons {c : Char} (hc : ¬ IsJsonBlank c) (cs : List Char) :
    Scan.skipBlanks (c :: cs) = c :: cs := by
  simp only [IsJsonBlank, not_or] at hc
  exact List.dropWhile_cons_of_neg (by simp [hc])

theorem skipBlanks_blanks (hg : ∀ c ∈ g, IsJsonBlank c) : Scan.skipBlanks g = [] := by
  have h := skipBlanks_append hg []
  rwa [List.append_nil] at h

theorem skipBlanks_skipBlanks (cs : List Char) : Scan.skipBlanks (Scan.skipBlanks cs) = Scan.skipBlanks cs :=
  Text.dropWhile_of_head fun c hc => by
    have h := List.head?_dropWhile_not (fun c => c == ' ' || c == '\t' || c == '\n' || c == '\r') cs
    rw [Scan.skipBlanks] at hc
    rw [hc] at h
    simpa using h

theorem value_skipBlanks (steps : Nat) (cs : List Char) :
    Scan.value steps (Scan.skipBlanks cs) = Scan.value steps cs := by
  cases steps with
  | zero => rw [Scan.value, Scan.value]
  | succ steps => rw [Scan.value, Scan.value, skipBlanks_skipBlanks]

theorem value_append (hg : ∀ c ∈ g, IsJsonBlank c) (cs : List Char) :
    Scan.value steps (g ++ cs) = Scan.value steps cs := by
  rw [← value_skipBlanks, skipBlanks_append hg, value_skipBlanks]

theorem items_skipBlanks (steps : Nat) (cs : List Char) :
    Scan.items steps (Scan.skipBlanks cs) = Scan.items steps cs := by
  cases steps with
  | zero => rw [Scan.items, Scan.items]
  | succ steps => rw [Scan.items, Scan.items, value_skipBlanks]

theorem members_skipBlanks (steps : Nat) (cs : List Char) :
    Scan.members steps (Scan.skipBlanks cs) = Scan.members steps cs := by
  cases steps with
  | zero => rw [Scan.members, Scan.members]
  | succ steps => rw [Scan.members, Scan.members, skipBlanks_skipBlanks]

/-! ## How texts start -/

theorem SpellsDecimal.head {d : Decimal} (h : SpellsDecimal d cs) :
    ∃ c t, cs = c :: t ∧ (c = '-' ∨ c.isDigit) := by
  cases h with
  | mk negative hwhole _ _ =>
      cases negative with
      | true => exact ⟨'-', _, rfl, .inl rfl⟩
      | false =>
          cases hwhole with
          | zero => exact ⟨'0', _, rfl, .inr rfl⟩
          | @digits c cs _ h => exact ⟨c, _, rfl, .inr (h c (.head cs))⟩

theorem not_isJsonBlank_of_number {c : Char} (h : c = '-' ∨ c.isDigit) : ¬ IsJsonBlank c ∧ c ≠ ']' := by
  constructor
  · rintro (rfl | rfl | rfl | rfl) <;> rcases h with h | h <;> contradiction
  · rintro rfl
    rcases h with h | h <;> contradiction

theorem Spells.head (h : Spells (.value v) cs) : ∃ c t, cs = c :: t ∧ ¬ IsJsonBlank c ∧ c ≠ ']' := by
  cases h with
  | null => exact ⟨_, _, rfl, by simp [IsJsonBlank], by decide⟩
  | true => exact ⟨_, _, rfl, by simp [IsJsonBlank], by decide⟩
  | false => exact ⟨_, _, rfl, by simp [IsJsonBlank], by decide⟩
  | number h =>
      obtain ⟨c, t, hcs, hc⟩ := h.head
      exact ⟨c, t, hcs, not_isJsonBlank_of_number hc⟩
  | string h => exact ⟨_, _, rfl, by simp [IsJsonBlank], by decide⟩
  | emptyArray h => exact ⟨_, _, rfl, by simp [IsJsonBlank], by decide⟩
  | array h => exact ⟨_, _, rfl, by simp [IsJsonBlank], by decide⟩
  | emptyObject h => exact ⟨_, _, rfl, by simp [IsJsonBlank], by decide⟩
  | object h => exact ⟨_, _, rfl, by simp [IsJsonBlank], by decide⟩

/-- Items do not start with the bracket that closes an array. -/
theorem firstItem_of_spells (h : Spells (.items vs) cs) :
    Scan.firstItem steps (cs ++ rest) = Scan.items steps (cs ++ rest) := by
  obtain ⟨c, t, hskip, hc⟩ : ∃ c t, Scan.skipBlanks (cs ++ rest) = c :: t ∧ c ≠ ']' := by
    cases h with
    | item hg h hg' =>
        obtain ⟨c, t, rfl, hblank, hc⟩ := h.head
        exact ⟨c, _, by rw [List.append_assoc, skipBlanks_append hg, List.cons_append, List.cons_append,
          skipBlanks_cons hblank], hc⟩
    | items hg h hg' hmore =>
        obtain ⟨c, t, rfl, hblank, hc⟩ := h.head
        exact ⟨c, _, by rw [List.append_assoc, skipBlanks_append hg, List.cons_append, List.cons_append,
          skipBlanks_cons hblank], hc⟩
  rw [← items_skipBlanks, Scan.firstItem, hskip]
  split
  · contradiction
  · next heq => exact absurd (List.cons.inj heq).1 hc
  · rfl

theorem firstMember_of_spells (h : Spells (.members ms) cs) :
    Scan.firstMember steps (cs ++ rest) = Scan.members steps (cs ++ rest) := by
  have hquote : ¬ IsJsonBlank '"' := by simp [IsJsonBlank]
  obtain ⟨t, hskip⟩ : ∃ t, Scan.skipBlanks (cs ++ rest) = '"' :: t := by
    cases h with
    | member hg hkey hg₁ hg₂ h hg' =>
        exact ⟨_, by rw [List.append_assoc, skipBlanks_append hg, List.cons_append, skipBlanks_cons hquote]⟩
    | members hg hkey hg₁ hg₂ h hg' hmore =>
        exact ⟨_, by rw [List.append_assoc, skipBlanks_append hg, List.cons_append, skipBlanks_cons hquote]⟩
  rw [← members_skipBlanks, Scan.firstMember, hskip]
  rfl

/-! ## One step -/

/-- The characters at which the scan takes a turn. -/
def marks : List Char := ['"', '[', ']', '{', '}', 'n', 't', 'f', ',', ':']

theorem isMark_not_blank : ∀ c ∈ marks, ¬ IsJsonBlank c := by
  simp [IsJsonBlank, marks]

theorem skipBlanks_mark {c : Char} (hg : ∀ c ∈ g, IsJsonBlank c) (hc : c ∈ marks) (cs : List Char) :
    Scan.skipBlanks (g ++ c :: cs) = c :: cs := by
  rw [skipBlanks_append hg, skipBlanks_cons (isMark_not_blank c hc)]

theorem value_number {c : Char} {t : List Char} (hc : c = '-' ∨ c.isDigit) :
    Scan.value (steps + 1) (c :: t) = .of .number (Scan.number? (c :: t)) := by
  have hmark : ∀ {d : Char} {t' : List Char}, c :: t = d :: t' → ¬ (d = '-' ∨ d.isDigit) → False :=
    fun heq hd => hd ((List.cons.inj heq).1 ▸ hc)
  rw [Scan.value, skipBlanks_cons (not_isJsonBlank_of_number hc).1]
  split
  · contradiction
  · next heq => exact (hmark heq (by decide)).elim
  · next heq => exact (hmark heq (by decide)).elim
  · next heq => exact (hmark heq (by decide)).elim
  · next heq => exact (hmark heq (by decide)).elim
  · next heq => exact (hmark heq (by decide)).elim
  · next heq => exact (hmark heq (by decide)).elim
  · next d t' _ _ _ _ _ _ heq =>
      obtain ⟨rfl, rfl⟩ := List.cons.inj heq
      rw [if_pos (by simpa using hc)]

theorem value_null : Scan.value (steps + 1) ('n' :: 'u' :: 'l' :: 'l' :: rest) = (.null, some rest) := by
  rw [Scan.value, skipBlanks_cons (isMark_not_blank _ (by decide))]
  rfl

theorem value_true : Scan.value (steps + 1) ('t' :: 'r' :: 'u' :: 'e' :: rest) = (.bool true, some rest) := by
  rw [Scan.value, skipBlanks_cons (isMark_not_blank _ (by decide))]
  rfl

theorem value_false :
    Scan.value (steps + 1) ('f' :: 'a' :: 'l' :: 's' :: 'e' :: rest) = (.bool false, some rest) := by
  rw [Scan.value, skipBlanks_cons (isMark_not_blank _ (by decide))]
  rfl

theorem value_string {s : List Char} (h : SpellsString s cs) (rest : List Char) :
    Scan.value (steps + 1) ('"' :: (cs ++ '"' :: rest)) = (.string (.ok (String.ofList s)), some rest) := by
  rw [Scan.value, skipBlanks_cons (isMark_not_blank _ (by decide))]
  simp only [string?_of_spellsString h, Scan.Step.of]

theorem value_array (h : Scan.firstItem steps cs = (vs, none, some rest)) :
    Scan.value (steps + 1) ('[' :: cs) = (.array vs none, some rest) := by
  rw [Scan.value, skipBlanks_cons (isMark_not_blank _ (by decide))]
  simp only [h]

theorem value_object (h : Scan.firstMember steps cs = (keyed ms, none, some rest)) :
    Scan.value (steps + 1) ('{' :: cs) = (.object (keyed ms) none, some rest) := by
  rw [Scan.value, skipBlanks_cons (isMark_not_blank _ (by decide))]
  simp only [h]

theorem firstItem_close (hg : ∀ c ∈ g, IsJsonBlank c) :
    Scan.firstItem steps (g ++ ']' :: rest) = ([], none, some rest) := by
  rw [Scan.firstItem, skipBlanks_mark hg (by decide)]
  rfl

theorem firstMember_close (hg : ∀ c ∈ g, IsJsonBlank c) :
    Scan.firstMember steps (g ++ '}' :: rest) = (keyed [], none, some rest) := by
  rw [Scan.firstMember, skipBlanks_mark hg (by decide)]
  rfl

theorem items_last (hg : ∀ c ∈ g, IsJsonBlank c) (hg' : ∀ c ∈ g', IsJsonBlank c)
    (h : Scan.value steps cs = (v, some (g' ++ ']' :: rest))) :
    Scan.items (steps + 1) (g ++ cs) = ([v], none, some rest) := by
  rw [Scan.items, value_append hg, h]
  dsimp only
  rw [skipBlanks_mark hg' (by decide)]
  rfl

theorem items_more {more : List Char} (hg : ∀ c ∈ g, IsJsonBlank c) (hg' : ∀ c ∈ g', IsJsonBlank c)
    (h : Scan.value steps cs = (v, some (g' ++ ',' :: more)))
    (hmore : Scan.items steps more = (vs, none, some rest)) :
    Scan.items (steps + 1) (g ++ cs) = (v :: vs, none, some rest) := by
  rw [Scan.items, value_append hg, h]
  dsimp only
  rw [skipBlanks_mark hg' (by decide)]
  simp only [hmore]

theorem members_last {s key g₁ g₂ : List Char} (hg : ∀ c ∈ g, IsJsonBlank c) (hkey : SpellsString s key)
    (hg₁ : ∀ c ∈ g₁, IsJsonBlank c) (hg₂ : ∀ c ∈ g₂, IsJsonBlank c) (hg' : ∀ c ∈ g', IsJsonBlank c)
    (h : Scan.value steps cs = (v, some (g' ++ '}' :: rest))) :
    Scan.members (steps + 1) (g ++ '"' :: (key ++ '"' :: (g₁ ++ ':' :: (g₂ ++ cs)))) =
      (keyed [(String.ofList s, v)], none, some rest) := by
  have hcolon := skipBlanks_mark hg₁ (by decide : ':' ∈ marks) (g₂ ++ cs)
  have hvalue := (value_append hg₂ cs).trans h
  have hclose := skipBlanks_mark hg' (by decide : '}' ∈ marks) rest
  rw [Scan.members, skipBlanks_mark hg (by decide)]
  simp only [string?_of_spellsString hkey, hcolon, hvalue, hclose]
  rfl

theorem members_more {s key g₁ g₂ more : List Char} (hg : ∀ c ∈ g, IsJsonBlank c) (hkey : SpellsString s key)
    (hg₁ : ∀ c ∈ g₁, IsJsonBlank c) (hg₂ : ∀ c ∈ g₂, IsJsonBlank c) (hg' : ∀ c ∈ g', IsJsonBlank c)
    (h : Scan.value steps cs = (v, some (g' ++ ',' :: more)))
    (hmore : Scan.members steps more = (keyed ms, none, some rest)) :
    Scan.members (steps + 1) (g ++ '"' :: (key ++ '"' :: (g₁ ++ ':' :: (g₂ ++ cs)))) =
      (keyed ((String.ofList s, v) :: ms), none, some rest) := by
  have hcolon := skipBlanks_mark hg₁ (by decide : ':' ∈ marks) (g₂ ++ cs)
  have hvalue := (value_append hg₂ cs).trans h
  have hcomma := skipBlanks_mark hg' (by decide : ',' ∈ marks) more
  rw [Scan.members, skipBlanks_mark hg (by decide)]
  simp only [string?_of_spellsString hkey, hcolon, hvalue, hcomma, hmore]
  rfl

/-! ## Reading -/

/-- What the scan makes of a text that spells a part, given steps enough. -/
def Reads : Part → List Char → Prop
  | .value v, cs => ∀ steps rest, 2 * cs.length ≤ steps → EndsNumber rest →
      Scan.value steps (cs ++ rest) = (v, some rest)
  | .items vs, cs => ∀ steps rest, 2 * cs.length < steps →
      Scan.items steps (cs ++ ']' :: rest) = (vs, none, some rest)
  | .members ms, cs => ∀ steps rest, 2 * cs.length < steps →
      Scan.members steps (cs ++ '}' :: rest) = (keyed ms, none, some rest)

theorem endsNumber_append (hg : ∀ c ∈ g, IsJsonBlank c) (hrest : EndsNumber rest) : EndsNumber (g ++ rest) := by
  cases g with
  | nil => exact hrest
  | cons c g =>
      rintro _ ⟨⟩
      rcases hg c (.head g) with rfl | rfl | rfl | rfl <;> decide

theorem endsNumber_mark : ∀ c ∈ [']', '}', ','], EndsNumber (c :: rest) := by
  intro c hc x hx
  obtain rfl : c = x := Option.some.inj hx
  simp only [List.mem_cons, List.not_mem_nil, or_false] at hc
  rcases hc with rfl | rfl | rfl <;> decide

/-- A value takes a step at its first character. -/
theorem reads_value {c : Char} {t : List Char}
    (h : ∀ steps rest, 2 * t.length < steps → EndsNumber rest →
      Scan.value (steps + 1) (c :: (t ++ rest)) = (v, some rest)) : Reads (.value v) (c :: t) := by
  intro steps rest hsteps hrest
  rw [List.length_cons] at hsteps
  obtain ⟨steps, rfl⟩ := Nat.exists_eq_add_one.mpr (Nat.lt_of_lt_of_le (by omega) hsteps)
  exact h steps rest (by omega) hrest

theorem Spells.reads {part : Part} (h : Spells part cs) : Reads part cs := by
  induction h with
  | null => exact reads_value fun steps rest _ _ => value_null
  | true => exact reads_value fun steps rest _ _ => value_true
  | false => exact reads_value fun steps rest _ _ => value_false
  | @number d cs h =>
      obtain ⟨c, t, rfl, hc⟩ := h.head
      refine reads_value fun steps rest _ hrest => ?_
      have hnumber := number?_of_spellsDecimal h hrest
      rw [List.cons_append] at hnumber
      rw [value_number hc, hnumber]
      rfl
  | string h =>
      refine reads_value fun steps rest _ _ => ?_
      rw [List.append_assoc, List.singleton_append]
      exact value_string h rest
  | emptyArray hg =>
      refine reads_value fun steps rest _ _ => ?_
      rw [List.append_assoc, List.singleton_append]
      exact value_array (firstItem_close hg)
  | array h ih =>
      refine reads_value fun steps rest hsteps _ => ?_
      rw [List.length_append] at hsteps
      rw [List.append_assoc, List.singleton_append]
      refine value_array ?_
      rw [firstItem_of_spells h]
      exact ih steps rest (by omega)
  | emptyObject hg =>
      refine reads_value fun steps rest _ _ => ?_
      rw [List.append_assoc, List.singleton_append]
      exact value_object (firstMember_close hg)
  | object h ih =>
      refine reads_value fun steps rest hsteps _ => ?_
      rw [List.length_append] at hsteps
      rw [List.append_assoc, List.singleton_append]
      refine value_object ?_
      rw [firstMember_of_spells h]
      exact ih steps rest (by omega)
  | @item v g cs g' hg h hg' ih =>
      intro steps rest hsteps
      obtain ⟨steps, rfl⟩ := Nat.exists_eq_add_one.mpr (Nat.zero_lt_of_lt hsteps)
      simp only [List.length_append] at hsteps
      rw [List.append_assoc, List.append_assoc]
      exact items_last hg hg'
        (ih steps _ (by omega) (endsNumber_append hg' (endsNumber_mark _ (by decide))))
  | @items v vs g cs g' more hg h hg' hmore ih ihmore =>
      intro steps rest hsteps
      obtain ⟨steps, rfl⟩ := Nat.exists_eq_add_one.mpr (Nat.zero_lt_of_lt hsteps)
      simp only [List.length_cons, List.length_append] at hsteps
      simp only [List.append_assoc, List.cons_append]
      exact items_more hg hg'
        (ih steps _ (by omega) (endsNumber_append hg' (endsNumber_mark _ (by decide))))
        (ihmore steps rest (by omega))
  | @member v s g key g₁ g₂ cs g' hg hkey hg₁ hg₂ h hg' ih =>
      intro steps rest hsteps
      obtain ⟨steps, rfl⟩ := Nat.exists_eq_add_one.mpr (Nat.zero_lt_of_lt hsteps)
      simp only [List.length_cons, List.length_append] at hsteps
      simp only [List.append_assoc, List.cons_append]
      exact members_last hg hkey hg₁ hg₂ hg'
        (ih steps _ (by omega) (endsNumber_append hg' (endsNumber_mark _ (by decide))))
  | @members v ms s g key g₁ g₂ cs g' more hg hkey hg₁ hg₂ h hg' hmore ih ihmore =>
      intro steps rest hsteps
      obtain ⟨steps, rfl⟩ := Nat.exists_eq_add_one.mpr (Nat.zero_lt_of_lt hsteps)
      simp only [List.length_cons, List.length_append] at hsteps
      simp only [List.append_assoc, List.cons_append]
      exact members_more hg hkey hg₁ hg₂ hg'
        (ih steps _ (by omega) (endsNumber_append hg' (endsNumber_mark _ (by decide))))
        (ihmore steps rest (by omega))

/-- **A spelled text is scanned to its value**, with nothing behind it. -/
theorem ofText_of_spells (hg : ∀ c ∈ g, IsJsonBlank c) (h : Spells (.value v) cs)
    (hg' : ∀ c ∈ g', IsJsonBlank c) : Scan.ofText (g ++ (cs ++ g')) = (v, false) := by
  have hends : EndsNumber (g' ++ []) := endsNumber_append hg' (by simp [EndsNumber])
  rw [List.append_nil] at hends
  have hsteps : 2 * cs.length ≤ 2 * (g ++ (cs ++ g')).length + 2 := by
    simp only [List.length_append]
    omega
  have hvalue : Scan.value _ (g ++ (cs ++ g')) = (v, some g') :=
    (value_append hg _).trans (h.reads _ g' hsteps hends)
  rw [Scan.ofText, hvalue]
  simp only [skipBlanks_blanks hg', List.isEmpty_nil, Bool.not_true]

/-! ## Skipping -/

theorem skipFaultOfItems_eq_none_iff :
    Scan.skipFaultOfItems vs = none ↔ ∀ v ∈ vs, v.skipFault = none := by
  induction vs with
  | nil => simp [Scan.skipFaultOfItems]
  | cons v vs ih => simp [Scan.skipFaultOfItems, ih]

theorem skipFaultOfMembers_eq_none_iff :
    Scan.skipFaultOfMembers (keyed ms) = none ↔ ∀ m ∈ ms, m.2.skipFault = none := by
  induction ms with
  | nil => simp [keyed, Scan.skipFaultOfMembers]
  | cons m ms ih =>
      rw [keyed, List.map_cons, Scan.skipFaultOfMembers, List.forall_mem_cons, ← ih]
      simp [Scan.skipFaultOfMember, keyed]

theorem skipFault_array_eq_none_iff :
    (Scan.array vs none).skipFault = none ↔ ∀ v ∈ vs, v.skipFault = none := by
  rw [← skipFaultOfItems_eq_none_iff, Scan.skipFault]
  simp

theorem skipFault_object_eq_none_iff :
    (Scan.object (keyed ms) none).skipFault = none ↔ ∀ m ∈ ms, m.2.skipFault = none := by
  rw [← skipFaultOfMembers_eq_none_iff, Scan.skipFault]
  simp

/-- Whoever skips a part meets no fault. -/
def Skips : Part → Prop
  | .value v => v.skipFault = none
  | .items vs => ∀ v ∈ vs, v.skipFault = none
  | .members ms => ∀ m ∈ ms, m.2.skipFault = none

theorem Spells.skips {part : Part} (h : Spells part cs) : Skips part := by
  induction h with
  | null => rfl
  | true => rfl
  | false => rfl
  | number h => rfl
  | string h => rfl
  | emptyArray hg => rfl
  | array h ih => exact skipFault_array_eq_none_iff.mpr ih
  | emptyObject hg => rfl
  | object h ih => exact skipFault_object_eq_none_iff.mpr ih
  | item hg h hg' ih => exact List.forall_mem_singleton.mpr ih
  | items hg h hg' hmore ih ihmore => exact List.forall_mem_cons.mpr ⟨ih, ihmore⟩
  | member hg hkey hg₁ hg₂ h hg' ih => exact List.forall_mem_singleton.mpr ih
  | members hg hkey hg₁ hg₂ h hg' hmore ih ihmore => exact List.forall_mem_cons.mpr ⟨ih, ihmore⟩

end HalConstants.Json
