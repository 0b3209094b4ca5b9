import HalConstants.Proofs.Header.OwnComment

/-!
# The items of a comment

The words of a comment fall into items: a key that takes a value together with the word behind it, whatever
that word is, a key of a range alone, and any other word alone. There is at most one way to split words into
items, and if there is none, then a key without its value is left behind the items in front of it. So reading a
comment fails at that key, or every fact of the property is the last one that an item states. Extraction fails
at the first block whose comment fails.
-/

namespace HalConstants.Header

open Text (Word wordsFrom Laid)

variable {p q : Property} {w v : Word} {ws tail : List Word} {k : AnnotationKey}

inductive Item where
  | keyed (a : Annotation)
  | other (w : Word)

namespace Item

def words : Item → List Word
  | keyed a => a.words
  | other w => [w]

/-- The item is made of its words as a comment is read. -/
inductive IsSpelled : Item → Prop
  | other {w : Word} (h : keyOf? w = none) : IsSpelled (.other w)
  | mark {w : Word} {k : AnnotationKey} (h : keyOf? w = some k) (hk : k.takesValue = false) :
      IsSpelled (.keyed ⟨w, k, none⟩)
  | valued {w : Word} {k : AnnotationKey} (v : Word) (h : keyOf? w = some k) (hk : k.takesValue = true) :
      IsSpelled (.keyed ⟨w, k, some v⟩)

def applyTo (p : Property) : Item → Property
  | keyed a => a.applyTo p
  | other _ => p

/-- The value that the item states for a key. -/
def valueOf? (k : AnnotationKey) : Item → Option String
  | keyed a => if a.key = k then a.value.map (String.ofList ·.text) else none
  | other _ => none

/-- The item is a key that stands for itself. -/
def IsRange : Item → Prop
  | keyed a => a.key.takesValue = false
  | other _ => False

end Item

variable {i i' : Item} {items items' : List Item}

/-- The words fall into the items. -/
structure Splits (items : List Item) (ws : List Word) : Prop where
  spelled : ∀ i ∈ items, i.IsSpelled
  words : items.flatMap Item.words = ws

/-- The words end in a key that takes a value and stands where an item starts. -/
structure Dangles (ws : List Word) (w : Word) (k : AnnotationKey) : Prop where
  front : ∃ items front, ws = front ++ [w] ∧ Splits items front
  key : keyOf? w = some k
  takesValue : k.takesValue = true

/-- The fact that a property states for a key. -/
def factOf? (p : Property) : AnnotationKey → Option String
  | .valueType => p.valueType
  | .changeMode => p.changeMode
  | .access => p.access
  | .unit => p.unit
  | .rangeStart | .rangeEnd => none

/-- The value of the last item that states one for the key. -/
def lastValue? (k : AnnotationKey) (items : List Item) : Option String :=
  (items.filterMap (Item.valueOf? k)).getLast?

/-- The second property is the first one with the facts of the items. -/
structure Describes (p : Property) (items : List Item) (q : Property) : Prop where
  name : q.name = p.name
  value : q.value = p.value
  facts : ∀ k, factOf? q k = (lastValue? k items).or (factOf? p k)
  isRangeMarker : q.isRangeMarker ↔ p.isRangeMarker ∨ ∃ i ∈ items, i.IsRange

/-! ## Splitting words into items -/

theorem Item.IsSpelled.words_ne_nil (h : i.IsSpelled) : i.words ≠ [] := by
  cases h <;> exact List.cons_ne_nil _ _

/-- The item that starts at a word, given the word behind it. -/
def itemAt (w : Word) (next : Option Word) : Item :=
  match keyOf? w with
  | none => .other w
  | some k => .keyed ⟨w, k, if k.takesValue then next else none⟩

theorem Item.IsSpelled.eq_itemAt (h : i.IsSpelled) (heq : i.words ++ tail = w :: ws) :
    i = itemAt w ws.head? := by
  cases h with
  | other hw =>
      obtain ⟨rfl, -⟩ := List.cons.inj heq
      rw [itemAt, hw]
  | mark hw hk =>
      obtain ⟨rfl, -⟩ := List.cons.inj heq
      simp only [itemAt, hw, hk, Bool.false_eq_true, if_false]
  | valued v hw hk =>
      obtain ⟨rfl, hnext⟩ := List.cons.inj heq
      simp only [itemAt, hw, hk, if_true, ← hnext]
      rfl

/-- The first item of words is determined. -/
theorem Item.IsSpelled.unique {rest rest' : List Word} (h : i.IsSpelled) (h' : i'.IsSpelled)
    (heq : i.words ++ rest = i'.words ++ rest') : i = i' ∧ rest = rest' := by
  obtain ⟨w, more, hwords⟩ := List.exists_cons_of_ne_nil h.words_ne_nil
  have hfirst : i.words ++ rest = w :: (more ++ rest) := by
    rw [hwords, List.cons_append]
  obtain rfl : i = i' := (h.eq_itemAt hfirst).trans (h'.eq_itemAt (heq.symm.trans hfirst)).symm
  exact ⟨rfl, List.append_cancel_left heq⟩

theorem Splits.nil : Splits [] [] := ⟨List.forall_mem_nil _, rfl⟩

theorem Splits.cons (hi : i.IsSpelled) (h : Splits items ws) : Splits (i :: items) (i.words ++ ws) where
  spelled := List.forall_mem_cons.mpr ⟨hi, h.spelled⟩
  words := by rw [List.flatMap_cons, h.words]

/-- **Words split into items in one way only.** -/
theorem Splits.unique (h : Splits items ws) (h' : Splits items' ws) : items = items' := by
  obtain ⟨hspelled, hwords⟩ := h
  obtain ⟨hspelled', hwords'⟩ := h'
  have heq := hwords.trans hwords'.symm
  clear hwords hwords'
  induction items generalizing items' with
  | nil =>
      cases items' with
      | nil => rfl
      | cons i' items' =>
          have hempty := List.append_eq_nil_iff.mp heq.symm
          exact absurd hempty.1 (hspelled' i' (.head items')).words_ne_nil
  | cons i items ih =>
      obtain ⟨hi, hitems⟩ := List.forall_mem_cons.mp hspelled
      cases items' with
      | nil =>
          have hempty := List.append_eq_nil_iff.mp heq
          exact absurd hempty.1 hi.words_ne_nil
      | cons i' items' =>
          obtain ⟨hi', hitems'⟩ := List.forall_mem_cons.mp hspelled'
          obtain ⟨rfl, hrest⟩ := hi.unique hi' heq
          rw [ih hitems hitems' hrest]

theorem Dangles.cons (hi : i.IsSpelled) (h : Dangles ws w k) : Dangles (i.words ++ ws) w k := by
  obtain ⟨⟨items, front, rfl, hfront⟩, hkey, hk⟩ := h
  exact ⟨⟨i :: items, i.words ++ front, (List.append_assoc _ _ _).symm, hfront.cons hi⟩, hkey, hk⟩

/-- A comment splits into items, or a key is left without its value. -/
theorem splits_or_dangles (ws : List Word) : (∃ items, Splits items ws) ∨ ∃ w k, Dangles ws w k := by
  have hstep : ∀ (i : Item) (ws : List Word), i.IsSpelled →
      ((∃ items, Splits items ws) ∨ ∃ w k, Dangles ws w k) →
        (∃ items, Splits items (i.words ++ ws)) ∨ ∃ w k, Dangles (i.words ++ ws) w k := by
    rintro i ws hi (⟨items, h⟩ | ⟨w, k, h⟩)
    · exact .inl ⟨i :: items, h.cons hi⟩
    · exact .inr ⟨w, k, h.cons hi⟩
  induction ws using wordsInduction with
  | nil => exact .inl ⟨[], .nil⟩
  | other w ws h ih => exact hstep _ ws (.other h) ih
  | mark w k ws h hk ih => exact hstep _ ws (.mark h hk) ih
  | valued w k v ws h hk ih => exact hstep _ ws (.valued v h hk) ih
  | dangling w k h hk => exact .inr ⟨w, k, ⟨[], [], rfl, .nil⟩, h, hk⟩

/-! ## Reading items -/

theorem annotate_item (h : i.IsSpelled) : annotate p (i.words ++ ws) = annotate (i.applyTo p) ws := by
  cases h with
  | other h => exact annotate_other h
  | mark h hk => exact annotate_mark h hk
  | valued v h hk => exact annotate_valued h hk

theorem annotate_items (h : Splits items ws) : annotate p (ws ++ tail) =
    annotate (items.foldl Item.applyTo p) tail := by
  obtain ⟨hspelled, rfl⟩ := h
  induction items generalizing p with
  | nil => rfl
  | cons i items ih =>
      obtain ⟨hi, hitems⟩ := List.forall_mem_cons.mp hspelled
      rw [List.flatMap_cons, List.append_assoc, annotate_item hi, ih hitems, List.foldl_cons]

theorem annotate_of_splits (h : Splits items ws) : annotate p ws = .ok (items.foldl Item.applyTo p) := by
  rw [← List.append_nil ws, annotate_items h]
  rfl

theorem annotate_of_dangles (h : Dangles ws w k) : annotate p ws = .error (w, k) := by
  obtain ⟨⟨items, front, rfl, hfront⟩, hkey, hk⟩ := h
  rw [annotate_items hfront, annotate_dangling hkey hk]

theorem annotate_eq_error_iff : annotate p ws = .error (w, k) ↔ Dangles ws w k := by
  constructor
  · intro h
    rcases splits_or_dangles ws with ⟨items, hitems⟩ | ⟨w', k', hdangles⟩
    · rw [annotate_of_splits hitems] at h
      contradiction
    · rw [annotate_of_dangles hdangles] at h
      obtain ⟨rfl, rfl⟩ := Prod.mk.inj (Except.error.inj h)
      exact hdangles
  · exact annotate_of_dangles

theorem annotate_eq_ok_iff :
    annotate p ws = .ok q ↔ ∃ items, Splits items ws ∧ q = items.foldl Item.applyTo p := by
  constructor
  · intro h
    rcases splits_or_dangles ws with ⟨items, hitems⟩ | ⟨w, k, hdangles⟩
    · rw [annotate_of_splits hitems] at h
      exact ⟨items, hitems, (Except.ok.inj h).symm⟩
    · rw [annotate_of_dangles hdangles] at h
      contradiction
  · rintro ⟨items, hitems, rfl⟩
    exact annotate_of_splits hitems

/-! ## The facts of a property -/

theorem factOf?_annotate {l : AnnotationKey} (x : Option String) (hl : l.takesValue) :
    factOf? (p.annotate l x) k = if l = k then x else factOf? p k := by
  cases l <;> first | contradiction | cases k <;> rfl

theorem factOf?_annotate_range {l : AnnotationKey} (x : Option String) (hl : l.takesValue = false) :
    factOf? (p.annotate l x) k = factOf? p k := by
  cases l <;> first | contradiction | cases k <;> rfl

theorem factOf?_applyTo (h : i.IsSpelled) : factOf? (i.applyTo p) k = (i.valueOf? k).or (factOf? p k) := by
  cases h with
  | other h => rfl
  | @mark w l h hl =>
      have hnone : (Item.keyed ⟨w, l, none⟩).valueOf? k = none := ite_self none
      rw [hnone, Option.none_or]
      exact factOf?_annotate_range none hl
  | @valued w l v h hl =>
      rw [Item.applyTo, Annotation.applyTo, factOf?_annotate _ hl, Item.valueOf?]
      split
      · rfl
      · rfl

theorem lastValue?_cons :
    lastValue? k (i :: items) = (lastValue? k items).or (i.valueOf? k) := by
  rw [lastValue?, lastValue?]
  cases h : i.valueOf? k with
  | none => rw [List.filterMap_cons_none h, Option.or_none]
  | some value =>
      rw [List.filterMap_cons_some h, ← List.singleton_append, List.getLast?_append,
        List.getLast?_singleton]

theorem factOf?_foldl (h : ∀ i ∈ items, i.IsSpelled) :
    factOf? (items.foldl Item.applyTo p) k = (lastValue? k items).or (factOf? p k) := by
  induction items generalizing p with
  | nil => rfl
  | cons i items ih =>
      obtain ⟨hi, hitems⟩ := List.forall_mem_cons.mp h
      rw [List.foldl_cons, ih hitems, factOf?_applyTo hi, lastValue?_cons, Option.or_assoc]

theorem isRangeMarker_annotate (p : Property) (k : AnnotationKey) (x : Option String) :
    (p.annotate k x).isRangeMarker ↔ p.isRangeMarker ∨ k.takesValue = false := by
  cases k <;> simp [Property.annotate, AnnotationKey.takesValue]

theorem isRangeMarker_foldl (p : Property) (items : List Item) :
    (items.foldl Item.applyTo p).isRangeMarker ↔ p.isRangeMarker ∨ ∃ i ∈ items, i.IsRange := by
  induction items generalizing p with
  | nil => simp
  | cons i items ih =>
      have hitem : (i.applyTo p).isRangeMarker ↔ p.isRangeMarker ∨ i.IsRange := by
        cases i with
        | keyed a => exact isRangeMarker_annotate p a.key _
        | other w => exact (iff_of_eq (or_false _)).symm
      rw [List.foldl_cons, ih, hitem, List.exists_mem_cons_iff, or_assoc]

theorem name_and_value_foldl (p : Property) (items : List Item) : (items.foldl Item.applyTo p).name = p.name ∧
    (items.foldl Item.applyTo p).value = p.value := by
  induction items generalizing p with
  | nil => exact ⟨rfl, rfl⟩
  | cons i items ih =>
      rw [List.foldl_cons, (ih _).1, (ih _).2]
      cases i with
      | keyed a => exact ⟨Property.name_annotate _ _ _, Property.value_annotate _ _ _⟩
      | other w => exact ⟨rfl, rfl⟩

/-- A property is its name, its value and its facts. -/
theorem eq_of_facts (hname : p.name = q.name) (hvalue : p.value = q.value)
    (hfacts : ∀ k, factOf? p k = factOf? q k) (hrange : p.isRangeMarker ↔ q.isRangeMarker) : p = q := by
  obtain ⟨name, value, valueType, changeMode, access, unit, isRangeMarker⟩ := p
  obtain rfl : valueType = q.valueType := hfacts .valueType
  obtain rfl : changeMode = q.changeMode := hfacts .changeMode
  obtain rfl : access = q.access := hfacts .access
  obtain rfl : unit = q.unit := hfacts .unit
  obtain rfl : isRangeMarker = q.isRangeMarker := Bool.eq_iff_iff.mpr hrange
  obtain rfl : name = q.name := hname
  obtain rfl : value = q.value := hvalue
  rfl

/-- Items describe one property. -/
theorem describes_iff (h : ∀ i ∈ items, i.IsSpelled) :
    Describes p items q ↔ q = items.foldl Item.applyTo p := by
  obtain ⟨hname, hvalue⟩ := name_and_value_foldl p items
  constructor
  · intro hq
    apply eq_of_facts
    · rw [hq.name, hname]
    · rw [hq.value, hvalue]
    · intro k
      rw [hq.facts, factOf?_foldl h]
    · rw [hq.isRangeMarker, isRangeMarker_foldl]
  · rintro rfl
    exact ⟨hname, hvalue, fun k => factOf?_foldl h, isRangeMarker_foldl p items⟩

/-- **A comment that splits into items gives their facts.** -/
theorem annotate_eq_ok_iff_describes :
    annotate p ws = .ok q ↔ ∃ items, Splits items ws ∧ Describes p items q := by
  rw [annotate_eq_ok_iff]
  constructor
  · rintro ⟨items, hitems, heq⟩
    exact ⟨items, hitems, (describes_iff hitems.spelled).mpr heq⟩
  · rintro ⟨items, hitems, hq⟩
    exact ⟨items, hitems, (describes_iff hitems.spelled).mp hq⟩

/-! ## Blocks -/

variable {stem : List Char} {sources : Sources} {b : PropertyBlock}

/-- The comment of the block leaves a key without its value. -/
def PropertyBlock.IsMalformed (b : PropertyBlock) : Prop := ∃ w k, Dangles b.words w k

theorem read_eq_ok_iff : b.read stem sources = .ok q ↔
    ∃ items, Splits items b.words ∧ Describes (b.property stem) items q := by
  rw [← annotate_eq_ok_iff_describes, PropertyBlock.read, ← PropertyBlock.words]
  cases annotate (b.property stem) b.words <;> simp [Except.mapError]

theorem read_eq_error_iff {e : InputError} : b.read stem sources = .error e ↔
    ∃ w k, Dangles b.words w k ∧ e = missingValue sources w k (b.property stem).name := by
  rw [PropertyBlock.read, ← PropertyBlock.words]
  constructor
  · intro h
    cases hread : annotate (b.property stem) b.words with
    | ok p =>
        rw [hread] at h
        contradiction
    | error fault =>
        obtain ⟨w, k⟩ := fault
        rw [hread] at h
        exact ⟨w, k, annotate_eq_error_iff.mp hread, (Except.error.inj h).symm⟩
  · rintro ⟨w, k, hdangles, rfl⟩
    rw [annotate_of_dangles hdangles]
    rfl

theorem exists_read_eq_ok_iff : (∃ q, b.read stem sources = .ok q) ↔ ¬ b.IsMalformed := by
  constructor
  · rintro ⟨q, hq⟩ ⟨w, k, hdangles⟩
    rw [read_eq_error_iff.mpr ⟨w, k, hdangles, rfl⟩] at hq
    contradiction
  · intro hwell
    cases h : b.read stem sources with
    | ok q => exact ⟨q, rfl⟩
    | error e =>
        obtain ⟨w, k, hdangles, -⟩ := read_eq_error_iff.mp h
        exact absurd ⟨w, k, hdangles⟩ hwell

/-- **Comments are read item by item.** Reading a comment fails exactly if its last word is a key that takes a
value and starts an item, and then at that key. Otherwise the words split into items in one way, and the facts
of the property are those that the last items state. Extraction fails exactly if some block is malformed, with
the error of the first one. -/
theorem properties_items (stem : String) (sources : Sources) :
    (∀ (p : Property) (pos : Nat) (comment : List Char),
      Laid ((wordsFrom pos comment).map (·.text)) comment ∧
      (∀ items items', Splits items (wordsFrom pos comment) → Splits items' (wordsFrom pos comment) →
        items = items') ∧
      (∀ w k, annotate p (wordsFrom pos comment) = .error (w, k) ↔ Dangles (wordsFrom pos comment) w k) ∧
      ∀ q, annotate p (wordsFrom pos comment) = .ok q ↔
        ∃ items, Splits items (wordsFrom pos comment) ∧ Describes p items q) ∧
    (∀ b : PropertyBlock, (∀ k, factOf? (b.property stem.toList) k = none) ∧
      (b.property stem.toList).isRangeMarker = false) ∧
    (∀ e, properties stem sources = .error e ↔ ∃ before b after w k,
      propertyBlocks stem.toList sources.text.toList = before ++ b :: after ∧
      (∀ c ∈ before, ¬ c.IsMalformed) ∧ Dangles b.words w k ∧
      e = missingValue sources w k (b.property stem.toList).name) ∧
    ∀ ps, properties stem sources = .ok ps ↔
      List.Forall₂ (fun b p => ∃ items, Splits items b.words ∧ Describes (b.property stem.toList) items p)
        (propertyBlocks stem.toList sources.text.toList) ps := by
  refine ⟨?_, ?_, ?_, ?_⟩
  · intro p pos comment
    exact ⟨Text.laid_wordsFrom pos comment, fun items items' h h' => h.unique h',
      fun w k => annotate_eq_error_iff, fun q => annotate_eq_ok_iff_describes⟩
  · intro b
    refine ⟨?_, rfl⟩
    intro k
    cases k <;> rfl
  · intro e
    rw [properties, mapM_eq_error_iff]
    simp only [exists_read_eq_ok_iff, read_eq_error_iff]
    constructor
    · rintro ⟨before, b, after, hblocks, hbefore, w, k, hdangles, he⟩
      exact ⟨before, b, after, w, k, hblocks, hbefore, hdangles, he⟩
    · rintro ⟨before, b, after, w, k, hblocks, hbefore, hdangles, he⟩
      exact ⟨before, b, after, hblocks, hbefore, w, k, hdangles, he⟩
  · intro ps
    rw [properties, mapM_eq_ok_iff]
    simp only [read_eq_ok_iff]

end HalConstants.Header
