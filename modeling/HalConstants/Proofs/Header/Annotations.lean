import HalConstants.Header.Property

/-!
# The annotations of a comment

The words of a comment are read from left to right: a key that takes a value is read together with the word
behind it, whatever that word is, a range key alone, and any other word is passed over. `wordsInduction`
follows a list of words in these steps. `annotations` lists what is read and `danglingKey?` is the key that
is left without its value, and together they are all that `annotate` makes of the words (`annotate_eq`).
-/

namespace HalConstants.Header

open Text (Word)

variable {p : Property} {w v : Word} {ws : List Word} {k : AnnotationKey}

/-- The key that a word spells. -/
def keyOf? (w : Word) : Option AnnotationKey := AnnotationKey.ofToken? (String.ofList w.text)

theorem text_of_keyOf? (h : keyOf? w = some k) : w.text = k.token.toList := by
  rw [← AnnotationKey.ofToken?_eq_some_iff.mp h, String.toList_ofList]

theorem keyOf?_of_text (h : w.text = k.token.toList) : keyOf? w = some k := by
  rw [keyOf?, h, String.ofList_toList, AnnotationKey.ofToken?_token]

/-- Annotations with different keys do not interfere. -/
theorem annotate_comm {l : AnnotationKey} {x y : Option String} (h : k ≠ l) :
    (p.annotate k x).annotate l y = (p.annotate l y).annotate k x := by
  revert h
  cases k <;> cases l <;> simp [Property.annotate]

/-- A word in key position, the key that it spells and the word it takes as its value. -/
structure Annotation where
  word : Word
  key : AnnotationKey
  value : Option Word
deriving DecidableEq, Repr

/-- The words that an annotation is read from. -/
def Annotation.words (a : Annotation) : List Word := a.word :: a.value.toList

@[simp] theorem Annotation.words_mark : Annotation.words ⟨w, k, none⟩ = [w] := rfl

@[simp] theorem Annotation.words_valued : Annotation.words ⟨w, k, some v⟩ = [w, v] := rfl

/-- What an annotation does to a property. -/
def Annotation.applyTo (p : Property) (a : Annotation) : Property :=
  p.annotate a.key (a.value.map (String.ofList ·.text))

/-- The annotations that the words of a comment spell. -/
def annotations : List Word → List Annotation
  | [] => []
  | w :: ws =>
    match keyOf? w, ws with
    | none, ws => annotations ws
    | some k, ws =>
      if k.takesValue then
        match ws with
        | [] => []
        | v :: ws => ⟨w, k, some v⟩ :: annotations ws
      else ⟨w, k, none⟩ :: annotations ws

/-- A key that takes a value and ends the comment in key position. -/
def danglingKey? : List Word → Option (Word × AnnotationKey)
  | [] => none
  | w :: ws =>
    match keyOf? w, ws with
    | none, ws => danglingKey? ws
    | some k, ws =>
      if k.takesValue then
        match ws with
        | [] => some (w, k)
        | _ :: ws => danglingKey? ws
      else danglingKey? ws

/-! ## The steps of the reading -/

theorem wordsInduction {motive : List Word → Prop} (nil : motive [])
    (other : ∀ w ws, keyOf? w = none → motive ws → motive (w :: ws))
    (mark : ∀ w k ws, keyOf? w = some k → k.takesValue = false → motive ws → motive (w :: ws))
    (valued : ∀ w k v ws, keyOf? w = some k → k.takesValue = true → motive ws →
      motive (w :: v :: ws))
    (dangling : ∀ w k, keyOf? w = some k → k.takesValue = true → motive [w])
    (ws : List Word) : motive ws := by
  fun_induction danglingKey? ws with
  | case1 => exact nil
  | case2 w ws h ih => exact other w ws h ih
  | case3 w k h hk => exact dangling w k h hk
  | case4 w k h hk v ws ih => exact valued w k v ws h hk ih
  | case5 w k ws h hk ih => exact mark w k ws h (by simpa using hk) ih

theorem annotate_other (h : keyOf? w = none) : annotate p (w :: ws) = annotate p ws := by
  rw [keyOf?] at h
  rw [annotate.eq_def]
  simp only [h]

theorem annotate_mark (h : keyOf? w = some k) (hk : k.takesValue = false) :
    annotate p (w :: ws) = annotate (p.annotate k none) ws := by
  rw [keyOf?] at h
  rw [annotate.eq_def]
  simp only [h, hk, Bool.false_eq_true, if_false]

theorem annotate_valued (h : keyOf? w = some k) (hk : k.takesValue = true) :
    annotate p (w :: v :: ws) = annotate (p.annotate k (some (String.ofList v.text))) ws := by
  rw [keyOf?] at h
  rw [annotate.eq_def]
  simp only [h, hk, if_true]

theorem annotate_dangling (h : keyOf? w = some k) (hk : k.takesValue = true) :
    annotate p [w] = .error (w, k) := by
  rw [keyOf?] at h
  rw [annotate.eq_def]
  simp only [h, hk, if_true]

theorem annotations_other (h : keyOf? w = none) : annotations (w :: ws) = annotations ws := by
  rw [annotations.eq_def]
  simp only [h]

theorem annotations_mark (h : keyOf? w = some k) (hk : k.takesValue = false) :
    annotations (w :: ws) = ⟨w, k, none⟩ :: annotations ws := by
  rw [annotations.eq_def]
  simp only [h, hk, Bool.false_eq_true, if_false]

theorem annotations_valued (h : keyOf? w = some k) (hk : k.takesValue = true) :
    annotations (w :: v :: ws) = ⟨w, k, some v⟩ :: annotations ws := by
  rw [annotations.eq_def]
  simp only [h, hk, if_true]

theorem annotations_dangling (h : keyOf? w = some k) (hk : k.takesValue = true) :
    annotations [w] = [] := by
  rw [annotations.eq_def]
  simp only [h, hk, if_true]

theorem danglingKey?_other (h : keyOf? w = none) : danglingKey? (w :: ws) = danglingKey? ws := by
  rw [danglingKey?.eq_def]
  simp only [h]

theorem danglingKey?_mark (h : keyOf? w = some k) (hk : k.takesValue = false) :
    danglingKey? (w :: ws) = danglingKey? ws := by
  rw [danglingKey?.eq_def]
  simp only [h, hk, Bool.false_eq_true, if_false]

theorem danglingKey?_valued (h : keyOf? w = some k) (hk : k.takesValue = true) :
    danglingKey? (w :: v :: ws) = danglingKey? ws := by
  rw [danglingKey?.eq_def]
  simp only [h, hk, if_true]

theorem danglingKey?_dangling (h : keyOf? w = some k) (hk : k.takesValue = true) :
    danglingKey? [w] = some (w, k) := by
  rw [danglingKey?.eq_def]
  simp only [h, hk, if_true]

/-- **Reading a comment** applies its annotations from left to right, unless a key is left without its
value. -/
theorem annotate_eq (p : Property) (ws : List Word) : annotate p ws =
    match danglingKey? ws with
    | some fault => .error fault
    | none => .ok ((annotations ws).foldl Annotation.applyTo p) := by
  induction ws using wordsInduction generalizing p with
  | nil => rfl
  | other w ws h ih => rw [annotate_other h, danglingKey?_other h, annotations_other h, ih]
  | mark w k ws h hk ih =>
      rw [annotate_mark h hk, danglingKey?_mark h hk, annotations_mark h hk, ih]
      rfl
  | valued w k v ws h hk ih =>
      rw [annotate_valued h hk, danglingKey?_valued h hk, annotations_valued h hk, ih]
      rfl
  | dangling w k h hk => rw [annotate_dangling h hk, danglingKey?_dangling h hk]

theorem getLast?_of_danglingKey? (h : danglingKey? ws = some (w, k)) :
    ws.getLast? = some w ∧ keyOf? w = some k := by
  induction ws using wordsInduction with
  | nil => simp [danglingKey?] at h
  | other u ws hu ih =>
      rw [danglingKey?_other hu] at h
      simp [List.getLast?_cons, ih h]
  | mark u l ws hu hl ih =>
      rw [danglingKey?_mark hu hl] at h
      simp [List.getLast?_cons, ih h]
  | valued u l v ws hu hl ih =>
      rw [danglingKey?_valued hu hl] at h
      simp [List.getLast?_cons, ih h]
  | dangling u l hu hl =>
      rw [danglingKey?_dangling hu hl] at h
      obtain ⟨rfl, rfl⟩ := Prod.mk.inj (Option.some.inj h)
      exact ⟨rfl, hu⟩

end HalConstants.Header
