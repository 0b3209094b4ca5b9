import HalConstants.Proofs.Header.Annotations
import HalConstants.Proofs.Header.PropertyScan
import HalConstants.Proofs.Traversal

/-!
# The own comment of a property

The comment of a block runs from the first `/**` that a define follows, so it may hold other documentation
comments in front of the one that belongs to the define: the own comment of the block is what stands behind
the last `/**`. `properties_own_comment` says exactly when the annotations of a property all come from its
own comment, namely when no word in front of it is a key, and that a key without its value is always one of
the own comment.
-/

namespace HalConstants.Header

open Text (Word IsWord Breaks byteLength wordsFrom)

variable {stem text : List Char} {b : PropertyBlock} {w : Word} {k : AnnotationKey} {ws : List Word}

namespace PropertyBlock

def words (b : PropertyBlock) : List Word := wordsFrom b.start b.comment

/-- The byte at which the comment of the block ends. -/
def stop (b : PropertyBlock) : Nat := b.start + byteLength b.comment

/-- The byte behind the last `/**` in front of the end of the comment. -/
def ownStart (b : PropertyBlock) : Nat :=
  match Text.cutLast? opening b.comment with
  | some (front, _) => b.start + byteLength (front ++ opening)
  | none => b.start

/-- The word stands in the own comment. -/
def Owns (b : PropertyBlock) (w : Word) : Prop := b.ownStart ≤ w.start ∧ w.start + w.size ≤ b.stop

/-- Every word that an annotation of the block is read from stands in its own comment. -/
def CarriesOwn (b : PropertyBlock) : Prop := ∀ a ∈ annotations b.words, ∀ w ∈ a.words, b.Owns w

/-- No word in front of the own comment is a key. -/
def FrontIsPlain (b : PropertyBlock) : Prop :=
  ∀ w ∈ b.words, w.start < b.ownStart → keyOf? w = none

/-- The property with the annotations of the block. -/
def annotated (b : PropertyBlock) (stem : List Char) : Property :=
  (annotations b.words).foldl Annotation.applyTo (b.property stem)

end PropertyBlock

/-! ## Where the own comment stands -/

/-- **The own comment of a block is the nearest one**: it stands between the last `/**` in front of the
`*/` of the define and that `*/`. -/
theorem exists_own_of_mem_propertyBlocks (h : b ∈ propertyBlocks stem text) :
    ∃ front own after, text = front ++ (opening ++ (own ++ (closing ++ after))) ∧
      ¬ opening <:+: own ∧ b.ownStart = byteLength (front ++ opening) ∧
      b.stop = byteLength (front ++ (opening ++ own)) := by
  obtain ⟨before, gap, gap', after, rfl, hstart, -⟩ := exists_append_of_mem_propertyBlocks h
  cases hcut : Text.cutLast? opening b.comment with
  | none =>
      refine ⟨before, b.comment, _, rfl, ?_, ?_, ?_⟩
      · exact Text.not_infix_of_cutLast?_eq_none (by simp [opening]) hcut
      · rw [PropertyBlock.ownStart, hcut, hstart]
      · rw [PropertyBlock.stop, hstart, ← List.append_assoc, Text.byteLength_append _ b.comment]
  | some cut =>
      obtain ⟨front, own⟩ := cut
      obtain ⟨hcomment, hown⟩ := Text.append_of_cutLast?_eq_some (by simp [opening]) hcut
      refine ⟨before ++ (opening ++ front), own,
        gap ++ (stem ++ (b.suffix ++ (gap' ++ (b.value ++ after)))), ?_, hown, ?_, ?_⟩
      · rw [hcomment]
        simp only [List.append_assoc]
      · rw [PropertyBlock.ownStart, hcut, hstart]
        simp only [Text.byteLength_append]
        omega
      · rw [PropertyBlock.stop, hstart, hcomment]
        simp only [Text.byteLength_append]
        omega

theorem isWord_opening : IsWord opening := by
  decide

theorem slash_notMem_token (k : AnnotationKey) : '/' ∉ k.token.toList := by
  cases k <;> decide

/-- The last word of a text is no key if it reaches back to an opening, so a key that ends the text stands
behind the opening. -/
theorem le_start_of_getLast? {pos : Nat} {front own : List Char}
    (h : (wordsFrom pos (front ++ (opening ++ own))).getLast? = some w) (hw : keyOf? w = some k) :
    pos + byteLength (front ++ opening) ≤ w.start := by
  have hsplit : front ++ (opening ++ own) =
      (front ++ (opening ++ own.takeWhile Text.isInk)) ++ own.dropWhile Text.isInk := by
    simp only [List.append_assoc, List.takeWhile_append_dropWhile]
  have hink : IsWord (opening ++ own.takeWhile Text.isInk) := isWord_opening.append_takeWhile own
  obtain ⟨init, last, hfront, t, hlast⟩ := Text.wordsFrom_append_ink (a := front) pos hink
  rw [hsplit, Text.wordsFrom_append Text.breaks_dropWhile, hfront] at h
  cases hback : wordsFrom (pos + byteLength (front ++ (opening ++ own.takeWhile Text.isInk)))
      (own.dropWhile Text.isInk) with
  | nil =>
      -- the last word holds the opening, and no key does
      rw [hback, List.append_nil, List.getLast?_append] at h
      obtain rfl : last = w := by simpa using h
      have hslash : '/' ∈ last.text := by
        rw [← hlast]
        simp [opening]
      rw [text_of_keyOf? hw] at hslash
      exact absurd hslash (slash_notMem_token k)
  | cons u more =>
      have hmem : w ∈ u :: more := by
        rw [hback, List.getLast?_append] at h
        have hlast : (u :: more).getLast? = some w := by
          simpa [List.getLast?_cons] using h
        exact List.mem_of_getLast? hlast
      rw [← hback] at hmem
      have hbounds := Text.bounds_of_mem_wordsFrom hmem
      simp only [Text.byteLength_append] at hbounds ⊢
      omega

/-! ## What is read from it -/

/-- **A key without its value stands in the own comment.** -/
theorem owns_of_danglingKey? (h : danglingKey? b.words = some (w, k)) : b.Owns w := by
  obtain ⟨hlast, hw⟩ := getLast?_of_danglingKey? h
  have hbounds := Text.bounds_of_mem_wordsFrom (List.mem_of_getLast? hlast)
  refine ⟨?_, hbounds.2⟩
  cases hcut : Text.cutLast? opening b.comment with
  | none =>
      rw [PropertyBlock.ownStart, hcut]
      exact hbounds.1
  | some cut =>
      obtain ⟨front, own⟩ := cut
      obtain ⟨hcomment, -⟩ := Text.append_of_cutLast?_eq_some (by simp [opening]) hcut
      rw [PropertyBlock.ownStart, hcut]
      rw [PropertyBlock.words, hcomment] at hlast
      exact le_start_of_getLast? hlast hw

/-- The words of a comment, in the order in which they stand. -/
def Ordered (ws : List Word) : Prop := ws.Pairwise fun u v => u.start + u.size ≤ v.start

theorem Ordered.le_start {u : Word} {n : Nat} (h : Ordered (u :: ws)) (hu : n ≤ u.start) :
    ∀ w ∈ u :: ws, n ≤ w.start := by
  intro w hw
  rcases List.mem_cons.mp hw with rfl | hw
  · exact hu
  · have := (List.pairwise_cons.mp h).1 w hw
    omega

theorem le_start_of_key {u : Word} {n : Nat} (hplain : ∀ w ∈ u :: ws, w.start < n → keyOf? w = none)
    (hu : keyOf? u = some k) : n ≤ u.start := by
  by_contra hlt
  rw [hplain u (.head ws) (by omega)] at hu
  contradiction

/-- The first key of the words is read, in an annotation or as the key without its value, and all that is
behind it stands behind it. -/
theorem plain_of_annotations {n : Nat} (hordered : Ordered ws)
    (hdangling : ∀ w k, danglingKey? ws = some (w, k) → n ≤ w.start)
    (hread : ∀ a ∈ annotations ws, n ≤ a.word.start) :
    ∀ w ∈ ws, w.start < n → keyOf? w = none := by
  induction ws using wordsInduction with
  | nil => simp
  | other u ws hu ih =>
      rw [danglingKey?_other hu] at hdangling
      rw [annotations_other hu] at hread
      intro w hw hlt
      rcases List.mem_cons.mp hw with rfl | hw
      · exact hu
      · exact ih (List.pairwise_cons.mp hordered).2 hdangling hread w hw hlt
  | mark u l ws hu hl ih =>
      -- from the first key on no word stands in front
      rw [annotations_mark hu hl] at hread
      intro w hw hlt
      have := hordered.le_start (hread _ List.mem_cons_self) w hw
      omega
  | valued u l v ws hu hl ih =>
      rw [annotations_valued hu hl] at hread
      intro w hw hlt
      have := hordered.le_start (hread _ List.mem_cons_self) w hw
      omega
  | dangling u l hu hl =>
      intro w hw hlt
      have := hordered.le_start (hdangling u l (danglingKey?_dangling hu hl)) w hw
      omega

/-- Where no word in front is a key, no annotation is read in front. -/
theorem annotations_of_plain {n : Nat} (hordered : Ordered ws)
    (hplain : ∀ w ∈ ws, w.start < n → keyOf? w = none) :
    ∀ a ∈ annotations ws, ∀ w ∈ a.words, w ∈ ws ∧ n ≤ w.start := by
  induction ws using wordsInduction with
  | nil => simp [annotations]
  | other u ws hu ih =>
      rw [annotations_other hu]
      intro a ha w hw
      have h := ih (List.pairwise_cons.mp hordered).2 (fun v hv => hplain v (.tail u hv)) a ha w hw
      exact ⟨.tail u h.1, h.2⟩
  | mark u l ws hu hl ih =>
      have hstart := hordered.le_start (le_start_of_key hplain hu)
      rw [annotations_mark hu hl]
      intro a ha w hw
      rcases List.mem_cons.mp ha with rfl | ha
      · obtain rfl : w = u := by simpa using hw
        exact ⟨.head ws, hstart w (.head ws)⟩
      · have h := ih (List.pairwise_cons.mp hordered).2 (fun v hv => hplain v (.tail u hv)) a ha w hw
        exact ⟨.tail u h.1, h.2⟩
  | valued u l v ws hu hl ih =>
      have hstart := hordered.le_start (le_start_of_key hplain hu)
      rw [annotations_valued hu hl]
      intro a ha w hw
      rcases List.mem_cons.mp ha with rfl | ha
      · have hmem : w ∈ u :: v :: ws := by
          have hw : w = u ∨ w = v := by simpa using hw
          rcases hw with rfl | rfl <;> simp
        exact ⟨hmem, hstart w hmem⟩
      · have hordered := (List.pairwise_cons.mp (List.pairwise_cons.mp hordered).2).2
        have h := ih hordered (fun x hx => hplain x (.tail u (.tail v hx))) a ha w hw
        exact ⟨.tail u (.tail v h.1), h.2⟩
  | dangling u l hu hl => simp [annotations_dangling hu hl]

/-- **The annotations are the own ones** exactly when no word in front of the own comment is a key. -/
theorem carriesOwn_iff : b.CarriesOwn ↔ b.FrontIsPlain := by
  have hordered : Ordered b.words := Text.pairwise_wordsFrom
  constructor
  · intro h
    refine plain_of_annotations hordered (fun w k hw => (owns_of_danglingKey? hw).1) ?_
    intro a ha
    exact (h a ha a.word (.head _)).1
  · intro h a ha w hw
    obtain ⟨hmem, hstart⟩ := annotations_of_plain hordered h a ha w hw
    exact ⟨hstart, (Text.bounds_of_mem_wordsFrom hmem).2⟩

/-! ## What becomes of the blocks -/

theorem PropertyBlock.read_eq {sources : Sources} : b.read stem sources =
    match danglingKey? b.words with
    | some (w, k) => .error (missingValue sources w k (b.property stem).name)
    | none => .ok (b.annotated stem) := by
  rw [PropertyBlock.read, annotate_eq, ← PropertyBlock.words]
  cases danglingKey? b.words <;> rfl

/-- **A property carries its own annotations** exactly when no word between the opening that its block
starts at and the nearest opening is a key. A failure is always the fault of a key in an own comment. -/
theorem properties_own_comment (stem : String) (sources : Sources) :
    (∀ b ∈ propertyBlocks stem.toList sources.text.toList,
      ∃ front own after, sources.text.toList = front ++ (opening ++ (own ++ (closing ++ after))) ∧
        ¬ opening <:+: own ∧ b.ownStart = byteLength (front ++ opening) ∧
        b.stop = byteLength (front ++ (opening ++ own))) ∧
    match properties stem sources with
    | .ok ps => List.Forall₂ (fun b p => p = b.annotated stem.toList ∧
        (b.CarriesOwn ↔ b.FrontIsPlain)) (propertyBlocks stem.toList sources.text.toList) ps
    | .error e => ∃ b ∈ propertyBlocks stem.toList sources.text.toList, ∃ w k,
        danglingKey? b.words = some (w, k) ∧ b.Owns w ∧
        e = missingValue sources w k (b.property stem.toList).name := by
  refine ⟨fun b hb => exists_own_of_mem_propertyBlocks hb, ?_⟩
  cases h : properties stem sources with
  | ok ps =>
      refine (mapM_eq_ok_iff.mp h).imp ?_
      intro b p hread
      rw [PropertyBlock.read_eq] at hread
      split at hread
      · contradiction
      · exact ⟨(Except.ok.inj hread).symm, carriesOwn_iff⟩
  | error e =>
      obtain ⟨before, b, after, hblocks, -, hread⟩ := exists_of_mapM_eq_error h
      rw [PropertyBlock.read_eq] at hread
      split at hread
      · next w k hdangling =>
          refine ⟨b, ?_, w, k, hdangling, owns_of_danglingKey? hdangling, ?_⟩
          · rw [hblocks]
            simp
          · exact (Except.error.inj hread).symm
      · contradiction

/-- The comment of a struct in front of the block gives the property its access. -/
theorem properties_foreign_access :
    properties "P_" ⟨[⟨"vehicle.h", "/** @access X */ struct s;\n/** @unit Y */\n#define P_A 1\n"⟩]⟩ =
      .ok [⟨"P_A", "1", none, none, some "X", some "Y", false⟩] := by
  decide +kernel

end HalConstants.Header
