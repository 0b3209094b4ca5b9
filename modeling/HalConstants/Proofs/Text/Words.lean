import HalConstants.Text.Blank

/-!
# The words of a text

A text is a sequence of blanks and words, and `wordInduction` follows it in that form. The words of a text
that is cut in front of a blank are the words of its two halves (`wordsFrom_append`), so nothing but ink on
both sides of a cut can join two words. `Laid ws cs` says that `cs` writes the words `ws` in some layout,
and `Laid.map_text` that every layout is read back as the words it was made of.
-/

namespace HalConstants.Text

variable {a b cs gap rest t w : List Char} {c : Char} {ws : List (List Char)} {pos : Nat}

/-- A non-empty run of ink. -/
def IsWord (cs : List Char) : Prop := cs ≠ [] ∧ ∀ c ∈ cs, isInk c

/-- A non-empty run of blanks. -/
def IsGap (cs : List Char) : Prop := cs ≠ [] ∧ ∀ c ∈ cs, isBlank c

theorem isWord_iff : IsWord cs ↔ cs ≠ [] ∧ cs.all isInk := by
  rw [IsWord, List.all_eq_true]

theorem isGap_iff : IsGap cs ↔ cs ≠ [] ∧ cs.all isBlank := by
  rw [IsGap, List.all_eq_true]

instance : DecidablePred IsWord := fun _ => decidable_of_iff' _ isWord_iff

instance : DecidablePred IsGap := fun _ => decidable_of_iff' _ isGap_iff

/-- `cs` is empty or starts with a blank, so that it does not prolong a word in front of it. -/
def Breaks (cs : List Char) : Prop := ∀ c ∈ cs.head?, isBlank c

theorem isInk_eq_false_iff : isInk c = false ↔ isBlank c := by
  simp [isInk]

theorem isInk_iff : isInk c ↔ isBlank c = false := by
  simp [isInk]

/-- Every printable ASCII character but the space is ink. -/
theorem isInk_of_ascii {c : Char} (hlow : 0x21 ≤ c.toNat) (hhigh : c.toNat ≤ 0x7E) : isInk c := by
  simp only [isInk, isBlank, Bool.not_eq_true', Bool.or_eq_false_iff, Bool.and_eq_false_imp,
    decide_eq_true_eq, decide_eq_false_iff_not, beq_eq_false_iff_ne]
  omega

theorem not_isBlank_of_isInk (h : isInk c) : ¬ isBlank c := by
  rw [isInk_iff.mp h]
  decide

theorem breaks_nil : Breaks [] := by
  simp [Breaks]

theorem breaks_cons : Breaks (c :: cs) ↔ isBlank c := by
  simp [Breaks]

theorem Breaks.append (ha : Breaks a) (hb : Breaks b) : Breaks (a ++ b) := by
  cases a with
  | nil => exact hb
  | cons c a => exact breaks_cons.mpr (breaks_cons.mp ha)

theorem Breaks.of_append (h : Breaks (a ++ b)) : Breaks a := by
  cases a with
  | nil => exact breaks_nil
  | cons c a => exact breaks_cons.mpr (breaks_cons.mp h)

theorem IsGap.breaks_append (h : IsGap gap) : Breaks (gap ++ cs) := by
  obtain ⟨hne, hblank⟩ := h
  cases gap with
  | nil => contradiction
  | cons c gap => exact breaks_cons.mpr (hblank c (by simp))

/-- What breaks a word is not ink at its head. -/
theorem Breaks.head_ink (h : Breaks cs) : ∀ c ∈ cs.head?, isInk c = false :=
  fun c hc => isInk_eq_false_iff.mpr (h c hc)

/-- A word is not blank at its head, whatever stands behind it. -/
theorem IsWord.head_append (hw : IsWord w) : ∀ c ∈ (w ++ rest).head?, isBlank c = false := by
  obtain ⟨hne, hink⟩ := hw
  cases w with
  | nil => contradiction
  | cons d w =>
      rintro c hc
      obtain rfl : d = c := by simpa using hc
      exact isInk_iff.mp (hink d (by simp))

theorem dropWhile_of_head {p : Char → Bool} (h : ∀ c ∈ cs.head?, p c = false) : cs.dropWhile p = cs := by
  cases cs with
  | nil => rfl
  | cons c cs => exact List.dropWhile_cons_of_neg (by simp [h c rfl])

theorem IsWord.reverse (hw : IsWord w) : IsWord w.reverse :=
  ⟨by simpa using hw.1, fun c hc => hw.2 c (List.mem_reverse.mp hc)⟩

theorem breaks_dropWhile : Breaks (cs.dropWhile isInk) := by
  intro c hc
  have h := List.head?_dropWhile_not isInk cs
  rw [hc] at h
  exact isInk_eq_false_iff.mp h

theorem IsWord.append (ha : IsWord a) (hb : IsWord b) : IsWord (a ++ b) := by
  refine ⟨by simp [ha.1], ?_⟩
  intro c hc
  rcases List.mem_append.mp hc with hc | hc
  · exact ha.2 c hc
  · exact hb.2 c hc

theorem IsWord.append_takeWhile (ha : IsWord a) (b : List Char) : IsWord (a ++ b.takeWhile isInk) := by
  refine ⟨by simp [ha.1], ?_⟩
  intro c hc
  rcases List.mem_append.mp hc with hc | hc
  · exact ha.2 c hc
  · exact List.all_eq_true.mp List.all_takeWhile c hc

/-- The ink in front of a break is the whole run. -/
theorem takeWhile_ink (hw : ∀ c ∈ w, isInk c) (hrest : Breaks rest) :
    (w ++ rest).takeWhile isInk = w ∧ (w ++ rest).dropWhile isInk = rest := by
  rw [List.takeWhile_append_of_pos hw, List.dropWhile_append_of_pos hw]
  cases rest with
  | nil => simp
  | cons c rest => simp [isInk_eq_false_iff.mpr (breaks_cons.mp hrest)]

/-- A word between gaps holds no ink behind a blank behind ink. -/
theorem not_sublist_word {x y z : Char} (hgap : ∀ c ∈ gap, isBlank c) (hw : ∀ c ∈ w, isInk c)
    (hrest : ∀ c ∈ rest, isBlank c) (hx : isInk x) (hy : isBlank y) (hz : isInk z) :
    ¬ [x, y, z].Sublist (gap ++ (w ++ rest)) := by
  intro h
  obtain ⟨front, back, heq, hfront, hback⟩ := List.sublist_append_iff.mp h
  cases front with
  | cons d front =>
      obtain ⟨rfl, -⟩ := List.cons.inj heq
      exact not_isBlank_of_isInk hx (hgap x (hfront.subset List.mem_cons_self))
  | nil =>
      -- the last character ends the word at the earliest, so the blank is one of the word
      obtain rfl : [x, y, z] = back := heq
      obtain ⟨word, more, heq, hword, hmore⟩ := List.sublist_append_iff.mp hback
      have hlast : more = [] := by
        apply List.eq_nil_iff_forall_not_mem.mpr
        intro c hc
        have hz' : z ∈ more := by
          have hend := congrArg List.getLast? heq
          rw [List.getLast?_append, List.getLast?_eq_some_getLast (List.ne_nil_of_mem hc)] at hend
          obtain rfl : z = _ := Option.some.inj hend
          exact List.getLast_mem _
        exact not_isBlank_of_isInk hz (hrest z (hmore.subset hz'))
      rw [hlast, List.append_nil] at heq
      exact not_isBlank_of_isInk (hw y (hword.subset (by simp [← heq]))) hy

/-! ## Reading blanks and words -/

theorem wordsFrom_nil : wordsFrom pos [] = [] := wordsFrom_of_all_blank (by simp) pos

theorem wordsFrom_blank (hc : isBlank c) :
    wordsFrom pos (c :: cs) = wordsFrom (pos + c.utf8Size) cs := by
  have hdrop : (c :: cs).dropWhile isBlank = cs.dropWhile isBlank := by simp [hc]
  have htake : (c :: cs).takeWhile isBlank = c :: cs.takeWhile isBlank := by simp [hc]
  rw [wordsFrom]
  split
  · next heq =>
      rw [wordsFrom]
      split
      · rfl
      · next heq' => rw [← hdrop, heq] at heq'; contradiction
  · next d rest heq =>
      rw [wordsFrom]
      split
      · next heq' => rw [← hdrop, heq] at heq'; contradiction
      · next d' rest' heq' =>
          obtain ⟨rfl, rfl⟩ := List.cons.inj (heq.symm.trans (hdrop.trans heq'))
          rw [htake, byteLength_cons, Nat.add_assoc]

theorem wordsFrom_gap (h : ∀ c ∈ gap, isBlank c) :
    wordsFrom pos (gap ++ cs) = wordsFrom (pos + byteLength gap) cs := by
  induction gap generalizing pos with
  | nil => rfl
  | cons c gap ih =>
      obtain ⟨hc, hgap⟩ := List.forall_mem_cons.mp h
      rw [List.cons_append, wordsFrom_blank hc, ih hgap, byteLength_cons, Nat.add_assoc]

/-- Ink up to a blank is one word. -/
theorem wordsFrom_word (hw : IsWord w) (hrest : Breaks rest) :
    wordsFrom pos (w ++ rest) = ⟨pos, w⟩ :: wordsFrom (pos + byteLength w) rest := by
  obtain ⟨hne, hink⟩ := hw
  cases w with
  | nil => contradiction
  | cons c w =>
      obtain ⟨hc, hink⟩ := List.forall_mem_cons.mp hink
      have hdrop : (c :: (w ++ rest)).dropWhile isBlank = c :: (w ++ rest) := by
        simp [isInk_iff.mp hc]
      have htake : (c :: (w ++ rest)).takeWhile isBlank = [] := by
        simp [isInk_iff.mp hc]
      obtain ⟨hword, hstop⟩ := takeWhile_ink hink hrest
      rw [List.cons_append, wordsFrom]
      split
      · next heq => rw [hdrop] at heq; contradiction
      · next d tail heq =>
          obtain ⟨rfl, rfl⟩ := List.cons.inj (hdrop.symm.trans heq)
          rw [htake, hword, hstop]
          simp

/-- Every text is built from blanks and words. -/
theorem wordInduction {motive : List Char → Prop} (nil : motive [])
    (blank : ∀ c cs, isBlank c → motive cs → motive (c :: cs))
    (word : ∀ w rest, IsWord w → Breaks rest → motive rest → motive (w ++ rest)) (cs : List Char) :
    motive cs := by
  induction h : cs.length using Nat.strongRecOn generalizing cs with
  | ind n ih =>
      cases cs with
      | nil => exact nil
      | cons c cs =>
          by_cases hc : isBlank c
          · exact blank c cs hc (ih cs.length (by simp [← h]) cs rfl)
          · -- a text without a leading blank starts with a whole word
            have hsplit := List.takeWhile_append_dropWhile (p := isInk) (l := c :: cs)
            have hword : IsWord ((c :: cs).takeWhile isInk) := by
              refine ⟨?_, List.all_eq_true.mp (List.all_takeWhile)⟩
              simp [isInk, hc]
            rw [← hsplit]
            refine word _ _ hword breaks_dropWhile (ih _ ?_ _ rfl)
            have hlen := congrArg List.length hsplit
            have hpos := List.length_pos_iff.mpr hword.1
            rw [List.length_append] at hlen
            omega

/-- **A text that is cut in front of a blank** has the words of its two halves. -/
theorem wordsFrom_append (hb : Breaks b) :
    wordsFrom pos (a ++ b) = wordsFrom pos a ++ wordsFrom (pos + byteLength a) b := by
  induction a using wordInduction generalizing pos with
  | nil => simp [wordsFrom_nil]
  | blank c a hc ih =>
      rw [List.cons_append, wordsFrom_blank hc, wordsFrom_blank hc, ih, byteLength_cons,
        Nat.add_assoc]
  | word w rest hw hrest ih =>
      rw [List.append_assoc, wordsFrom_word hw (hrest.append hb), wordsFrom_word hw hrest, ih,
        byteLength_append, Nat.add_assoc, List.cons_append]

/-- The word `n` bytes further on. -/
def Word.shift (n : Nat) (w : Word) : Word := ⟨n + w.start, w.text⟩

/-- The words of a text stand where the text stands. -/
theorem wordsFrom_add (n : Nat) : wordsFrom (n + pos) cs = (wordsFrom pos cs).map (Word.shift n) := by
  induction cs using wordInduction generalizing pos with
  | nil => rw [wordsFrom_nil, wordsFrom_nil, List.map_nil]
  | blank c cs hc ih => rw [wordsFrom_blank hc, wordsFrom_blank hc, Nat.add_assoc, ih]
  | word w rest hw hrest ih =>
      rw [wordsFrom_word hw hrest, wordsFrom_word hw hrest, Nat.add_assoc, ih, List.map_cons, Word.shift]

/-- Ink at the end of a text belongs to its last word. -/
theorem wordsFrom_append_ink (pos : Nat) (ht : IsWord t) :
    ∃ init last, wordsFrom pos (a ++ t) = init ++ [last] ∧ t <:+ last.text := by
  induction a using wordInduction generalizing pos with
  | nil =>
      have hword : wordsFrom pos (t ++ []) = _ := wordsFrom_word ht breaks_nil
      rw [wordsFrom_nil, List.append_nil] at hword
      exact ⟨[], ⟨pos, t⟩, hword, List.suffix_refl t⟩
  | blank c a hc ih =>
      rw [List.cons_append, wordsFrom_blank hc]
      exact ih (pos + c.utf8Size)
  | word w rest hw hrest ih =>
      cases rest with
      | nil =>
          have hword : wordsFrom pos (w ++ t ++ []) = _ := wordsFrom_word (hw.append ht) breaks_nil
          rw [wordsFrom_nil, List.append_nil] at hword
          exact ⟨[], ⟨pos, w ++ t⟩, by simpa using hword, List.suffix_append w t⟩
      | cons d rest =>
          obtain ⟨init, last, heq, hlast⟩ := ih (pos + byteLength w)
          refine ⟨⟨pos, w⟩ :: init, last, ?_, hlast⟩
          have hbreak : Breaks (d :: rest ++ t) := breaks_cons.mpr (breaks_cons.mp hrest)
          rw [List.append_assoc, wordsFrom_word hw hbreak, heq, List.cons_append]

/-- Ink at the start of a text belongs to its first word. -/
theorem wordsFrom_ink_append (pos : Nat) (b : List Char) (ht : IsWord t) :
    ∃ first more, wordsFrom pos (t ++ b) = first :: more ∧ t <+: first.text := by
  have hb : t ++ b = (t ++ b.takeWhile isInk) ++ b.dropWhile isInk := by
    rw [List.append_assoc, List.takeWhile_append_dropWhile]
  rw [hb, wordsFrom_word (ht.append_takeWhile b) breaks_dropWhile]
  exact ⟨_, _, rfl, List.prefix_append t _⟩

/-! ## Where words stand -/

theorem bounds_of_mem_wordsFrom {w : Word} (h : w ∈ wordsFrom pos cs) :
    pos ≤ w.start ∧ w.start + w.size ≤ pos + byteLength cs := by
  induction cs using wordInduction generalizing pos with
  | nil => simp [wordsFrom_nil] at h
  | blank c cs hc ih =>
      rw [wordsFrom_blank hc] at h
      have := ih h
      rw [byteLength_cons]
      omega
  | word u rest hu hrest ih =>
      rw [wordsFrom_word hu hrest] at h
      rw [byteLength_append]
      rcases List.mem_cons.mp h with rfl | h
      · simp only [Word.size]
        omega
      · have := ih h
        omega

/-- A word stands in its text at the byte that it names. -/
theorem exists_append_of_mem_wordsFrom {w : Word} (h : w ∈ wordsFrom pos cs) :
    ∃ front back, cs = front ++ (w.text ++ back) ∧ w.start = pos + byteLength front ∧ IsWord w.text := by
  induction cs using wordInduction generalizing pos with
  | nil => simp [wordsFrom_nil] at h
  | blank c cs hc ih =>
      rw [wordsFrom_blank hc] at h
      obtain ⟨front, back, rfl, hstart, hw⟩ := ih h
      exact ⟨c :: front, back, rfl, by rw [hstart, byteLength_cons, Nat.add_assoc], hw⟩
  | word u rest hu hrest ih =>
      rw [wordsFrom_word hu hrest] at h
      rcases List.mem_cons.mp h with rfl | h
      · exact ⟨[], rest, rfl, rfl, hu⟩
      · obtain ⟨front, back, rfl, hstart, hw⟩ := ih h
        refine ⟨u ++ front, back, (List.append_assoc u front _).symm, ?_, hw⟩
        rw [hstart, byteLength_append, Nat.add_assoc]

/-- Words follow each other without overlap. -/
theorem pairwise_wordsFrom :
    (wordsFrom pos cs).Pairwise fun u v => u.start + u.size ≤ v.start := by
  induction cs using wordInduction generalizing pos with
  | nil => simp [wordsFrom_nil]
  | blank c cs hc ih =>
      rw [wordsFrom_blank hc]
      exact ih
  | word w rest hw hrest ih =>
      rw [wordsFrom_word hw hrest]
      refine List.pairwise_cons.mpr ⟨?_, ih⟩
      intro v hv
      exact (bounds_of_mem_wordsFrom hv).1

/-! ## Layouts -/

/-- `cs` writes the words `ws`: blanks stand between them, and perhaps in front of the first and behind
the last. -/
inductive Laid : List (List Char) → List Char → Prop
  | blanks {g : List Char} (hg : ∀ c ∈ g, isBlank c) : Laid [] g
  | word {g v more : List Char} {vs : List (List Char)} (hg : ∀ c ∈ g, isBlank c) (hv : IsWord v)
      (hmore : Breaks more) (h : Laid vs more) : Laid (v :: vs) (g ++ (v ++ more))

/-- **Every layout is read back** as the words it writes. -/
theorem Laid.map_text (h : Laid ws cs) (pos : Nat) : (wordsFrom pos cs).map Word.text = ws := by
  induction h generalizing pos with
  | blanks hg => rw [wordsFrom_of_all_blank hg, List.map_nil]
  | word hg hv hmore _ ih => rw [wordsFrom_gap hg, wordsFrom_word hv hmore, List.map_cons, ih]

theorem Laid.blank {ws : List (List Char)} (hc : isBlank c) (h : Laid ws cs) : Laid ws (c :: cs) := by
  cases h with
  | blanks hg => exact .blanks (List.forall_mem_cons.mpr ⟨hc, hg⟩)
  | @word g v more vs hg hv hmore h =>
      have hgap : ∀ d ∈ c :: g, isBlank d := List.forall_mem_cons.mpr ⟨hc, hg⟩
      exact .word hgap hv hmore h

/-- A text is laid out as its words. -/
theorem laid_wordsFrom (pos : Nat) (cs : List Char) : Laid ((wordsFrom pos cs).map Word.text) cs := by
  induction cs using wordInduction generalizing pos with
  | nil =>
      rw [wordsFrom_nil]
      exact .blanks (List.forall_mem_nil _)
  | blank c cs hc ih =>
      rw [wordsFrom_blank hc]
      exact (ih _).blank hc
  | word w rest hw hrest ih =>
      rw [wordsFrom_word hw hrest]
      exact .word (List.forall_mem_nil _) hw hrest (ih _)

end HalConstants.Text
