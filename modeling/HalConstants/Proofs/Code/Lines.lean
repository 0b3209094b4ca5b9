import HalConstants.Code.Builder
import HalConstants.Code.License
import HalConstants.Proofs.Pieces
import HalConstants.Proofs.Text.Words

/-!
# The lines of rendered code

A text that is written line by line is split back into exactly its lines, so two such texts are equal only
if their lines are. Plain fragments are laid out as lines. Where a run of lines, or of characters, is followed
by one of another kind, the run ends there in every reading (`append_inj_of_head`).
-/

namespace HalConstants

variable {α : Type} {p : α → Prop} {xs ys rest rest' : List α} {ls ls' : List String} {a b s : String}
variable {f : Fragment} {fs gs : List Fragment} {l : Layout} {level : Nat}

/-- A text without a line break. -/
def IsLine (s : String) : Prop := '\n' ∉ s.toList

instance : DecidablePred IsLine := fun s => inferInstanceAs (Decidable ('\n' ∉ s.toList))

/-- A text without blanks. -/
def BlankFree (s : String) : Prop := ∀ c ∈ s.toList, Text.isInk c

instance : DecidablePred BlankFree := fun s => decidable_of_iff (s.toList.all Text.isInk) List.all_eq_true

/-- The pieces of a text between its line feeds. -/
def linesOf (text : String) : List String := (text.toList.splitOn '\n').map String.ofList

/-- A literal is a line if its characters hold no line feed. -/
theorem isLine_ofList {cs : List Char} (h : '\n' ∉ cs) : IsLine (String.ofList cs) := by
  rwa [IsLine, String.toList_ofList]

theorem isLine_append (ha : IsLine a) (hb : IsLine b) : IsLine (a ++ b) := by
  simpa [IsLine] using ⟨ha, hb⟩

theorem BlankFree.isLine (h : BlankFree s) : IsLine s := by
  intro hmem
  have := h _ hmem
  contradiction

theorem isLine_nat (n : Nat) : IsLine (toString n) := by
  rw [IsLine, Nat.toString_eq_repr, Nat.toList_repr]
  intro h
  have := Nat.isDigit_of_mem_toDigits (by decide) (by decide) h
  contradiction

theorem isLine_int (i : Int) : IsLine (toString i) := by
  rw [Int.toString_eq_repr, Int.repr_eq_if]
  have hminus : IsLine "-" := by decide
  split
  · exact isLine_nat _
  · exact isLine_append hminus (isLine_nat _)

theorem toList_unlines (ls : List String) :
    (unlines ls).toList = ['\n'].intercalate ((ls ++ [""]).map String.toList) := by
  induction ls with
  | nil => rfl
  | cons l ls ih =>
      have hcons : unlines (l :: ls) = l ++ "\n" ++ unlines ls := by
        rw [← List.singleton_append, unlines_append]
        simp [unlines]
      have hne : (ls ++ [""]).map String.toList ≠ [] := by simp
      rw [hcons, String.toList_append, ih, List.cons_append, List.map_cons,
        List.intercalate_cons_of_ne_nil hne]
      simp

theorem linesOf_unlines (h : ∀ l ∈ ls, IsLine l) : linesOf (unlines ls) = ls ++ [""] := by
  have hlines : ∀ cs ∈ (ls ++ [""]).map String.toList, '\n' ∉ cs := by
    intro cs hcs
    obtain ⟨l, hl, rfl⟩ := List.mem_map.mp hcs
    rcases List.mem_append.mp hl with hl | hl
    · exact h l hl
    · rw [List.mem_singleton.mp hl]
      decide
  rw [linesOf, toList_unlines, List.splitOn_intercalate '\n' hlines (by simp), List.map_map]
  simp

theorem unlines_inj (h : ∀ l ∈ ls, IsLine l) (h' : ∀ l ∈ ls', IsLine l)
    (heq : unlines ls = unlines ls') : ls = ls' := by
  have hlines := congrArg linesOf heq
  rwa [linesOf_unlines h, linesOf_unlines h', List.append_left_inj] at hlines

/-! ## Taking texts apart -/

/-- **A run is determined by what follows it.** -/
theorem append_inj_of_head (hxs : ∀ x ∈ xs, p x) (hys : ∀ y ∈ ys, p y)
    (hrest : ∀ x ∈ rest.head?, ¬ p x) (hrest' : ∀ x ∈ rest'.head?, ¬ p x)
    (h : xs ++ rest = ys ++ rest') : xs = ys ∧ rest = rest' := by
  rcases List.append_eq_append_iff.mp h with ⟨as, rfl, hsplit⟩ | ⟨as, rfl, hsplit⟩
  · cases as with
    | nil => simpa using hsplit
    | cons a as => exact absurd (hys a (by simp)) (hrest a (by simp [hsplit]))
  · cases as with
    | nil => simpa using hsplit.symm
    | cons a as => exact absurd (hxs a (by simp)) (hrest' a (by simp [hsplit]))

/-- Texts around a mark are equal if the marks meet, or if one text passes the mark of the other. -/
theorem append_cons_eq_append_cons_iff {x : α} {as bs : List α} : xs ++ x :: as = ys ++ x :: bs ↔
    (xs = ys ∧ as = bs) ∨ (∃ mid, ys = xs ++ x :: mid ∧ as = mid ++ x :: bs) ∨
      ∃ mid, xs = ys ++ x :: mid ∧ bs = mid ++ x :: as := by
  constructor
  · intro h
    rcases List.append_eq_append_iff.mp h with ⟨ls, rfl, hsplit⟩ | ⟨ls, rfl, hsplit⟩
    · cases ls with
      | nil => exact .inl ⟨(List.append_nil xs).symm, (List.cons.inj hsplit).2⟩
      | cons l mid =>
          obtain ⟨rfl, htail⟩ := List.cons.inj hsplit
          exact .inr (.inl ⟨mid, rfl, htail⟩)
    · cases ls with
      | nil => exact .inl ⟨List.append_nil ys, (List.cons.inj hsplit).2.symm⟩
      | cons l mid =>
          obtain ⟨rfl, htail⟩ := List.cons.inj hsplit
          exact .inr (.inr ⟨mid, rfl, htail⟩)
  · rintro (⟨rfl, rfl⟩ | ⟨mid, rfl, rfl⟩ | ⟨mid, rfl, rfl⟩)
    · rfl
    · rw [List.append_assoc, List.cons_append]
    · rw [List.append_assoc, List.cons_append]

/-- A text without blanks ends in front of the first space. -/
theorem append_space_inj {v w as bs : List Char} (hv : ∀ c ∈ v, Text.isInk c) (hw : ∀ c ∈ w, Text.isInk c)
    (h : v ++ ' ' :: as = w ++ ' ' :: bs) : v = w ∧ as = bs := by
  have hspace : ∀ cs : List Char, ∀ c ∈ (' ' :: cs).head?, ¬ Text.isInk c := by
    intro cs c hc
    obtain rfl : ' ' = c := by simpa using hc
    decide
  obtain ⟨hvw, hab⟩ := append_inj_of_head (p := (Text.isInk ·)) hv hw (hspace as) (hspace bs) h
  exact ⟨hvw, (List.cons.inj hab).2⟩

/-- A text without blanks starts behind the last space. -/
theorem append_space_inj_right {v w as bs : List Char} (hv : ∀ c ∈ v, Text.isInk c)
    (hw : ∀ c ∈ w, Text.isInk c) (h : as ++ ' ' :: v = bs ++ ' ' :: w) : as = bs ∧ v = w := by
  have hrev : v.reverse ++ ' ' :: as.reverse = w.reverse ++ ' ' :: bs.reverse := by
    simpa using congrArg List.reverse h
  obtain ⟨hvw, hab⟩ := append_space_inj (by simpa using hv) (by simpa using hw) hrev
  exact ⟨List.reverse_inj.mp hab, List.reverse_inj.mp hvw⟩

theorem isLine_intercalate {ss : List String} (hs : IsLine s) (h : ∀ t ∈ ss, IsLine t) :
    IsLine (s.intercalate ss) := by
  rw [IsLine, String.toList_intercalate]
  cases ss with
  | nil => exact List.not_mem_nil
  | cons t ss =>
      rw [List.forall_mem_cons] at h
      rw [List.map_cons, intercalate_cons_eq_flatMap, List.mem_append, List.flatMap_map, List.mem_flatMap]
      rintro (hmem | ⟨t, ht, hmem⟩)
      · exact h.1 hmem
      · exact (List.mem_append.mp hmem).elim hs (h.2 t ht)

theorem head_flatMap_mark {β : Type} {x y : α} {mark : List α} {body : β → List α} {as : List β}
    (h : y ∈ (as.flatMap (x :: mark ++ body ·)).head?) : x = y := by
  cases as with
  | nil => contradiction
  | cons a as => exact Option.some.inj h

/-- **Pieces are told apart** by a mark in front of each one that starts with what no piece holds. -/
theorem flatMap_mark_inj {β : Type} (x : α) (mark : List α) (body : β → List α) {as bs : List β}
    (hx : ¬ p x) (has : ∀ a ∈ as, ∀ x ∈ body a, p x)
    (hbs : ∀ b ∈ bs, ∀ x ∈ body b, p x) (hinj : ∀ a b, body a = body b → a = b)
    (h : as.flatMap (x :: mark ++ body ·) = bs.flatMap (x :: mark ++ body ·)) : as = bs := by
  have hhead : ∀ cs : List β, ∀ y ∈ (cs.flatMap (x :: mark ++ body ·)).head?, ¬ p y := by
    intro cs y hy
    exact head_flatMap_mark hy ▸ hx
  induction as generalizing bs with
  | nil =>
      cases bs with
      | nil => rfl
      | cons b bs => contradiction
  | cons a as ih =>
      cases bs with
      | nil => contradiction
      | cons b bs =>
          obtain ⟨ha, has⟩ := List.forall_mem_cons.mp has
          obtain ⟨hb, hbs⟩ := List.forall_mem_cons.mp hbs
          rw [List.flatMap_cons, List.flatMap_cons, List.append_assoc, List.append_assoc,
            List.append_right_inj] at h
          obtain ⟨hbody, hrest⟩ := append_inj_of_head ha hb (hhead as) (hhead bs) h
          rw [hinj a b hbody, ih has hbs hrest]

/-- A piece whose first element is told apart from all behind it. -/
def IsMarked (p : α → Prop) (piece : List α) : Prop := ∃ x xs, piece = x :: xs ∧ ¬ p x ∧ ∀ y ∈ xs, p y

theorem head_flatten_of_isMarked {pieces : List (List α)} (h : ∀ piece ∈ pieces, IsMarked p piece) :
    ∀ x ∈ pieces.flatten.head?, ¬ p x := by
  intro x hx
  cases pieces with
  | nil => contradiction
  | cons piece pieces =>
      obtain ⟨y, ys, rfl, hy, -⟩ := h piece (.head pieces)
      obtain rfl : y = x := Option.some.inj hx
      exact hy

/-- **Joined pieces come apart at their marks.** -/
theorem flatten_inj_of_isMarked {as bs : List (List α)} (has : ∀ a ∈ as, IsMarked p a)
    (hbs : ∀ b ∈ bs, IsMarked p b) (h : as.flatten = bs.flatten) : as = bs := by
  induction as generalizing bs with
  | nil =>
      cases bs with
      | nil => rfl
      | cons b bs =>
          obtain ⟨y, ys, rfl, -⟩ := hbs b (.head bs)
          contradiction
  | cons a as ih =>
      obtain ⟨⟨x, xs, rfl, -, hxs⟩, hmore⟩ := List.forall_mem_cons.mp has
      cases bs with
      | nil => contradiction
      | cons b bs =>
          obtain ⟨⟨y, ys, rfl, -, hys⟩, hmore'⟩ := List.forall_mem_cons.mp hbs
          obtain ⟨rfl, hjoined⟩ := List.cons.inj h
          obtain ⟨rfl, hrest⟩ := append_inj_of_head hxs hys (head_flatten_of_isMarked hmore)
            (head_flatten_of_isMarked hmore') hjoined
          rw [ih hmore hmore' hrest]

/-! ## Fragments -/

/-- The texts of a fragment have no line breaks. -/
inductive Fragment.Plain : Fragment → Prop
  | line {text : String} (h : IsLine text) : Plain (.line text)
  | comment {text : String} (h : IsLine text) : Plain (.comment text)
  | blank : Plain .blank
  | block {header : String} {body : List Fragment} {close : Option String} (hheader : IsLine header)
      (hbody : ∀ f ∈ body, Plain f) (hclose : ∀ last ∈ close, IsLine last) :
      Plain (.block header body close)

theorem Layout.linesOfAll_eq_flatMap : l.linesOfAll level fs = fs.flatMap (l.lines level) := by
  induction fs with
  | nil => rw [linesOfAll, List.flatMap_nil]
  | cons f fs ih => rw [linesOfAll, List.flatMap_cons, ih]

theorem Layout.lines_ne_nil : l.lines level f ≠ [] := by
  cases f <;> simp [lines]

/-- Fragments are rendered to some text. -/
theorem Layout.render_ne_empty (h : fs ≠ []) : l.render fs ≠ "" := by
  obtain ⟨f, more, rfl⟩ := List.exists_cons_of_ne_nil h
  have hfirst : l.lines 0 f ≠ [] := lines_ne_nil
  obtain ⟨s, ss, hlines⟩ := List.exists_cons_of_ne_nil hfirst
  rw [render_eq, linesOfAll, hlines, List.cons_append, unlines, List.map_cons, String.join_cons]
  simp

theorem toList_pushn (s : String) (c : Char) (n : Nat) :
    (s.pushn c n).toList = s.toList ++ List.replicate n c := by
  rw [String.pushn_eq_repeat_push]
  induction n with
  | zero => simp [Nat.repeat]
  | succ n ih => rw [Nat.repeat, String.toList_push, ih, List.append_assoc, List.replicate_succ']

theorem isLine_pushn (h : IsLine s) (n : Nat) : IsLine (s.pushn ' ' n) := by
  rw [IsLine, toList_pushn]
  simpa [IsLine] using h

theorem isLine_margin : IsLine (l.margin level) :=
  isLine_pushn (isLine_ofList List.not_mem_nil) _

theorem isLine_comment {style : CommentStyle} (h : IsLine s) : IsLine (style.line s) := by
  have hmarker : IsLine style.marker ∧ IsLine (style.marker ++ " ") := by
    cases style <;> decide
  rw [CommentStyle.line]
  split
  · exact hmarker.1
  · exact isLine_append hmarker.2 h

/-- Plain fragments are laid out as lines. -/
theorem Fragment.Plain.isLine (h : f.Plain) : ∀ s ∈ l.lines level f, IsLine s := by
  induction h generalizing level with
  | line h => simpa [Layout.lines] using isLine_append isLine_margin h
  | comment h => simpa [Layout.lines] using isLine_append isLine_margin (isLine_comment h)
  | blank => simp [Layout.lines, IsLine]
  | block hheader _ hclose ih =>
      rw [Layout.lines, Layout.linesOfAll_eq_flatMap]
      intro s hs
      simp only [List.cons_append, List.mem_cons, List.mem_append, List.mem_flatMap, List.mem_map,
        Option.mem_toList] at hs
      rcases hs with rfl | ⟨f, hf, hs⟩ | ⟨last, hlast, rfl⟩
      · exact isLine_append isLine_margin hheader
      · exact ih f hf s hs
      · exact isLine_append isLine_margin (hclose last hlast)

theorem isLine_linesOfAll (h : ∀ f ∈ fs, f.Plain) : ∀ s ∈ l.linesOfAll level fs, IsLine s := by
  rw [Layout.linesOfAll_eq_flatMap]
  intro s hs
  obtain ⟨f, hf, hs⟩ := List.mem_flatMap.mp hs
  exact (h f hf).isLine s hs

/-- **Plain fragments are rendered to their lines.** -/
theorem linesOf_render (h : ∀ f ∈ fs, f.Plain) : linesOf (l.render fs) = l.linesOfAll 0 fs ++ [""] := by
  rw [Layout.render_eq, linesOf_unlines (isLine_linesOfAll h)]

theorem isLine_of_mem_linesOf {text : String} (h : s ∈ linesOf text) : IsLine s := by
  obtain ⟨piece, hpiece, rfl⟩ := List.mem_map.mp h
  exact isLine_ofList (notMem_of_mem_splitOn hpiece)

/-- **A text is split into the lines it was laid out in** exactly if none of them has a line break. -/
theorem linesOf_render_iff :
    linesOf (l.render fs) = l.linesOfAll 0 fs ++ [""] ↔ ∀ s ∈ l.linesOfAll 0 fs, IsLine s := by
  constructor
  · intro h s hs
    have hpiece : s ∈ linesOf (l.render fs) := h ▸ List.mem_append_left [""] hs
    exact isLine_of_mem_linesOf hpiece
  · intro h
    rw [Layout.render_eq, linesOf_unlines h]

theorem linesOfAll_inj_of_render (h : ∀ f ∈ fs, f.Plain) (h' : ∀ f ∈ gs, f.Plain)
    (heq : l.render fs = l.render gs) : l.linesOfAll 0 fs = l.linesOfAll 0 gs := by
  rw [Layout.render_eq, Layout.render_eq] at heq
  exact unlines_inj (isLine_linesOfAll h) (isLine_linesOfAll h') heq

theorem License.isLine_terms : ∀ text ∈ License.terms, IsLine text := by
  simp only [License.terms, List.forall_mem_cons, List.not_mem_nil, false_implies, implies_true, and_true]
  refine ⟨?_, ?_, ?_, ?_, ?_, ?_, ?_, ?_, ?_, ?_, ?_, ?_⟩ <;> exact isLine_ofList (by decide)

theorem License.plain_fragments (license : License) (h : IsLine license.holder) (style : CommentStyle) :
    ∀ f ∈ license.fragments style, f.Plain := by
  have hlines : ∀ text ∈ license.lines, IsLine text := by
    have hyear : IsLine (toString license.year) := isLine_int license.year
    have hcopyright : IsLine "Copyright (C) " ∧ IsLine " " := by decide
    exact List.forall_mem_cons.mpr
      ⟨isLine_append (isLine_append (isLine_append hcopyright.1 hyear) hcopyright.2) h, isLine_terms⟩
  cases style with
  | slash =>
      have hmarks : IsLine "/*" ∧ IsLine " *" ∧ IsLine " * " ∧ IsLine " */" := by decide
      have hbody : ∀ text ∈ license.lines, IsLine (if text.isEmpty then " *" else " * " ++ text) := by
        intro text htext
        split
        · exact hmarks.2.1
        · exact isLine_append hmarks.2.2.1 (hlines text htext)
      simp only [License.fragments, List.cons_append, List.forall_mem_cons, List.forall_mem_append,
        List.forall_mem_map, List.not_mem_nil, false_implies, implies_true, and_true]
      exact ⟨.line hmarks.1, fun text htext => .line (hbody text htext), .line hmarks.2.2.2⟩
  | hash =>
      intro f hf
      obtain ⟨text, htext, rfl⟩ := List.mem_map.mp hf
      exact .comment (hlines text htext)

end HalConstants
