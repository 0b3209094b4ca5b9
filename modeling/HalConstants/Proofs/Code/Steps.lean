import HalConstants.Proofs.Code.Lines
import Mathlib.Algebra.BigOperators.Group.List.Basic
import Mathlib.Algebra.Ring.Int.Defs
import Mathlib.Data.List.Induction
import Mathlib.Order.Bounds.Image

/-!
# Sequences of builder steps

The independent reading of generated code is a list of rows: each line of code and each comment with the
depth at which it is nested, and blanks, which have none. A builder that takes any steps appends to its text
exactly the printed rows of each step at the level it has reached. Fragments leave the level as they found it.
The level itself is a counter that stops at zero: a dedent there is void, and no later indent pays for it
(`isGreatest_level_run`).
-/

namespace HalConstants

/-- A line of generated code with the depth at which it is nested. -/
inductive Row where
  | code (depth : Nat) (text : String)
  | comment (depth : Nat) (text : String)
  | blank

namespace Fragment

mutual

/-- The rows of a fragment that stands at a depth: a block's own lines there, its body one deeper. -/
def rows (depth : Nat) : Fragment → List Row
  | .line text => [.code depth text]
  | .comment text => [.comment depth text]
  | .blank => [.blank]
  | .block header body close =>
    .code depth header :: rowsOfAll (depth + 1) body ++ close.toList.map (.code depth)

def rowsOfAll (depth : Nat) : List Fragment → List Row
  | [] => []
  | f :: fs => f.rows depth ++ rowsOfAll depth fs

end

theorem rowsOfAll_append (depth : Nat) (fs gs : List Fragment) :
    rowsOfAll depth (fs ++ gs) = rowsOfAll depth fs ++ rowsOfAll depth gs := by
  induction fs with
  | nil => rfl
  | cons f fs ih =>
      show f.rows depth ++ rowsOfAll depth (fs ++ gs) = _
      rw [ih, rowsOfAll, List.append_assoc]

theorem rowsOfAll_map_line {α : Type} (depth : Nat) (text : α → String) (as : List α) :
    rowsOfAll depth (as.map fun a => .line (text a)) = as.map fun a => .code depth (text a) := by
  induction as with
  | nil => rfl
  | cons a as ih =>
      show .code depth (text a) :: rowsOfAll depth (as.map fun a => .line (text a)) = _
      rw [ih, List.map_cons]

end Fragment

namespace Row

def spaces (n : Nat) : String := String.ofList (List.replicate n ' ')

/-- A row as text, below a level. Blanks carry no spaces, and an empty comment is the bare marker. -/
def print (l : Layout) (level : Nat) : Row → String
  | code depth text => spaces (l.width * (level + depth)) ++ text ++ "\n"
  | comment depth text =>
    spaces (l.width * (level + depth)) ++ l.comments.marker ++ (if text = "" then "" else " " ++ text) ++ "\n"
  | blank => "\n"

def printAll (l : Layout) (level : Nat) (rows : List Row) : String :=
  String.join (rows.map (print l level))

end Row

variable {l : Layout} {n d : Nat} {as bs : List Row}

theorem Row.printAll_append :
    Row.printAll l n (as ++ bs) = Row.printAll l n as ++ Row.printAll l n bs := by
  unfold Row.printAll
  rw [List.map_append, String.join_append]

theorem Row.printAll_cons (row : Row) :
    Row.printAll l n (row :: as) = row.print l n ++ Row.printAll l n as := by
  unfold Row.printAll
  rw [List.map_cons, String.join_cons]

theorem pushn_eq_spaces (s : String) (n : Nat) : s.pushn ' ' n = s ++ Row.spaces n := by
  apply String.toList_inj.mp
  rw [toList_pushn, String.toList_append, Row.spaces, String.toList_ofList]

theorem Layout.margin_eq_spaces (l : Layout) (level : Nat) :
    l.margin level = Row.spaces (l.width * level) := by
  unfold margin
  rw [pushn_eq_spaces, String.empty_append]

theorem CommentStyle.line_eq_marker_append (style : CommentStyle) (text : String) :
    style.line text = style.marker ++ (if text = "" then "" else " " ++ text) := by
  unfold line
  by_cases h : text = ""
  · simp [h]
  · simp [h, String.append_assoc]

/-! ## Fragments below a level

A fragment laid out at level `n + d` is its rows at depth `d`, printed below level `n`. -/

theorem unlines_line (text : String) :
    unlines [l.margin (n + d) ++ text] = (Row.code d text).print l n := by
  rw [l.margin_eq_spaces]
  simp [unlines, Row.print]

theorem unlines_comment (text : String) :
    unlines [l.margin (n + d) ++ l.comments.line text] = (Row.comment d text).print l n := by
  rw [unlines_line, CommentStyle.line_eq_marker_append]
  simp only [Row.print, String.append_assoc]

theorem unlines_close (close : Option String) :
    unlines (close.toList.map (l.margin (n + d) ++ ·)) =
      Row.printAll l n (close.toList.map (Row.code d)) := by
  cases close with
  | none => rfl
  | some last =>
      show unlines [l.margin (n + d) ++ last] = Row.printAll l n [.code d last]
      rw [unlines_line, Row.printAll_cons]
      exact (String.append_empty).symm

mutual

theorem unlines_lines : ∀ (d : Nat) (f : Fragment),
    unlines (l.lines (n + d) f) = Row.printAll l n (f.rows d)
  | d, .line text => by
      rw [Layout.lines, unlines_line, Fragment.rows, Row.printAll_cons]
      exact (String.append_empty).symm
  | d, .comment text => by
      rw [Layout.lines, unlines_comment, Fragment.rows, Row.printAll_cons]
      exact (String.append_empty).symm
  | d, .blank => by
      rw [Layout.lines, Fragment.rows]
      rfl
  | d, .block header body close => by
      have hbody := unlines_linesOfAll (d + 1) body
      rw [Layout.lines, Fragment.rows, ← List.singleton_append, unlines_append, unlines_append,
        unlines_line, unlines_close, Nat.add_assoc, hbody, Row.printAll_append, Row.printAll_cons]

theorem unlines_linesOfAll : ∀ (d : Nat) (fs : List Fragment),
    unlines (l.linesOfAll (n + d) fs) = Row.printAll l n (Fragment.rowsOfAll d fs)
  | d, [] => by
      rw [Layout.linesOfAll, Fragment.rowsOfAll]
      rfl
  | d, f :: fs => by
      rw [Layout.linesOfAll, Fragment.rowsOfAll, unlines_append, unlines_lines d f,
        unlines_linesOfAll d fs, Row.printAll_append]

end

namespace Builder

/-! ## Steps -/

inductive Step where
  | line (text : String)
  | comment (text : String)
  | blank
  | indent
  | dedent
  | emit (fs : List Fragment)

namespace Step

/-- The rows that a step writes below the level where it is taken. -/
def rows : Step → List Row
  | line text => [.code 0 text]
  | comment text => [.comment 0 text]
  | blank => [.blank]
  | indent | dedent => []
  | emit fs => Fragment.rowsOfAll 0 fs

def levelAfter (level : Nat) : Step → Nat
  | indent => level + 1
  | dedent => level - 1
  | _ => level

/-- The levels that a step asks for, down as well as up. -/
def turn : Step → Int
  | indent => 1
  | dedent => -1
  | _ => 0

/-- What steps write in turn, from a level on. -/
def written (l : Layout) : Nat → List Step → String
  | _, [] => ""
  | level, s :: ss => Row.printAll l level s.rows ++ written l (s.levelAfter level) ss

def net (ss : List Step) : Int := (ss.map turn).sum

end Step

open Step

def apply (b : Builder) : Step → Builder
  | .line text => b.line text
  | .comment text => b.comment text
  | .blank => b.blank
  | .indent => b.indent
  | .dedent => b.dedent
  | .emit fs => b.emit fs

def run (b : Builder) (ss : List Step) : Builder := ss.foldl apply b

variable {b : Builder} {ss ts : List Step}

theorem run_append (b : Builder) (ss ts : List Step) : b.run (ss ++ ts) = (b.run ss).run ts := by
  unfold run
  rw [List.foldl_append]

theorem net_append : net (ss ++ ts) = net ss + net ts := by
  unfold net
  rw [List.map_append, List.sum_append]

theorem emit_eq_rows (b : Builder) (fs : List Fragment) :
    b.emit fs = { b with text := b.text ++ Row.printAll b.layout b.level (Fragment.rowsOfAll 0 fs) } := by
  have hrows : unlines (b.layout.linesOfAll (b.level + 0) fs) =
      Row.printAll b.layout b.level (Fragment.rowsOfAll 0 fs) := unlines_linesOfAll 0 fs
  rw [emit_eq, ← hrows]
  rfl

/-- **One step** appends its rows at the level where it is taken, and keeps the layout. -/
theorem apply_eq (b : Builder) (s : Step) : b.apply s =
    { b with level := s.levelAfter b.level, text := b.text ++ Row.printAll b.layout b.level s.rows } := by
  have hsilent : b.text = b.text ++ Row.printAll b.layout b.level [] := (String.append_empty).symm
  cases s with
  | line text => exact b.emit_eq_rows [.line text]
  | comment text => exact b.emit_eq_rows [.comment text]
  | blank => exact b.emit_eq_rows [.blank]
  | indent =>
      show { b with level := b.level + 1 } = _
      rw [Step.rows, ← hsilent]
      rfl
  | dedent =>
      show { b with level := b.level - 1 } = _
      rw [Step.rows, ← hsilent]
      rfl
  | emit fs => exact b.emit_eq_rows fs

/-- **A run** appends what its steps write in turn. -/
theorem text_run (b : Builder) (ss : List Step) :
    (b.run ss).text = b.text ++ written b.layout b.level ss := by
  induction ss generalizing b with
  | nil => exact (String.append_empty).symm
  | cons s ss ih =>
      show ((b.apply s).run ss).text = _
      rw [ih, apply_eq, written, String.append_assoc]

theorem layout_run (b : Builder) (ss : List Step) : (b.run ss).layout = b.layout := by
  induction ss generalizing b with
  | nil => rfl
  | cons s ss ih =>
      show ((b.apply s).run ss).layout = _
      rw [ih, apply_eq]

theorem run_snoc (b : Builder) (ss : List Step) (s : Step) : b.run (ss ++ [s]) = (b.run ss).apply s := by
  rw [run_append]
  rfl

/-- **The next step** of a run appends its rows at the level that the run has reached. -/
theorem run_snoc_eq (b : Builder) (ss : List Step) (s : Step) : b.run (ss ++ [s]) =
    { b.run ss with
      level := s.levelAfter (b.run ss).level
      text := (b.run ss).text ++ Row.printAll b.layout (b.run ss).level s.rows } := by
  rw [run_snoc, apply_eq, ← b.layout_run ss]

/-! ## The level of a run -/

theorem cast_levelAfter (s : Step) (level : Nat) :
    (s.levelAfter level : Int) = max 0 (level + s.turn) := by
  cases s <;> simp only [levelAfter, turn] <;> omega

/-- Every net number of levels that the last steps of a run ask for, the whole run counted from a level. -/
def asked (level : Nat) (ss : List Step) : Set Int :=
  insert (level + net ss) { asked | ∃ post, post <:+ ss ∧ asked = net post }

theorem asked_snoc (level : Nat) (ss : List Step) (s : Step) :
    asked level (ss ++ [s]) = insert 0 ((· + s.turn) '' asked level ss) := by
  have hnet (post : List Step) : net (post ++ [s]) = net post + s.turn := by
    rw [net_append]
    simp [net]
  ext x
  simp only [asked, Set.mem_insert_iff, Set.mem_ofPred_eq, Set.mem_image]
  constructor
  · rintro (rfl | ⟨post, hpost, rfl⟩)
    · exact .inr ⟨level + net ss, .inl rfl, by rw [hnet]; omega⟩
    · rcases List.suffix_concat_iff.mp hpost with rfl | ⟨front, rfl, hfront⟩
      · exact .inl rfl
      · exact .inr ⟨net front, .inr ⟨front, hfront, rfl⟩, (hnet front).symm⟩
  · rintro (rfl | ⟨x, rfl | ⟨post, hpost, rfl⟩, rfl⟩)
    · exact .inr ⟨[], List.nil_suffix, rfl⟩
    · exact .inl (by rw [hnet]; omega)
    · exact .inr ⟨post ++ [s], List.suffix_concat_iff.mpr (.inr ⟨post, rfl, hpost⟩), (hnet post).symm⟩

/-- **The level stops at zero**: it is the greatest net number of levels that the steps from some point
on ask for, so that a dedent at level zero is not owed back. -/
theorem isGreatest_level_run (b : Builder) (ss : List Step) :
    IsGreatest (asked b.level ss) ((b.run ss).level : Int) := by
  induction ss using List.reverseRecOn with
  | nil =>
      constructor
      · exact .inl (Int.add_zero _).symm
      · rintro x (rfl | ⟨post, hpost, rfl⟩)
        · exact (Int.add_zero _).le
        · rw [List.suffix_nil.mp hpost]
          exact Int.natCast_nonneg _
  | append_singleton ss s ih =>
      have hturn : Monotone fun x : Int => x + s.turn := fun x y h => Int.add_le_add_right h s.turn
      rw [run_snoc, apply_eq, cast_levelAfter, asked_snoc]
      exact (hturn.map_isGreatest ih).insert 0

/-- A dedent at level zero is void, whatever follows. -/
theorem run_dedent_of_level_eq_zero (h : (b.run ss).level = 0) (ts : List Step) :
    b.run (ss ++ .dedent :: ts) = b.run (ss ++ ts) := by
  have hvoid : (b.run ss).apply .dedent = b.run ss := by
    show { b.run ss with level := (b.run ss).level - 1 } = b.run ss
    rw [show (b.run ss).level - 1 = (b.run ss).level by omega]
  rw [run_append, run_append]
  show ((b.run ss).apply .dedent).run ts = (b.run ss).run ts
  rw [hvoid]

/-- **Code is written by its depth, whatever came before.** Every step appends its rows at the level reached,
fragments keep that level, and dedents at level zero are void and never owed back. -/
theorem run_writes_rows (b : Builder) (ss : List Step) :
    (b.run ss).text = b.text ++ written b.layout b.level ss ∧
    (∀ s, b.run (ss ++ [s]) =
      { b.run ss with
        level := s.levelAfter (b.run ss).level
        text := (b.run ss).text ++ Row.printAll b.layout (b.run ss).level s.rows }) ∧
    (∀ fs, (b.run (ss ++ [.emit fs])).level = (b.run ss).level) ∧
    IsGreatest (asked b.level ss) ((b.run ss).level : Int) ∧
    ((b.run ss).level = 0 → ∀ ts, b.run (ss ++ .dedent :: ts) = b.run (ss ++ ts)) := by
  refine ⟨b.text_run ss, b.run_snoc_eq ss, ?_, b.isGreatest_level_run ss, run_dedent_of_level_eq_zero⟩
  intro fs
  rw [run_snoc_eq]
  rfl

theorem run_writes_rows_void_dedent :
    let b : Builder := { layout := { width := 2, comments := .hash } }
    (b.run [.indent, .dedent]).level = 0 ∧
      b.run ([.indent, .dedent] ++ .dedent :: [.indent, .comment ""]) =
        b.run ([.indent, .dedent] ++ [.indent, .comment ""]) :=
  ⟨rfl, (run_writes_rows _ [.indent, .dedent]).2.2.2.2 rfl [.indent, .comment ""]⟩

example : (Builder.run { layout := { width := 2, comments := .hash } }
    [.dedent, .indent, .emit [.block "a" [.comment "", .blank] none], .line "b"]).text =
      "  a\n    #\n\n  b\n" := by decide +kernel

end Builder

end HalConstants
