/-!
# Fragments of code

Generated code is a tree of fragments: lines, comments, blank lines, and blocks whose body stands one
level deeper than the header. A layout says how wide a level is and how a comment is marked, and so
turns fragments into lines.
-/

namespace HalConstants

inductive CommentStyle where
  | slash
  | hash
deriving DecidableEq, Repr

def CommentStyle.marker : CommentStyle → String
  | slash => "//"
  | hash => "#"

/-- An empty comment is the bare marker, so that no line ends in a space. -/
def CommentStyle.line (style : CommentStyle) (text : String) : String :=
  if text.isEmpty then style.marker else style.marker ++ " " ++ text

inductive Fragment where
  | line (text : String)
  | comment (text : String)
  | blank
  | block (header : String) (body : List Fragment) (close : Option String)

structure Layout where
  width : Nat
  comments : CommentStyle

namespace Layout

def margin (l : Layout) (level : Nat) : String := "".pushn ' ' (l.width * level)

mutual

/-- The lines of a fragment at a level, depth first. -/
def lines (l : Layout) (level : Nat) : Fragment → List String
  | .line text => [l.margin level ++ text]
  | .comment text => [l.margin level ++ l.comments.line text]
  | .blank => [""]
  | .block header body close =>
    (l.margin level ++ header) :: l.linesOfAll (level + 1) body ++
      close.toList.map (l.margin level ++ ·)

def linesOfAll (l : Layout) (level : Nat) : List Fragment → List String
  | [] => []
  | f :: fs => l.lines level f ++ l.linesOfAll level fs

end

theorem linesOfAll_append (l : Layout) (level : Nat) (fs gs : List Fragment) :
    l.linesOfAll level (fs ++ gs) = l.linesOfAll level fs ++ l.linesOfAll level gs := by
  induction fs with
  | nil => simp [linesOfAll]
  | cons f fs ih => simp [linesOfAll, ih, List.append_assoc]

theorem linesOfAll_map_line {α : Type} (l : Layout) (level : Nat) (text : α → String) (as : List α) :
    l.linesOfAll level (as.map fun a => .line (text a)) = as.map fun a => l.margin level ++ text a := by
  induction as with
  | nil => rw [List.map_nil, linesOfAll, List.map_nil]
  | cons a as ih => rw [List.map_cons, linesOfAll, lines, ih, List.singleton_append, List.map_cons]

end Layout

/-- Lines as a text in which every line is ended. -/
def unlines (lines : List String) : String := String.join (lines.map (· ++ "\n"))

theorem unlines_append (as bs : List String) : unlines (as ++ bs) = unlines as ++ unlines bs := by
  rw [unlines, List.map_append, String.join_append]
  rfl

end HalConstants
