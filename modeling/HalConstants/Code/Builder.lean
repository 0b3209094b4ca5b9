import HalConstants.Code.Fragment

/-!
# Builders

A builder writes code line by line and remembers the current level. Blank lines carry no margin, and a
dedent at level zero has no effect. Emitting fragments appends exactly their lines at the current
level and leaves the level as it was.
-/

namespace HalConstants

structure Builder where
  layout : Layout
  level : Nat := 0
  text : String := ""

namespace Builder

def line (b : Builder) (text : String) : Builder :=
  { b with text := b.text ++ b.layout.margin b.level ++ text ++ "\n" }

def comment (b : Builder) (text : String) : Builder := b.line (b.layout.comments.line text)

def blank (b : Builder) : Builder := { b with text := b.text ++ "\n" }

def indent (b : Builder) : Builder := { b with level := b.level + 1 }

def dedent (b : Builder) : Builder := { b with level := b.level - 1 }

mutual

def put (b : Builder) : Fragment → Builder
  | .line text => b.line text
  | .comment text => b.comment text
  | .blank => b.blank
  | .block header body close =>
    let done := ((b.line header).indent.emit body).dedent
    match close with
    | some last => done.line last
    | none => done

def emit (b : Builder) : List Fragment → Builder
  | [] => b
  | f :: fs => (b.put f).emit fs

end

/-! ## What a builder appends -/

theorem line_eq (b : Builder) (text : String) :
    b.line text = { b with text := b.text ++ unlines [b.layout.margin b.level ++ text] } := by
  simp [line, unlines, String.append_assoc]

mutual

theorem put_eq (b : Builder) :
    ∀ f : Fragment, b.put f = { b with text := b.text ++ unlines (b.layout.lines b.level f) }
  | .line text => by rw [put, Layout.lines, line_eq]
  | .comment text => by rw [put, Layout.lines, comment, line_eq]
  | .blank => by simp [put, Layout.lines, blank, unlines]
  | .block header body close => by
      rw [Layout.lines]
      cases close with
      | none =>
          rw [put, emit_eq, line_eq]
          simp [indent, dedent, unlines, String.append_assoc]
      | some last =>
          rw [put, emit_eq, line_eq]
          simp [line_eq, indent, dedent, unlines, String.append_assoc]

theorem emit_eq (b : Builder) :
    ∀ fs : List Fragment,
      b.emit fs = { b with text := b.text ++ unlines (b.layout.linesOfAll b.level fs) }
  | [] => by simp [emit, Layout.linesOfAll, unlines]
  | f :: fs => by
      rw [emit, Layout.linesOfAll, emit_eq, put_eq, unlines_append]
      simp [String.append_assoc]

end

end Builder

/-- The whole text of fragments that start at level zero. -/
def Layout.render (l : Layout) (fs : List Fragment) : String :=
  (Builder.emit { layout := l } fs).text

theorem Layout.render_eq (l : Layout) (fs : List Fragment) :
    l.render fs = unlines (l.linesOfAll 0 fs) := by
  rw [Layout.render, Builder.emit_eq]
  exact String.empty_append

end HalConstants
