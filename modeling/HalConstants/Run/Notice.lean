import HalConstants.Review.Warning

/-!
# Notices

What a run tells its user, piece by piece, and how each piece looks on a terminal. Warnings always go to
the error stream.
-/

namespace HalConstants

inductive Notice where
  | keyValue (key value : String)
  | success (message : String)
  | warning (message : String)
  | divider (label : String)
  | preformatted (text : String)
  | newline
deriving DecidableEq, Repr

namespace Notice

def text : Notice → String
  | keyValue key value => s!"  {key}: {value}"
  | success message => s!"✓ {message}"
  | warning message => s!"warning: {message}"
  | divider label => s!"── {label} ──"
  | preformatted text => text
  | newline => ""

def isWarning : Notice → Bool
  | warning _ => true
  | _ => false

/-- The text of notices, each ended by a line feed. -/
def textOfAll (notices : List Notice) : String :=
  String.join (notices.map fun n => n.text ++ "\n")

end Notice

end HalConstants
