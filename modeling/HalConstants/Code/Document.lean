import HalConstants.Files.Path

/-!
# Generated documents

A language turns a model into exactly one document. Lines are counted as ended by a line feed; a last
line without one counts as well.
-/

namespace HalConstants

structure Language where
  name : String
  extension : String
deriving DecidableEq, Repr

structure Document where
  language : Language
  fileName : String
  text : String

/-- Where a document stands below a base. -/
def Document.path (d : Document) (base : String) : String := Path.join base d.fileName

def lineCount (text : String) : Nat :=
  let cs := text.toList
  cs.count '\n' + if cs.getLast?.all (· == '\n') then 0 else 1

example : lineCount "" = 0 := by decide
example : lineCount "a\n\nb" = 3 := by decide

end HalConstants
