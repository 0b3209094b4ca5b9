/-!
# Explanations

What a user is told about an error: a message and a stable code, possibly advice, and labels on spans of
the text at fault.
-/

namespace HalConstants

/-- A span in bytes with a remark on it. -/
structure Label where
  text : String
  offset : Nat
  length : Nat
deriving DecidableEq, Repr

structure Explanation where
  message : String
  code : String
  help : Option String := none
  labels : List Label := []
deriving DecidableEq, Repr

end HalConstants
