/-!
# Faults of a JSON text

The first fault from left to right decides what is wrong with a text: it breaks the grammar, it ends too
early, or it is well formed and has the wrong shape.
-/

namespace HalConstants.Json

inductive Fault where
  | malformed
  | unfinished
  | mismatched
deriving DecidableEq, Repr

def Fault.category : Fault → String
  | malformed => "Syntax"
  | unfinished => "Eof"
  | mismatched => "Data"

end HalConstants.Json
