import HalConstants.Files.Storage

/-!
# Failures

A failure is a chain of causes, outermost first: messages, and at its end possibly an error of the file
system.
-/

namespace HalConstants

inductive Cause where
  | message (text : String)
  | io (kind : IoKind)
deriving DecidableEq, Repr

structure Failure where
  message : String
  causes : List Cause := []
deriving DecidableEq, Repr

/-- A failure seen as the cause of another. -/
def Failure.within (f : Failure) (message : String) : Failure :=
  ⟨message, .message f.message :: f.causes⟩

def Failure.ofIo (message : String) (kind : IoKind) : Failure := ⟨message, [.io kind]⟩

end HalConstants
