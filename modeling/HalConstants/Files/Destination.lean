import HalConstants.Files.Failure
import HalConstants.Files.Path

/-!
# Destinations

A document goes to the standard output or to a file, whose missing directories are created first.
-/

namespace HalConstants

variable {m : Type → Type} [Monad m] [Storage m]

def createDirectories (path : String) : ExceptT Failure m Unit :=
  ExceptT.mk do
    return (← Storage.createDirectories path).mapError
      (Failure.ofIo s!"failed to create '{path}'")

def writeText (path text : String) : ExceptT Failure m Unit :=
  ExceptT.mk do
    return (← Storage.writeText path text).mapError
      (Failure.ofIo s!"failed to write '{path}'")

def writeFile (path text : String) : ExceptT Failure m Unit := do
  if let some parent := Path.parent? path then
    unless parent.isEmpty do createDirectories parent
  writeText path text

inductive Destination where
  | stdout
  | file (path : String)
deriving DecidableEq, Repr

namespace Destination

def ofPath? : Option String → Destination
  | some path => .file path
  | none => .stdout

def label : Destination → String
  | .stdout => "<stdout>"
  | .file path => path

end Destination

end HalConstants
