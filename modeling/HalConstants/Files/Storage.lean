/-!
# Storage

What the program asks of a file system, for any monad that provides it. Requests fail with the kind of
the error only.
-/

namespace HalConstants

inductive IoKind where
  | notFound
  | permissionDenied
  | alreadyExists
  | invalidInput
  | invalidData
  | notADirectory
  | isADirectory
  | invalidFilename
  | other
deriving DecidableEq, Repr

def IoKind.name : IoKind → String
  | notFound => "NotFound"
  | permissionDenied => "PermissionDenied"
  | alreadyExists => "AlreadyExists"
  | invalidInput => "InvalidInput"
  | invalidData => "InvalidData"
  | notADirectory => "NotADirectory"
  | isADirectory => "IsADirectory"
  | invalidFilename => "InvalidFilename"
  | other => "Other"

class Storage (m : Type → Type) where
  /-- The text of a file. -/
  readText : String → m (Except IoKind String)
  /-- Creates or replaces a file. -/
  writeText : String → String → m (Except IoKind Unit)
  /-- Creates a directory together with the missing directories above it. -/
  createDirectories : String → m (Except IoKind Unit)
  isFile : String → m Bool

end HalConstants
