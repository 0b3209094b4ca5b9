import HalConstants.EnumDocument.Resolve
import HalConstants.Files.Storage
import HalConstants.Header.Model

/-!
# Loading inputs

Headers are read in the order given; an enum document is a single file. Documents in the grammar that
vehicle interfaces are written in have to be exported as JSON first.
-/

namespace HalConstants

variable {m : Type → Type} [Monad m] [Storage m]

def readInput (path : String) : ExceptT InputError m String :=
  ExceptT.mk do
    return (← Storage.readText path).mapError (InputError.unreadable path)

def Sources.load (paths : List String) : ExceptT InputError m Sources := do
  if paths.isEmpty then throw .noInput
  return ⟨← paths.mapM fun path => do return ⟨path, ← readInput path⟩⟩

def readHeaders (paths : List String) (stem : Option String) : ExceptT InputError m Model := do
  let sources ← Sources.load paths
  ExceptT.mk (pure (Header.model (stem.getD Header.defaultStem) sources))

namespace EnumDocument

/-- The extension of interface descriptions. -/
def interfaceExtension : String := "hal"

def load (path : String) : ExceptT InputError m (List Group) := do
  if Path.extension? path = some interfaceExtension then throw (.parserUnavailable path)
  let content ← readInput path
  ExceptT.mk (pure (parse path content))

end EnumDocument

def readGroups (path : Option String) : ExceptT InputError m Model :=
  match path with
  | none => throw .noInput
  | some path => do return { groups := ← EnumDocument.load path }

/-- The file names of inputs, for the remark in generated code. -/
def inputNames (paths : List String) : String :=
  ", ".intercalate (paths.map fun path => (Path.fileName? path).getD path)

end HalConstants
