import HalConstants.HalVersion
import HalConstants.Manifest.Decode
import HalConstants.Manifest.Error

/-!
# Manifest files

Of the values that become names in generated code, the first bad one is reported, in the order package,
class, prefix, HAL version.
-/

namespace HalConstants

namespace Manifest

/-- The file name of a manifest that is not asked for by another name. -/
def defaultFileName : String := "vhalgen.toml"

def nameError? (file : SourceFile) (role : NameRole)
    (fault? : List Char → Option Java.NameFault) (name : String) : Option ManifestError :=
  (fault? name.toList).map (.invalidName file role name)

def error? (m : Manifest) (file : SourceFile) : Option ManifestError :=
  (m.java.package.bind (nameError? file .package Java.packageFault?)).or <|
  (m.java.className.bind (nameError? file .className Java.identifierFault?)).or <|
  ((m.java.stem.filter (!Header.isStem ·.toList)).map (.invalidStem file)).or <|
  (m.python.halVersion.filter (!HalVersion.hasForm ·.toList)).map (.invalidHalVersion file)

def parse (file : SourceFile) : Except ManifestError Manifest :=
  match decode? file.text with
  | none => .error (.malformed file)
  | some m => (m.error? file).elim (.ok m) .error

end Manifest

/-- A manifest and the path it was read from, none when it stands for the defaults. -/
structure ManifestFile where
  path : Option String := none
  manifest : Manifest := {}
deriving DecidableEq, Repr

namespace ManifestFile

variable {m : Type → Type} [Monad m] [Storage m]

def read (path : String) : ExceptT ManifestError m ManifestFile := do
  let text ← ExceptT.mk do
    return (← Storage.readText path).mapError (ManifestError.unreadable path)
  let manifest ← Manifest.parse ⟨path, text⟩
  let base := (Path.parent? path).getD ""
  return ⟨some path, manifest.rebase base⟩

/-- The manifest at a given path, or else the one in a directory, or else the defaults. -/
def load (path : Option String) (directory : String) : ExceptT ManifestError m ManifestFile :=
  match path with
  | some path => read path
  | none => do
    let path := Path.join directory Manifest.defaultFileName
    if ← (Storage.isFile path : m Bool) then read path else return {}

end ManifestFile

end HalConstants
