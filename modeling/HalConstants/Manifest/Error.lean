import HalConstants.Explanation
import HalConstants.Files.Storage
import HalConstants.Header.Stem
import HalConstants.Input.Sources
import HalConstants.Target.JavaName

/-!
# Errors of the manifest

Why a manifest cannot be used. An error of a value points at the first place of the file where the value
stands in double quotes, or else at the first place where it stands at all.
-/

namespace HalConstants

/-- What a name of the manifest names. -/
inductive NameRole where
  | package
  | className
deriving DecidableEq, Repr

def NameRole.text : NameRole → String
  | package => "java package"
  | className => "java class name"

inductive ManifestError where
  | unreadable (path : String) (kind : IoKind)
  | malformed (file : SourceFile)
  | invalidName (file : SourceFile) (role : NameRole) (name : String) (fault : Java.NameFault)
  | invalidStem (file : SourceFile) (stem : String)
  | invalidHalVersion (file : SourceFile) (version : String)
deriving DecidableEq, Repr

/-- The offset at which a value is shown. -/
def SourceFile.findValue? (file : SourceFile) (value : String) : Option Nat :=
  let needle := value.toList
  let text := file.text.toList
  if needle.isEmpty then none
  else
    match Text.find? ('"' :: needle ++ ['"']) text with
    | some offset => some (offset + 1)
    | none => Text.find? needle text

def SourceFile.labelsAt (file : SourceFile) (value remark : String) : List Label :=
  (file.findValue? value).toList.map fun offset => ⟨remark, offset, value.utf8ByteSize⟩

namespace ManifestError

def message : ManifestError → String
  | unreadable path _ => s!"failed to read '{path}'"
  | malformed _ => "failed to parse vhalgen.toml"
  | invalidName _ role name _ => s!"invalid {role.text} '{name}'"
  | invalidStem _ _ => Header.stemRule
  | invalidHalVersion _ version => s!"hal_version '{version}' is not of the form <major>.<minor>"

def code : ManifestError → String
  | unreadable .. => "vhalgen::manifest_io"
  | malformed _ => "vhalgen::parse_error"
  | invalidName .. => "vhalgen::invalid_identifier"
  | invalidStem .. => "vhalgen::validation_error"
  | invalidHalVersion .. => "vhalgen::validation_error"

def help : ManifestError → Option String
  | unreadable .. =>
    some "pass --config with an existing file, or drop it to use the defaults"
  | invalidName _ _ _ fault =>
    some (fault.reason ++ ". Java identifiers use letters, digits, '_' and '$', " ++
      "and cannot start with a digit.")
  | _ => none

def labels (e : ManifestError) : List Label :=
  match e with
  | invalidName file _ name _ => file.labelsAt name "invalid identifier"
  | invalidStem file stem => file.labelsAt stem e.message
  | invalidHalVersion file version => file.labelsAt version e.message
  | _ => []

def explain (e : ManifestError) : Explanation := ⟨e.message, e.code, e.help, e.labels⟩

end ManifestError

end HalConstants
