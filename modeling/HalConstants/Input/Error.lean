import HalConstants.Explanation
import HalConstants.Files.Storage
import HalConstants.Input.Sources
import HalConstants.Json.Fault
import HalConstants.Model.Annotation

/-!
# Errors of the inputs

Why headers or an enum document cannot be read into a model.
-/

namespace HalConstants

inductive InputError where
  | unreadable (path : String) (kind : IoKind)
  | noInput
  /-- A key that takes a value ends its comment; the span lies in the text of `file`. -/
  | missingValue (file : SourceFile) (offset length : Nat) (key : AnnotationKey)
      (property : String)
  | parserUnavailable (path : String)
  | document (path : String) (fault : Json.Fault)
  | invalidCaseValue (group case value : String)
  | duplicateGroup (path group : String)
deriving DecidableEq, Repr

namespace InputError

def message : InputError → String
  | unreadable path _ => s!"failed to read '{path}'"
  | noInput => "no input files given"
  | missingValue _ _ _ key property =>
    s!"annotation '{key.token}' on '{property}' has no value"
  | parserUnavailable path =>
    s!"'{path}' needs the HIDL grammar parser, which is not built into vhalgen"
  | document path _ => s!"failed to parse enum document '{path}'"
  | invalidCaseValue group case value =>
    s!"invalid value '{value}' for case '{case}' of enum group '{group}'"
  | duplicateGroup path group => s!"enum group '{group}' appears more than once in '{path}'"

def code : InputError → String
  | unreadable .. => "vhalgen::missing_input"
  | noInput => "vhalgen::no_input"
  | missingValue .. => "vhalgen::malformed_annotation"
  | parserUnavailable .. => "vhalgen::parser_unavailable"
  | document .. => "vhalgen::document_error"
  | invalidCaseValue .. => "vhalgen::invalid_case_value"
  | duplicateGroup .. => "vhalgen::duplicate_group"

def help : InputError → Option String
  | unreadable .. =>
    some "check that the file exists; inputs are read in the order they are given"
  | noInput => some "pass the inputs on the command line or list them in vhalgen.toml"
  | missingValue _ _ _ key _ =>
    some s!"write the value right after the key, e.g. '{key.token} VALUE'"
  | parserUnavailable .. =>
    some ("run the HIDL parser (tools/hidl_parser, requires the 'ply' Python package), " ++
      "export its enum groups as a JSON document and pass that document instead")
  | document .. => none
  | invalidCaseValue .. =>
    some "use an integer, or a string holding a decimal or 0x-prefixed hex number"
  | duplicateGroup .. => some "each enum group name must be unique within a document"

def labels : InputError → List Label
  | missingValue _ offset length _ _ => [⟨"expected a value after this key", offset, length⟩]
  | _ => []

def explain (e : InputError) : Explanation := ⟨e.message, e.code, e.help, e.labels⟩

end InputError

end HalConstants
