import HalConstants.CommandLine.Grammar

/-!
# Errors of the command line
-/

namespace HalConstants.CommandLine

inductive UsageError where
  | nothingGiven
  | missingCommand
  | unknownCommand (name : String)
  | unexpected (argument : String)
  | missingValue (label : String)
  | repeated (key : Key)
  | surplusValue (key : Key) (value : String)
  | invalidValue (key : Key) (value reason : String)
deriving DecidableEq, Repr

/-- Without arguments the program only says what it is for. -/
def UsageError.message : UsageError → String
  | nothingGiven => programPurpose
  | missingCommand => s!"error: '{programName}' requires a subcommand but one was not provided"
  | unknownCommand name => s!"error: unrecognized subcommand '{name}'"
  | unexpected argument => s!"error: unexpected argument '{argument}' found"
  | missingValue label => s!"error: a value is required for '{label}' but none was supplied"
  | repeated key => s!"error: the argument '{key.label}' cannot be used multiple times"
  | surplusValue key value =>
    s!"error: unexpected value '{value}' for '{key.label}' found; no more were expected"
  | invalidValue key value reason =>
    s!"error: invalid value '{value}' for '{key.label}': {reason}"

end HalConstants.CommandLine
