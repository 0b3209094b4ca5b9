import HalConstants.CommandLine.Error
import HalConstants.CommandLine.Year
import HalConstants.HalVersion
import HalConstants.Header.Stem
import HalConstants.Target.JavaName

/-!
# Arguments

The arguments of a command, with their values read. A value option and the flag for a dry run may be
given once. Paths may not be empty, and names have to satisfy the rules that the manifest has for them.
-/

namespace HalConstants.CommandLine

structure Arguments where
  inputs : List String := []
  config : Option String := none
  output : Option String := none
  package : Option String := none
  className : Option String := none
  stem : Option String := none
  year : Option Int := none
  dryRun : Bool := false
  snapshots : Option String := none
  halVersion : Option HalVersion := none
  /-- The options given so far. -/
  given : List Key := []
deriving DecidableEq, Repr

namespace Arguments

def readPath (label value : String) : Except UsageError String :=
  if value.isEmpty then .error (.missingValue label) else .ok value

/-- A name, unless there is a reason against it. -/
def readName (key : Key) (fault? : Option Java.NameFault) (value : String) :
    Except UsageError String :=
  fault?.elim (.ok value) fun fault => .error (.invalidValue key value fault.reason)

def setValue (a : Arguments) (key : Key) (value : String) : Except UsageError Arguments :=
  match key with
  | .config => do return { a with config := some (← readPath key.label value) }
  | .output => do return { a with output := some (← readPath key.label value) }
  | .snapshots => do return { a with snapshots := some (← readPath key.label value) }
  | .package => do
    return { a with package := some (← readName key (Java.packageFault? value.toList) value) }
  | .className => do
    return { a with className := some (← readName key (Java.identifierFault? value.toList) value) }
  | .stem =>
    if Header.isStem value.toList then .ok { a with stem := some value }
    else .error (.invalidValue key value Header.stemRule)
  | .year =>
    match readYear value.toList with
    | .ok y => .ok { a with year := some y }
    | .error fault => .error (.invalidValue key value fault.reason)
  | .halVersion =>
    match HalVersion.parse value with
    | .ok v => .ok { a with halVersion := some v }
    | .error reason => .error (.invalidValue key value reason)
  | _ => .ok a

/-- Takes the value of an option. -/
def take (a : Arguments) (key : Key) (value : String) : Except UsageError Arguments :=
  if a.given.contains key then .error (.repeated key)
  else { a with given := key :: a.given }.setValue key value

/-- Takes a flag; only verbosity may be asked for repeatedly. -/
def takeFlag (a : Arguments) (key : Key) : Except UsageError Arguments :=
  if key == .dryRun && a.dryRun then .error (.repeated key)
  else .ok { a with dryRun := a.dryRun || key == .dryRun, given := key :: a.given }

def takeInputs (a : Arguments) (label : String) (paths : List String) :
    Except UsageError Arguments := do
  let paths ← paths.mapM (readPath label)
  return { a with inputs := a.inputs ++ paths }

end Arguments

end HalConstants.CommandLine
