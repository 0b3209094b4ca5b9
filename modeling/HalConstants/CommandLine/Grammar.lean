/-!
# The grammar of the command line

Three commands, each with options and positional inputs. An option stands under its long name behind two
dashes, some also under a letter behind one; it is a flag or takes exactly one value.
-/

namespace HalConstants.CommandLine

inductive Command where
  | java
  | python
  | check
deriving DecidableEq, Repr

inductive Key where
  | verbose
  | help
  | version
  | config
  | output
  | package
  | className
  | stem
  | year
  | dryRun
  | snapshots
  | halVersion
deriving DecidableEq, Repr

/-- How many positional inputs may be given. -/
inductive Arity where
  | none
  | one
  | many
deriving DecidableEq, Repr

structure Grammar where
  keys : List Key
  arity : Arity
  /-- What messages call the positional inputs. -/
  inputLabel : String

namespace Key

def long : Key → String
  | verbose => "verbose"
  | help => "help"
  | version => "version"
  | config => "config"
  | output => "output"
  | package => "package"
  | className => "class"
  | stem => "prefix"
  | year => "year"
  | dryRun => "dry-run"
  | snapshots => "visualize"
  | halVersion => "hal-version"

def short? : Key → Option Char
  | verbose => some 'v'
  | help => some 'h'
  | version => some 'V'
  | config => some 'c'
  | output => some 'o'
  | _ => none

/-- The name of the value, for an option that takes one. -/
def placeholder? : Key → Option String
  | config => some "CONFIG"
  | output => some "OUTPUT"
  | package => some "PACKAGE"
  | className => some "CLASS"
  | stem => some "PREFIX"
  | year => some "YEAR"
  | snapshots => some "DIR"
  | halVersion => some "HAL_VERSION"
  | _ => none

def takesValue (k : Key) : Bool := k.placeholder?.isSome

/-- What messages call an option. -/
def label (k : Key) : String :=
  match k, k.placeholder? with
  | verbose, _ => s!"--{k.long}..."
  | _, some value => s!"--{k.long} <{value}>"
  | _, none => s!"--{k.long}"

end Key

namespace Command

def all : List Command := [java, python, check]

def name : Command → String
  | java => "java"
  | python => "python"
  | check => "check"

def ofName? (name : String) : Option Command := all.find? (·.name == name)

def grammar : Command → Grammar
  | java =>
    ⟨[.verbose, .help, .config, .output, .package, .className, .stem, .year, .dryRun, .snapshots],
      .many, "[HEADERS]..."⟩
  | python =>
    ⟨[.verbose, .help, .config, .output, .halVersion, .year, .dryRun], .one, "[DOCUMENT]"⟩
  | check => ⟨[.verbose, .help, .config], .many, "[HEADERS]..."⟩

end Command

/-- What may stand before the command. -/
def outerGrammar : Grammar := ⟨[.verbose, .help, .version], .none, ""⟩

def programName : String := "vhalgen"

def programVersion : String := "0.1.0"

def programPurpose : String :=
  "Generate vehicle HAL constants from headers and IDL documents"

end HalConstants.CommandLine
