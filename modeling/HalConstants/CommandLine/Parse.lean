import HalConstants.CommandLine.Arguments

/-!
# Reading the command line

Arguments are read from left to right. What an option or a run of inputs was given stays pending, and is
checked when the next known option, flag or first input arrives, or at the end; an argument that fits
nowhere is refused at once. Behind two dashes everything is an input.
-/

namespace HalConstants.CommandLine

inductive Shape where
  | dashes
  | long (name : List Char) (value : Option (List Char))
  | short (letters : List Char)
  | plain
deriving DecidableEq, Repr

/-- The value behind the first equals sign, if there is one. -/
def attached? (cs : List Char) : Option (List Char) :=
  match cs.dropWhile (· != '=') with
  | _ :: value => some value
  | [] => none

def Shape.of : List Char → Shape
  | ['-', '-'] => .dashes
  | '-' :: '-' :: cs => .long (cs.takeWhile (· != '=')) (attached? cs)
  | '-' :: c :: cs => .short (c :: cs)
  | _ => .plain

def helpName : String := "help"

def isCommandName (name : String) : Bool := name == helpName || (Command.ofName? name).isSome

inductive Pending where
  | nothing
  /-- An option, with its value unless that is still awaited. -/
  | option (key : Key) (value : Option String)
  | inputs (paths : List String)
deriving DecidableEq, Repr

/-- Why reading ends before the last argument. -/
inductive Halt where
  | help
  | version
  | refused (e : UsageError)
deriving DecidableEq, Repr

structure Reading where
  arguments : Arguments := {}
  pending : Pending := .nothing
  trailing : Bool := false
deriving DecidableEq, Repr

namespace Reading

/-- Checks what is pending. -/
def settle (r : Reading) (g : Grammar) : Except UsageError Reading :=
  match r.pending with
  | .nothing => .ok r
  | .option key none => .error (.missingValue key.label)
  | .option key (some value) => do
    return { r with arguments := ← r.arguments.take key value, pending := .nothing }
  | .inputs paths => do
    return { r with arguments := ← r.arguments.takeInputs g.inputLabel paths, pending := .nothing }

def settled (r : Reading) (g : Grammar) : Except Halt Reading := (r.settle g).mapError .refused

def takeNow (r : Reading) (g : Grammar) (key : Key) (value : String) : Except Halt Reading := do
  let r ← r.settled g
  return { r with arguments := ← (r.arguments.take key value).mapError .refused }

def awaitValue (r : Reading) (g : Grammar) (key : Key) : Except Halt Reading := do
  return { ← r.settled g with pending := .option key none }

def takeFlag (r : Reading) (g : Grammar) (key : Key) : Except Halt Reading := do
  let r ← r.settled g
  match key with
  | .help => throw .help
  | .version => throw .version
  | _ => return { r with arguments := ← (r.arguments.takeFlag key).mapError .refused }

def readLong (r : Reading) (g : Grammar) (name : List Char) (value : Option (List Char)) :
    Except Halt Reading :=
  match g.keys.find? (·.long == String.ofList name), value with
  | none, _ => .error (.refused (.unexpected ("--" ++ String.ofList name)))
  | some key, none => if key.takesValue then r.awaitValue g key else r.takeFlag g key
  | some key, some v =>
    if key.takesValue then r.takeNow g key (String.ofList v)
    else .error (.refused (.surplusValue key (String.ofList v)))

/-- Letters behind one dash: flags, of which the last may be an option with the rest as its value. -/
def readShort (r : Reading) (g : Grammar) : List Char → Except Halt Reading
  | [] => .ok r
  | c :: cs =>
    match g.keys.find? (·.short? == some c) with
    | none => .error (.refused (.unexpected (String.ofList ['-', c])))
    | some key =>
      if key.takesValue then
        match cs with
        | [] => r.awaitValue g key
        | '=' :: value => r.takeNow g key (String.ofList value)
        | value => r.takeNow g key (String.ofList value)
      else do (← r.takeFlag g key).readShort g cs

def hasInput (r : Reading) : Bool :=
  match r.pending with
  | .inputs _ => true
  | _ => !r.arguments.inputs.isEmpty

def startInputs (r : Reading) (g : Grammar) (path : String) : Except Halt Reading := do
  return { ← r.settled g with pending := .inputs [path] }

def readInput (r : Reading) (g : Grammar) (path : String) : Except Halt Reading :=
  match g.arity, r.pending with
  | .none, _ =>
    if r.trailing && isCommandName path then .error (.refused (.unexpected path))
    else .error (.refused (.unknownCommand path))
  | .one, _ =>
    if r.hasInput then .error (.refused (.unexpected path)) else r.startInputs g path
  | .many, .inputs paths => .ok { r with pending := .inputs (paths ++ [path]) }
  | .many, _ => r.startInputs g path

/-- Reads one argument. -/
def step (g : Grammar) (r : Reading) (argument : String) : Except Halt Reading :=
  if r.trailing then r.readInput g argument
  else
    match Shape.of argument.toList, r.pending with
    | .dashes, _ => .ok { r with trailing := true }
    | .long name value, _ => r.readLong g name value
    | .short letters, _ => r.readShort g letters
    | .plain, .option key none => .ok { r with pending := .option key (some argument) }
    | .plain, _ => r.readInput g argument

end Reading

/-- A command with its arguments. -/
structure Request where
  command : Command
  arguments : Arguments
deriving DecidableEq, Repr

def readArguments (g : Grammar) (arguments : List String) : Except Halt Arguments := do
  let r ← arguments.foldlM (Reading.step g) {}
  return (← r.settled g).arguments

/-- What the command `help` answers, which takes the name of at most one command. -/
def helpHalt : List String → Halt
  | [] => .help
  | name :: rest =>
    if isCommandName name then
      match rest with
      | [] => .help
      | next :: _ => .refused (.unknownCommand next)
    else .refused (.unknownCommand name)

/-- Reads up to the command and hands the rest to its grammar. -/
def readFrom (r : Reading) : List String → Except Halt Request
  | [] =>
    .error (.refused (if r.arguments.given.isEmpty then .nothingGiven else .missingCommand))
  | argument :: rest =>
    if !r.trailing && argument == helpName then .error (helpHalt rest)
    else
      match if r.trailing then none else Command.ofName? argument with
      | some command => do return ⟨command, ← readArguments command.grammar rest⟩
      | none => do readFrom (← r.step outerGrammar argument) rest

def read (arguments : List String) : Except Halt Request := readFrom {} arguments

example : Shape.of "--a=b=c".toList = .long ['a'] (some "b=c".toList) := by decide +kernel
example : (read ["check", "a", "-cb", "--", "-c"]).toOption =
    some ⟨.check, { inputs := ["a", "-c"], config := some "b", given := [.config] }⟩ := by
  decide +kernel
example : (read ["java", "--year", "x", "--q"]).toOption = none := by decide +kernel

end HalConstants.CommandLine
