import HalConstants.Json.Fault
import HalConstants.Json.Number

/-!
# Scans of JSON texts

A scan is the tree of a JSON text up to its first grammatical fault. Some faults exist only for a reader
who keeps the value, such as an unpaired surrogate escape or a number out of range; whoever skips the
value reads on behind it. So a scan holds such values as faults of their own, and where it stops for
good it tells which fault either reader sees.
-/

namespace HalConstants.Json

/-- Where a scan ends early. -/
structure Stop where
  kept : Fault
  skipped : Fault
deriving DecidableEq, Repr

def Stop.at (fault : Fault) : Stop := ⟨fault, fault⟩

/-- A text that ends inside a number: only whoever keeps the number waits for more. -/
def Stop.inNumber : Stop := ⟨.unfinished, .malformed⟩

inductive Scan where
  | stop (s : Stop)
  | null
  | bool (b : Bool)
  | number (n : Except Fault Number)
  | string (s : Except Fault String)
  /-- Items up to the closing bracket, or up to where a comma or the bracket is missing. -/
  | array (items : List Scan) (missing : Option Stop)
  | object (members : List (Except Fault String × Scan)) (missing : Option Stop)

namespace Scan

def skipBlanks (cs : List Char) : List Char :=
  cs.dropWhile fun c => c == ' ' || c == '\t' || c == '\n' || c == '\r'

/-- A character of a string, as itself or as an escaped 16-bit unit. -/
inductive StringUnit where
  | char (c : Char)
  | escaped (unit : Nat)

def escape? : Char → Option Char
  | '"' => some '"'
  | '\\' => some '\\'
  | '/' => some '/'
  | 'b' => some '\x08'
  | 'f' => some '\x0c'
  | 'n' => some '\n'
  | 'r' => some '\r'
  | 't' => some '\t'
  | _ => none

/-- The units of a string after its opening quote, and the text behind the closing one. -/
def stringUnits : List Char → List StringUnit × Except Fault (List Char)
  | [] => ([], .error .unfinished)
  | '"' :: cs => ([], .ok cs)
  | '\\' :: 'u' :: a :: b :: c :: d :: cs =>
    match Text.readNat? 16 [a, b, c, d] with
    | some unit => let (units, rest) := stringUnits cs; (.escaped unit :: units, rest)
    | none => ([], .error .malformed)
  | '\\' :: 'u' :: cs =>
    ([], .error (if Text.byteLength cs < 4 then .unfinished else .malformed))
  | '\\' :: c :: cs =>
    match escape? c with
    | some e => let (units, rest) := stringUnits cs; (.char e :: units, rest)
    | none => ([], .error .malformed)
  | ['\\'] => ([], .error .unfinished)
  | c :: cs =>
    if c.toNat < 0x20 then ([], .error .malformed)
    else let (units, rest) := stringUnits cs; (.char c :: units, rest)

def isHighSurrogate (n : Nat) : Bool := 0xD800 ≤ n && n ≤ 0xDBFF

def isLowSurrogate (n : Nat) : Bool := 0xDC00 ≤ n && n ≤ 0xDFFF

/-- The characters that units stand for. Surrogates have to come in pairs; `closed` tells whether the
string has an end, without which its last unit may still find its other half. -/
def ofUnits (closed : Bool) : List StringUnit → Except Fault (List Char)
  | [] => .ok []
  | .char c :: units => (ofUnits closed units).map (c :: ·)
  | .escaped high :: .escaped low :: units =>
    if isHighSurrogate high && isLowSurrogate low then
      (ofUnits closed units).map
        (Char.ofNat (0x10000 + (high - 0xD800) * 0x400 + (low - 0xDC00)) :: ·)
    else if isHighSurrogate high || isLowSurrogate high then .error .malformed
    else (ofUnits closed (.escaped low :: units)).map (Char.ofNat high :: ·)
  | [.escaped unit] =>
    if isLowSurrogate unit || (isHighSurrogate unit && closed) then .error .malformed
    else .ok [Char.ofNat unit]
  | .escaped unit :: .char c :: units =>
    if isHighSurrogate unit || isLowSurrogate unit then .error .malformed
    else (ofUnits closed units).map (Char.ofNat unit :: c :: ·)

/-- A string after its opening quote. -/
def string? (cs : List Char) : Except Stop (Except Fault String × List Char) :=
  match stringUnits cs with
  | (units, .ok rest) => .ok ((ofUnits true units).map String.ofList, rest)
  | (units, .error fault) =>
    match ofUnits false units with
    | .ok _ => .error (.at fault)
    | .error lone => .error ⟨lone, fault⟩

def splitDigits (cs : List Char) : List Char × List Char :=
  (cs.takeWhile Char.isDigit, cs.dropWhile Char.isDigit)

/-- The digits before a fraction: a zero, or digits that start with none. -/
def wholePart? (cs : List Char) : Except Stop (List Char × List Char) :=
  match cs with
  | [] => .error .inNumber
  | '0' :: rest => if rest.head?.any Char.isDigit then .error (.at .malformed) else .ok (['0'], rest)
  | c :: _ => if c.isDigit then .ok (splitDigits cs) else .error (.at .malformed)

/-- Digits of which there has to be one. -/
def digits? (cs : List Char) : Except Stop (List Char × List Char) :=
  match splitDigits cs, cs with
  | ([], _), [] => .error .inNumber
  | ([], _), _ => .error (.at .malformed)
  | found, _ => .ok found

def fraction? (cs : List Char) : Except Stop (Option (List Char) × List Char) :=
  match cs with
  | '.' :: rest => (digits? rest).map fun (digits, rest) => (some digits, rest)
  | _ => .ok (none, cs)

def exponentDigits? (negative : Bool) (cs : List Char) : Except Stop (Option Int × List Char) :=
  (digits? cs).map fun (digits, rest) =>
    let n : Int := (Text.readNat? 10 digits).getD 0
    (some (if negative then -n else n), rest)

def exponent? (cs : List Char) : Except Stop (Option Int × List Char) :=
  match cs with
  | [] => .ok (none, [])
  | c :: rest =>
    if c == 'e' || c == 'E' then
      match rest with
      | '+' :: rest => exponentDigits? false rest
      | '-' :: rest => exponentDigits? true rest
      | _ => exponentDigits? false rest
    else .ok (none, cs)

def number? (cs : List Char) : Except Stop (Except Fault Number × List Char) := do
  let (negative, cs) := Text.splitSign cs
  let (whole, cs) ← wholePart? cs
  let (fraction, cs) ← fraction? cs
  let (exponent, cs) ← exponent? cs
  let decimal : Decimal := {
    negative := negative
    whole := whole
    fraction := fraction.getD []
    exponent := exponent.getD 0
    isInteger := fraction.isNone && exponent.isNone }
  return (decimal.number?.elim (.error .malformed) .ok, cs)

/-- The rest of a text that has to go on with a given word. -/
def word? : List Char → List Char → Except Stop (List Char)
  | [], cs => .ok cs
  | _ :: _, [] => .error (.at .unfinished)
  | w :: ws, c :: cs => if w == c then word? ws cs else .error (.at .malformed)

/-- A scan together with the text behind it, if it did not stop. -/
abbrev Step := Scan × Option (List Char)

def Step.of {α : Type} (make : α → Scan) : Except Stop (α × List Char) → Step
  | .ok (a, rest) => (make a, some rest)
  | .error s => (.stop s, none)

def Step.word (word : List Char) (value : Scan) (cs : List Char) : Step :=
  .of (fun _ => value) ((word? word cs).map ((), ·))

mutual

/-- The value at the start of a text. Of two calls one inside the other, the inner one starts at least a
character later or is made in one step by the outer one, so that two steps for each character suffice. -/
def value : Nat → List Char → Step
  | 0, _ => (.stop (.at .malformed), none)
  | steps + 1, cs =>
    match skipBlanks cs with
    | [] => (.stop (.at .unfinished), none)
    | '"' :: cs => .of .string (string? cs)
    | '[' :: cs =>
      let (items, missing, rest) := firstItem steps cs
      (.array items missing, rest)
    | '{' :: cs =>
      let (members, missing, rest) := firstMember steps cs
      (.object members missing, rest)
    | 'n' :: cs => .word "ull".toList .null cs
    | 't' :: cs => .word "rue".toList (.bool true) cs
    | 'f' :: cs => .word "alse".toList (.bool false) cs
    | c :: cs =>
      if c == '-' || c.isDigit then .of .number (number? (c :: cs))
      else (.stop (.at .malformed), none)

def firstItem (steps : Nat) (cs : List Char) : List Scan × Option Stop × Option (List Char) :=
  match skipBlanks cs with
  | [] => ([], some (.at .unfinished), none)
  | ']' :: cs => ([], none, some cs)
  | cs => items steps cs

/-- Items from the start of one on. -/
def items : Nat → List Char → List Scan × Option Stop × Option (List Char)
  | 0, _ => ([], some (.at .malformed), none)
  | steps + 1, cs =>
    match value steps cs with
    | (item, none) => ([item], none, none)
    | (item, some rest) =>
      match skipBlanks rest with
      | ',' :: rest =>
        let (more, missing, rest) := items steps rest
        (item :: more, missing, rest)
      | ']' :: rest => ([item], none, some rest)
      | [] => ([item], some (.at .unfinished), none)
      | _ => ([item], some (.at .malformed), none)

def firstMember (steps : Nat) (cs : List Char) :
    List (Except Fault String × Scan) × Option Stop × Option (List Char) :=
  match skipBlanks cs with
  | '}' :: cs => ([], none, some cs)
  | cs => members steps cs

/-- Members from the start of one on. -/
def members : Nat → List Char →
    List (Except Fault String × Scan) × Option Stop × Option (List Char)
  | 0, _ => ([], some (.at .malformed), none)
  | steps + 1, cs =>
    match skipBlanks cs with
    | [] => ([], some (.at .unfinished), none)
    | '"' :: cs =>
      match string? cs with
      | .error s => ([], some s, none)
      | .ok (key, rest) =>
        match skipBlanks rest with
        | [] => ([(key, .stop (.at .unfinished))], none, none)
        | ':' :: rest =>
          match value steps rest with
          | (v, none) => ([(key, v)], none, none)
          | (v, some rest) =>
            match skipBlanks rest with
            | ',' :: rest =>
              let (more, missing, rest) := members steps rest
              ((key, v) :: more, missing, rest)
            | '}' :: rest => ([(key, v)], none, some rest)
            | [] => ([(key, v)], some (.at .unfinished), none)
            | _ => ([(key, v)], some (.at .malformed), none)
        | _ => ([(key, .stop (.at .malformed))], none, none)
    | _ => ([], some (.at .malformed), none)

end

/-- The scan of a whole text, and whether anything but blanks stands behind the value. -/
def ofText (text : List Char) : Scan × Bool :=
  match value (2 * text.length + 2) text with
  | (scan, some rest) => (scan, !(skipBlanks rest).isEmpty)
  | (scan, none) => (scan, false)

end Scan

end HalConstants.Json
