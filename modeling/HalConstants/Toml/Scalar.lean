import HalConstants.Toml.Item
import HalConstants.Toml.Quoted

/-!
# TOML scalars

A number, boolean, date or time is one word; words behind blanks belong to it, as the time behind a
date. Booleans, floats, dates and times are checked in full. A decimal integer with underscores
is checked at its start and around them: where the rest gives no value the document still stands, and
the item only cannot be used.
-/

namespace HalConstants.Toml

def isDigitOf (radix : Nat) (c : Char) : Bool := (Text.digitValue? c).any (· < radix)

/-- Whether every underscore stands between two digits. -/
def isGrouped (isDigit : Char → Bool) : List Char → Bool
  | [] => true
  | before :: '_' :: behind :: cs =>
    isDigit before && isDigit behind && isGrouped isDigit (behind :: cs)
  | c :: cs => c != '_' && isGrouped isDigit cs

def unsigned : List Char → List Char
  | '+' :: cs => cs
  | '-' :: cs => cs
  | cs => cs

/-- An integer whose digits, underscores left out, are not all digits of the radix has no value. -/
def integerItem (radix : Nat) (negative : Bool) (digits : List Char) : Item :=
  match Text.readNat? radix (digits.filter (· != '_')) with
  | some n => .integer (if negative then -n else n)
  | none => .other

/-- An integer behind the mark of its radix, where even the digits may be missing. -/
def radixInteger? (radix : Nat) (digits : List Char) : Option Item :=
  if digits.all (fun c => isDigitOf radix c || c == '_') && isGrouped (isDigitOf radix) digits then
    some (integerItem radix false digits)
  else none

def hasLeadingZero : List Char → Bool
  | '0' :: _ :: _ => true
  | _ => false

/-- Digits and underscores, among them at least one digit. -/
def isDigitRun (cs : List Char) : Bool :=
  cs.all (fun c => c.isDigit || c == '_') && cs.any Char.isDigit

def isExponentMark (c : Char) : Bool := c == 'e' || c == 'E'

/-- A number with a fraction, an exponent or both, sign included. -/
def isFloat (cs : List Char) : Bool :=
  let mantissa := (unsigned cs).takeWhile (!isExponentMark ·)
  let exponent := (unsigned cs).dropWhile (!isExponentMark ·)
  let whole := mantissa.takeWhile (· != '.')
  let fraction := mantissa.dropWhile (· != '.')
  isDigitRun whole && !hasLeadingZero whole &&
    (fraction.isEmpty || isDigitRun (fraction.drop 1)) &&
    (exponent.isEmpty || isDigitRun (unsigned (exponent.drop 1))) &&
    isGrouped Char.isDigit cs

/-- A number of exactly two digits below a bound. -/
def isTwoDigits (least bound : Nat) (cs : List Char) : Bool :=
  cs.length == 2 && (Text.readNat? 10 cs).any fun n => least ≤ n && n < bound

def isLeapYear (year : Nat) : Bool := year % 4 == 0 && (year % 100 != 0 || year % 400 == 0)

def daysIn (year month : Nat) : Nat :=
  if month == 2 then (if isLeapYear year then 29 else 28)
  else if [4, 6, 9, 11].contains month then 30
  else 31

def isDate (cs : List Char) : Bool :=
  match cs.splitOn '-' with
  | [year, month, day] =>
    match Text.readNat? 10 year, Text.readNat? 10 month with
    | some y, some m =>
      year.length == 4 && isTwoDigits 1 13 month && isTwoDigits 1 (daysIn y m + 1) day
    | _, _ => false
  | _ => false

def isSeconds (cs : List Char) : Bool :=
  match cs.splitOn '.' with
  | [whole] => isTwoDigits 0 61 whole
  | [whole, fraction] => isTwoDigits 0 61 whole && (Text.readNat? 10 fraction).isSome
  | _ => false

def isTime (cs : List Char) : Bool :=
  match cs.splitOn ':' with
  | [hour, minute] => isTwoDigits 0 24 hour && isTwoDigits 0 60 minute
  | [hour, minute, second] => isTwoDigits 0 24 hour && isTwoDigits 0 60 minute && isSeconds second
  | _ => false

/-- A time with an optional distance to universal time. -/
def isZonedTime (cs : List Char) : Bool :=
  let time := cs.takeWhile fun c => c.isDigit || c == ':' || c == '.'
  isTime time &&
    match cs.drop time.length with
    | [] => true
    | ['Z'] => true
    | ['z'] => true
    | sign :: offset =>
      (sign == '+' || sign == '-') &&
        match offset.splitOn ':' with
        | [hour, minute] => isTwoDigits 0 24 hour && isTwoDigits 0 60 minute
        | _ => false

def isMoment (cs : List Char) : Bool :=
  isTime cs || isDate cs ||
    match cs.drop 10 with
    | mark :: time => isDate (cs.take 10) && [' ', 'T', 't'].contains mark && isZonedTime time
    | [] => false

/-- A number, date or time, told apart by what follows the digits at its start. -/
def number? (cs : List Char) : Option Item :=
  let rest := (unsigned cs).dropWhile Char.isDigit
  if rest.head? == some '-' || rest.head? == some ':' then
    if isMoment cs then some .other else none
  else if rest.contains ' ' then none
  else if rest.any fun c => c == '.' || isExponentMark c then
    if isFloat cs then some .other else none
  else if (rest.isEmpty || rest.head? == some '_') && !(unsigned cs).isEmpty &&
      !hasLeadingZero (unsigned cs) && isGrouped (isDigitOf 16) cs then
    some (integerItem 10 (cs.head? == some '-') (unsigned cs))
  else none

def scalar? : List Char → Option Item
  | '0' :: 'x' :: digits => radixInteger? 16 digits
  | '0' :: 'o' :: digits => radixInteger? 8 digits
  | '0' :: 'b' :: digits => radixInteger? 2 digits
  | cs =>
    if ["true", "false"].contains (String.ofList cs) then some .other
    else if ["inf", "nan"].contains (String.ofList (unsigned cs)) then some .other
    else number? cs

/-- A character inside a word; the marks, blanks and line breaks that end one are not. -/
def isWordChar (c : Char) : Bool := !"=,[]\x7b\x7d#\n\r".toList.contains c && !isSpace c

/-- The words at the start of a text with the blanks between them; a quote behind blanks starts no
word. -/
def takeWords : List Char → List Char
  | [] => []
  | c :: cs =>
    if isWordChar c then c :: takeWords cs
    else if isSpace c then
      let words := takeWords cs
      if words.head?.any fun c => c != '"' && c != '\'' then c :: words else []
    else []

/-- The scalar at the start of a text. -/
def scalarStep? (cs : List Char) : Option (Item × List Char) :=
  let words := takeWords cs
  (scalar? words).map (·, cs.drop words.length)

example : scalar? "-1_000".toList = some (.integer (-1000)) := by rfl
example : scalar? "01".toList = none := by rfl
example : scalar? "1_2nd".toList = some .other := by rfl
example : isMoment "1979-05-27 07:32".toList = true := by decide +kernel

end HalConstants.Toml
