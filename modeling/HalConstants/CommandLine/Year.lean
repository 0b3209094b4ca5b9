import HalConstants.Code.License
import HalConstants.Text.Numeral

/-!
# Years on the command line

A year is decimal with an optional sign. The digits are read from left to right into 64 bits, and the
first character that is no digit or leads out of the range decides what is wrong; after that the value
has to be a year.
-/

namespace HalConstants.CommandLine

inductive YearFault where
  | empty
  | badDigit
  | tooLarge
  | tooSmall
  | noYear (i : Int)
deriving DecidableEq, Repr

def YearFault.reason : YearFault → String
  | empty => "cannot parse integer from empty string"
  | badDigit => "invalid digit found in string"
  | tooLarge => "number too large to fit in target type"
  | tooSmall => "number too small to fit in target type"
  | noYear i => s!"{i} is not in {Int32.minValue}..={Int32.maxValue}"

/-- Reads on digits after a number already read. -/
def readSigned (negative : Bool) (n : Int) : List Char → Except YearFault Int
  | [] => .ok n
  | c :: cs =>
    match Text.readNat? 10 [c] with
    | none => .error .badDigit
    | some d =>
      let next := if negative then 10 * n - d else 10 * n + d
      if next < Int64.minValue.toInt then .error .tooSmall
      else if Int64.maxValue.toInt < next then .error .tooLarge
      else readSigned negative next cs

def readInteger : List Char → Except YearFault Int
  | [] => .error .empty
  | ['+'] => .error .badDigit
  | ['-'] => .error .badDigit
  | '+' :: digits => readSigned false 0 digits
  | '-' :: digits => readSigned true 0 digits
  | digits => readSigned false 0 digits

def readYear (text : List Char) : Except YearFault Int := do
  let i ← readInteger text
  if License.isYear i then return i else throw (.noYear i)

example : (readYear "+07".toList).toOption = some 7 := by decide +kernel
example : (readYear "2147483648".toList).toOption = none := by decide +kernel

end HalConstants.CommandLine
