import HalConstants.Text.Numeral

/-!
# JSON numbers

A number without fraction and exponent is an integer as long as it fits 64 bits, signed or unsigned;
every other number is a real, and so is `-0`. A real has to stay below the largest double. What counts is
its significand, the leading digits that fit 64 bits unsigned, and the power of ten that is left; both
and their product are rounded to 53 bits.
-/

namespace HalConstants.Json

inductive Number where
  | integer (i : Int)
  | real
deriving DecidableEq, Repr

/-- The parts of a number as written; the digits are ASCII. -/
structure Decimal where
  negative : Bool
  whole : List Char
  fraction : List Char := []
  exponent : Int := 0
  isInteger : Bool

def maxUnsigned : Nat := UInt64.size - 1

def digit (c : Char) : Nat := (Text.digitValue? c).getD 0

/-- Rounds to 53 significant bits, a half to the even neighbour. -/
def roundToDouble (n : Nat) : Nat :=
  let shift := n.log2 - 52
  let quotient := n >>> shift
  let remainder := n - (quotient <<< shift)
  let double := 2 * remainder
  let unit := Nat.pow 2 shift
  let up := unit < double || (double == unit && quotient % 2 == 1)
  (if up then quotient + 1 else quotient) <<< shift

/-- Appends digits to a significand while it fits, and counts the digits taken. -/
def takeDigits (significand taken : Nat) : List Char → Nat × Nat
  | [] => (significand, taken)
  | c :: cs =>
    let next := 10 * significand + digit c
    if next ≤ maxUnsigned then takeDigits next (taken + 1) cs else (significand, taken)

namespace Decimal

def exceedsDouble (d : Decimal) : Bool :=
  let (whole, wholeTaken) := takeDigits 0 0 d.whole
  let (significand, fractionTaken) := takeDigits whole 0 d.fraction
  let power := (d.whole.length - wholeTaken : Int) - fractionTaken + d.exponent
  significand != 0 && 0 ≤ power &&
    (308 < power ||
      Nat.pow 2 1024 ≤
        roundToDouble (roundToDouble significand * roundToDouble (Nat.pow 10 power.toNat)))

/-- The number, unless it is out of range. -/
def number? (d : Decimal) : Option Number :=
  let n := (Text.readNat? 10 d.whole).getD 0
  if d.isInteger && d.negative && n != 0 && n ≤ Nat.pow 2 63 then some (.integer (-n))
  else if d.isInteger && !d.negative && n ≤ maxUnsigned then some (.integer n)
  else if d.exceedsDouble then none
  else some .real

example : (Decimal.mk true ['0'] [] 0 true).number? = some .real := by decide +kernel
example : (Decimal.mk false ['1'] [] 308 false).number? = some .real := by decide +kernel
example : (Decimal.mk false ['1'] [] 309 false).number? = none := by decide +kernel

end Decimal

end HalConstants.Json
