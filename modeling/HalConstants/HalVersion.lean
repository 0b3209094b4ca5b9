import HalConstants.Text.Numeral

/-!
# HAL versions

A version is written as two decimal numbers of 32 bits with a point between them. Versions are ordered
by the major number first.
-/

namespace HalConstants

structure HalVersion where
  major : UInt32
  minor : UInt32
deriving DecidableEq, Ord, Repr

namespace HalVersion

def v2_0 : HalVersion := ⟨2, 0⟩

/-- The form used in module and class names. -/
def suffix (v : HalVersion) : String := s!"{v.major.toNat}_{v.minor.toNat}"

def text (v : HalVersion) : String := s!"{v.major.toNat}.{v.minor.toNat}"

def readComponent? (cs : List Char) : Option UInt32 :=
  (Text.readNat? 10 cs).bind fun n => if n < UInt32.size then some (UInt32.ofNat n) else none

def ofChars? (cs : List Char) : Option HalVersion :=
  match cs.splitOn '.' with
  | [major, minor] => do some ⟨← readComponent? major, ← readComponent? minor⟩
  | _ => none

/-- Whether a text has the form of a version, whatever the size of its numbers. -/
def hasForm (cs : List Char) : Bool :=
  match cs.splitOn '.' with
  | [major, minor] =>
    !major.isEmpty && major.all Char.isDigit && !minor.isEmpty && minor.all Char.isDigit
  | _ => false

def refusal (text : String) : String :=
  s!"invalid HAL version '{text}', expected <major>.<minor> such as 2.0"

def parse (text : String) : Except String HalVersion :=
  (ofChars? text.toList).elim (.error (refusal text)) .ok

example : ofChars? "02.10".toList = some ⟨2, 10⟩ := by decide +kernel
example : ofChars? "2.0.1".toList = none := by decide +kernel

end HalVersion

end HalConstants
