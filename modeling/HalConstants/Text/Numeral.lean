import HalConstants.Text.Blank

/-!
# Numerals

Digits are ASCII. A numeral of a document is a decimal or `0x` hexadecimal number with an optional
single minus sign, possibly between blanks; its value has to fit 64 bits. Digits alone never
overflow: they are read exactly, and the range is tested on the value.
-/

namespace HalConstants.Text

def digitValue? (c : Char) : Option Nat :=
  if '0' ≤ c ∧ c ≤ '9' then some (c.toNat - '0'.toNat)
  else if 'a' ≤ c ∧ c ≤ 'f' then some (c.toNat - 'a'.toNat + 10)
  else if 'A' ≤ c ∧ c ≤ 'F' then some (c.toNat - 'A'.toNat + 10)
  else none

/-- Reads on digits after a number already read. -/
def readDigits (radix : Nat) : Nat → List Char → Option Nat
  | n, [] => some n
  | n, c :: cs =>
    match digitValue? c with
    | some d => if d < radix then readDigits radix (radix * n + d) cs else none
    | none => none

def readNat? (radix : Nat) (cs : List Char) : Option Nat :=
  if cs.isEmpty then none else readDigits radix 0 cs

/-- The 64-bit integer of a given value. -/
def int64? (i : Int) : Option Int64 :=
  if Int64.minValue.toInt ≤ i ∧ i ≤ Int64.maxValue.toInt then some (Int64.ofInt i) else none

def splitSign : List Char → Bool × List Char
  | '-' :: cs => (true, cs)
  | cs => (false, cs)

def splitRadix : List Char → Nat × List Char
  | '0' :: 'x' :: cs => (16, cs)
  | '0' :: 'X' :: cs => (16, cs)
  | cs => (10, cs)

def readInt64? (text : List Char) : Option Int64 :=
  let (negative, unsigned) := splitSign (trim text)
  let (radix, digits) := splitRadix unsigned
  (readNat? radix digits).bind fun n => int64? (if negative then -n else n)

/-- A number in lower-case hexadecimal, the sign before the `0x`. -/
def hexLiteral (i : Int) : List Char :=
  (if i < 0 then ['-'] else []) ++ '0' :: 'x' :: Nat.toDigits 16 i.natAbs

theorem readDigits_append (radix n : Nat) (a b : List Char) :
    readDigits radix n (a ++ b) = (readDigits radix n a).bind (readDigits radix · b) := by
  induction a generalizing n with
  | nil => rfl
  | cons c cs ih =>
      simp only [List.cons_append, readDigits]
      split
      · split <;> simp [ih]
      · rfl

theorem digitValue?_digitChar {d : Nat} (h : d < 16) : digitValue? d.digitChar = some d := by
  have : ∀ d < 16, digitValue? (Nat.digitChar d) = some d := by decide
  exact this d h

theorem readDigits_toDigits {radix : Nat} (h₁ : 1 < radix) (h₂ : radix ≤ 16) (n : Nat) :
    readDigits radix 0 (Nat.toDigits radix n) = some n := by
  induction n using Nat.strongRecOn with
  | ind n ih =>
      by_cases hn : n < radix
      · simp [Nat.toDigits_of_lt_base hn, readDigits, digitValue?_digitChar (by omega : n < 16), hn]
      · have hpos : 0 < radix := by omega
        have hlt : n / radix < n := Nat.div_lt_self (by omega) h₁
        have hmod : n % radix < radix := Nat.mod_lt _ hpos
        rw [Nat.toDigits_of_base_le h₁ (by omega), readDigits_append, ih _ hlt]
        simp [readDigits, digitValue?_digitChar (by omega : n % radix < 16), hmod, Nat.div_add_mod]

theorem readNat?_toDigits {radix : Nat} (h₁ : 1 < radix) (h₂ : radix ≤ 16) (n : Nat) :
    readNat? radix (Nat.toDigits radix n) = some n := by
  simp [readNat?, Nat.toDigits_ne_nil, readDigits_toDigits h₁ h₂]

example : readInt64? " -0x8000000000000000 ".toList = some Int64.minValue := by decide +kernel
example : readInt64? "0x8000000000000000".toList = none := by decide +kernel
example : readInt64? "--5".toList = none := by decide +kernel
example : hexLiteral (-1) = "-0x1".toList := by decide +kernel

end HalConstants.Text
