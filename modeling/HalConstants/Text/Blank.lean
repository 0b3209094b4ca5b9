import HalConstants.Text.Bytes

/-!
# Blanks and words

A blank is a character with the Unicode property `White_Space`; every other character is ink. A word
is a maximal run of ink, and `words` lists the words of a text together with the byte at which each
one starts.
-/

namespace HalConstants.Text

def isBlank (c : Char) : Bool :=
  let n := c.toNat
  (0x9 ≤ n && n ≤ 0xD) || n == 0x20 || n == 0x85 || n == 0xA0 || n == 0x1680 ||
    (0x2000 ≤ n && n ≤ 0x200A) || n == 0x2028 || n == 0x2029 || n == 0x202F || n == 0x205F ||
    n == 0x3000

def isInk (c : Char) : Bool := !isBlank c

/-- A text without its leading and trailing blanks. -/
def trim (cs : List Char) : List Char :=
  ((cs.dropWhile isBlank).reverse.dropWhile isBlank).reverse

/-- A run of ink and the byte offset at which it stands. -/
structure Word where
  start : Nat
  text : List Char
deriving DecidableEq, Repr

def Word.size (w : Word) : Nat := byteLength w.text

/-- The words of a text whose first character stands at byte `pos`. -/
def wordsFrom (pos : Nat) (cs : List Char) : List Word :=
  match _h : cs.dropWhile isBlank with
  | [] => []
  | c :: rest =>
    let start := pos + byteLength (cs.takeWhile isBlank)
    let text := c :: rest.takeWhile isInk
    ⟨start, text⟩ :: wordsFrom (start + byteLength text) (rest.dropWhile isInk)
termination_by cs.length
decreasing_by
  have h₁ := List.dropWhile_sublist isBlank (l := cs) |>.length_le
  have h₂ := List.dropWhile_sublist isInk (l := rest) |>.length_le
  rw [_h, List.length_cons] at h₁
  omega

theorem wordsFrom_of_all_blank {cs : List Char} (h : ∀ c ∈ cs, isBlank c) (pos : Nat) :
    wordsFrom pos cs = [] := by
  have hd : cs.dropWhile isBlank = [] := by
    induction cs with
    | nil => rfl
    | cons c cs ih => simp_all
  unfold wordsFrom
  split
  · rfl
  · next heq => rw [hd] at heq; contradiction

example : isBlank '\u3000' = true := by decide
example : isBlank '\u200b' = false := by decide
example : wordsFrom 0 " é @unit".toList = [⟨1, ['é']⟩, ⟨4, "@unit".toList⟩] := by decide +kernel

end HalConstants.Text
