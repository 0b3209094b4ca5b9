import HalConstants.Toml.Quoted
import HalConstants.Toml.Scalar

/-!
# Reading TOML

The reader takes version 1.1 of the format and accepts or refuses a text as a whole. Arrays and inline
tables may run over several lines, with comments, and may end in a comma; everything else ends with its
line. Neither the brackets nor the names of a key go deeper than a fixed number.
-/

namespace HalConstants.Toml

def isBareKeyChar (c : Char) : Bool := c.isAlphanum || c == '_' || c == '-'

def skipSpaces (cs : List Char) : List Char := cs.dropWhile isSpace

/-- The text of a line behind its comment, if it has one. -/
def skipComment (cs : List Char) : List Char :=
  match cs with
  | '#' :: rest => rest.dropWhile isPlain
  | _ => cs

/-- Behind the end of a line, or at the end of the text. -/
def endLine? (cs : List Char) : Option (List Char) :=
  match skipComment (skipSpaces cs) with
  | [] => some []
  | '\n' :: cs => some cs
  | '\r' :: '\n' :: cs => some cs
  | _ => none

theorem length_skipSpaces_le (cs : List Char) : (skipSpaces cs).length ≤ cs.length :=
  (List.dropWhile_sublist _).length_le

theorem length_skipComment_le (cs : List Char) : (skipComment cs).length ≤ cs.length := by
  unfold skipComment
  split
  · next rest =>
      have := (List.dropWhile_sublist isPlain (l := rest)).length_le
      simp only [List.length_cons]
      omega
  · exact Nat.le_refl _

/-- Skips blanks, comments and line breaks. -/
def skipLines (cs : List Char) : List Char :=
  match _h : skipComment (skipSpaces cs) with
  | '\n' :: rest => skipLines rest
  | '\r' :: '\n' :: rest => skipLines rest
  | rest => rest
termination_by cs.length
decreasing_by
  all_goals
    have h₁ := length_skipSpaces_le cs
    have h₂ := length_skipComment_le (skipSpaces cs)
    rw [_h] at h₂
    simp only [List.length_cons] at h₂
    omega

def simpleKey? (cs : List Char) : Option (String × List Char) :=
  let bare := cs.takeWhile isBareKeyChar
  if bare.isEmpty then
    if "\"\"\"".toList.isPrefixOf cs || "'''".toList.isPrefixOf cs then none
    else (singleLine? cs).map fun (key, rest) => (String.ofList key, rest)
  else some (String.ofList bare, cs.drop bare.length)

/-- The number of arrays and inline tables in each other, and of names in a key, that is still taken. -/
def maxDepth : Nat := 80

/-- A key of names between points, of which there may be `limit`, as the names before the last one and
the last one. -/
def names? : Nat → List Char → Option ((List String × String) × List Char)
  | 0, _ => none
  | limit + 1, cs => do
    let (name, rest) ← simpleKey? (skipSpaces cs)
    match skipSpaces rest with
    | '.' :: rest =>
      let ((path, key), rest) ← names? limit rest
      some ((name :: path, key), rest)
    | rest => some (([], name), rest)

def dottedKey? (cs : List Char) : Option ((List String × String) × List Char) := names? maxDepth cs

mutual

/-- A value, in which brackets may go `depth` deep. Each step goes at least one character, or one level
of brackets, further. -/
def value? : Nat → Nat → List Char → Option (Item × List Char)
  | 0, _, _ => none
  | steps + 1, depth, cs =>
    match cs, depth with
    | '[' :: _, 0 | '\x7b' :: _, 0 => none
    | '[' :: cs, depth + 1 =>
      (items? steps depth (skipLines cs)).map fun (items, rest) => (.array items, rest)
    | '\x7b' :: cs, depth + 1 =>
      (members? steps depth [] (skipLines cs)).map fun (entries, rest) =>
        (.table .inline entries, rest)
    | '"' :: _, _ | '\'' :: _, _ =>
      (quoted? cs).map fun (s, rest) => (.string (String.ofList s), rest)
    | _, _ => scalarStep? cs

def items? : Nat → Nat → List Char → Option (List Item × List Char)
  | 0, _, _ => none
  | steps + 1, depth, cs =>
    match cs with
    | ']' :: rest => some ([], rest)
    | _ => do
      let (item, rest) ← value? steps depth cs
      match skipLines rest with
      | ']' :: rest => some ([item], rest)
      | ',' :: rest =>
        let (items, rest) ← items? steps depth (skipLines rest)
        some (item :: items, rest)
      | _ => none

/-- The pairs of an inline table, put behind the entries before them. -/
def members? : Nat → Nat → Entries → List Char → Option (Entries × List Char)
  | 0, _, _, _ => none
  | steps + 1, depth, entries, cs =>
    match cs with
    | '\x7d' :: rest => some (entries, rest)
    | _ => do
      let ((path, key), rest) ← dottedKey? cs
      match skipLines rest with
      | '=' :: rest =>
        let (item, rest) ← value? steps depth (skipLines rest)
        let entries ← entries.put path key item .inline
        match skipLines rest with
        | '\x7d' :: rest => some (entries, rest)
        | ',' :: rest => members? steps depth entries (skipLines rest)
        | _ => none
      | _ => none

end

/-- A pair that stands on a line of its own, as its key and value. -/
def pair? (cs : List Char) : Option ((List String × String) × Item × List Char) := do
  let (key, rest) ← dottedKey? cs
  match rest with
  | '=' :: rest => some (key, ← value? (2 * rest.length + 2) maxDepth (skipSpaces rest))
  | _ => none

/-- The entries of the document so far, and the header under which pairs stand. -/
structure State where
  entries : Entries := []
  header : List String := []

def header? (s : State) (cs : List Char) : Option (State × List Char) :=
  match cs with
  | '[' :: cs => do
    let ((path, key), rest) ← dottedKey? cs
    match rest with
    | ']' :: ']' :: rest => some (⟨← s.entries.openElement path key, path ++ [key]⟩, rest)
    | _ => none
  | _ => do
    let ((path, key), rest) ← dottedKey? cs
    match rest with
    | ']' :: rest => some (⟨← s.entries.openTable path key, path ++ [key]⟩, rest)
    | _ => none

/-- The lines of a document; the number of steps bounds their number. -/
def lines? : Nat → State → List Char → Option State
  | 0, _, _ => none
  | steps + 1, s, cs =>
    match skipLines cs with
    | [] => some s
    | '[' :: rest => do
      let (s, rest) ← header? s rest
      lines? steps s (← endLine? rest)
    | cs => do
      let ((path, key), item, rest) ← pair? cs
      let entries ← s.entries.putAt s.header path key item
      lines? steps { s with entries := entries } (← endLine? rest)

/-- The entries of a document; a byte order mark at its start is skipped. -/
def read? (text : List Char) : Option Entries :=
  let cs := if text.head? == some '\ufeff' then text.drop 1 else text
  (lines? (cs.length + 1) {} cs).map (·.entries)

end HalConstants.Toml
