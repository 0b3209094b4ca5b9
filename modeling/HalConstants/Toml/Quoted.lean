import HalConstants.Text.Numeral

/-!
# TOML strings

Strings stand in double quotes, where a backslash starts an escape, or in single quotes, where nothing
does. Three quotes make a string of several lines: a line break directly behind them is dropped, and up
to two quotes may stand before the closing three. Every function starts behind the opening quotes and
gives the characters of the string and the text behind it.
-/

namespace HalConstants.Toml

/-- A character that stands for itself: no control character but the tab. -/
def isPlain (c : Char) : Bool := (0x20 ≤ c.toNat && c.toNat != 0x7F) || c == '\t'

def character? (digits : List Char) : Option Char :=
  (Text.readNat? 16 digits).bind fun n =>
    if n.isValidChar then some (Char.ofNat n) else none

/-- The character of an escape, and the text behind it. -/
def escape? : List Char → Option (Char × List Char)
  | 'b' :: cs => some ('\x08', cs)
  | 't' :: cs => some ('\t', cs)
  | 'n' :: cs => some ('\n', cs)
  | 'f' :: cs => some ('\x0c', cs)
  | 'r' :: cs => some ('\r', cs)
  | 'e' :: cs => some ('\x1b', cs)
  | '"' :: cs => some ('"', cs)
  | '\\' :: cs => some ('\\', cs)
  | 'x' :: cs => hex 2 cs
  | 'u' :: cs => hex 4 cs
  | 'U' :: cs => hex 8 cs
  | _ => none
where
  hex (n : Nat) (cs : List Char) : Option (Char × List Char) :=
    if cs.length < n then none else (character? (cs.take n)).map (·, cs.drop n)

theorem length_escape?_le {cs rest : List Char} {c : Char} (h : escape? cs = some (c, rest)) :
    rest.length ≤ cs.length := by
  unfold escape? at h
  split at h <;> simp_all [escape?.hex] <;> grind

abbrev StringStep := Option (List Char × List Char)

def StringStep.cons (c : Char) (step : StringStep) : StringStep :=
  step.map fun (cs, rest) => (c :: cs, rest)

def basic? : List Char → StringStep
  | [] => none
  | '"' :: cs => some ([], cs)
  | '\\' :: cs =>
    match _h : escape? cs with
    | some (c, rest) => .cons c (basic? rest)
    | none => none
  | c :: cs => if isPlain c then .cons c (basic? cs) else none
termination_by cs => cs.length
decreasing_by
  · have := length_escape?_le _h
    simp only [List.length_cons]
    omega
  · simp

def literal? : List Char → StringStep
  | [] => none
  | '\'' :: cs => some ([], cs)
  | c :: cs => if isPlain c then .cons c (literal? cs) else none

def dropLineBreak : List Char → List Char
  | '\n' :: cs => cs
  | '\r' :: '\n' :: cs => cs
  | cs => cs

def isSpace (c : Char) : Bool := c == ' ' || c == '\t'

/-- The text without the blanks and line breaks at its start. -/
def dropBlankLines : List Char → List Char
  | '\r' :: '\n' :: cs => dropBlankLines cs
  | c :: cs => if isSpace c || c == '\n' then dropBlankLines cs else c :: cs
  | [] => []

theorem length_dropBlankLines_le (cs : List Char) : (dropBlankLines cs).length ≤ cs.length := by
  fun_induction dropBlankLines cs <;> simp_all <;> omega

/-- Behind a backslash at the end of a line, the text without the blanks and line breaks that follow. -/
def joinLines? (cs : List Char) : Option (List Char) :=
  let rest := cs.dropWhile isSpace
  if (dropLineBreak rest).length < rest.length then some (dropBlankLines rest) else none

theorem length_joinLines?_le {cs rest : List Char} (h : joinLines? cs = some rest) :
    rest.length ≤ cs.length := by
  simp only [joinLines?] at h
  split at h
  · have h₁ := (List.dropWhile_sublist isSpace (l := cs)).length_le
    have h₂ := length_dropBlankLines_le (cs.dropWhile isSpace)
    simp only [Option.some.injEq] at h
    subst h
    omega
  · contradiction

def multilineBasic? : List Char → StringStep
  | [] => none
  | '"' :: '"' :: '"' :: '"' :: '"' :: cs => some (['"', '"'], cs)
  | '"' :: '"' :: '"' :: '"' :: cs => some (['"'], cs)
  | '"' :: '"' :: '"' :: cs => some ([], cs)
  | '\\' :: cs =>
    match _h : joinLines? cs with
    | some rest => multilineBasic? rest
    | none =>
      match _h' : escape? cs with
      | some (c, rest) => .cons c (multilineBasic? rest)
      | none => none
  | '\r' :: '\n' :: cs => .cons '\r' (.cons '\n' (multilineBasic? cs))
  | c :: cs => if isPlain c || c == '\n' then .cons c (multilineBasic? cs) else none
termination_by cs => cs.length
decreasing_by
  · have := length_joinLines?_le _h
    simp only [List.length_cons]
    omega
  · have := length_escape?_le _h'
    simp only [List.length_cons]
    omega
  · simp only [List.length_cons]
    omega
  · simp

def multilineLiteral? : List Char → StringStep
  | [] => none
  | '\'' :: '\'' :: '\'' :: '\'' :: '\'' :: cs => some (['\'', '\''], cs)
  | '\'' :: '\'' :: '\'' :: '\'' :: cs => some (['\''], cs)
  | '\'' :: '\'' :: '\'' :: cs => some ([], cs)
  | '\r' :: '\n' :: cs => .cons '\r' (.cons '\n' (multilineLiteral? cs))
  | c :: cs => if isPlain c || c == '\n' then .cons c (multilineLiteral? cs) else none

/-- A string of one line, opening quote included. -/
def singleLine? : List Char → StringStep
  | '"' :: cs => basic? cs
  | '\'' :: cs => literal? cs
  | _ => none

def quoted? : List Char → StringStep
  | '"' :: '"' :: '"' :: cs => multilineBasic? (dropLineBreak cs)
  | '\'' :: '\'' :: '\'' :: cs => multilineLiteral? (dropLineBreak cs)
  | cs => singleLine? cs

end HalConstants.Toml
