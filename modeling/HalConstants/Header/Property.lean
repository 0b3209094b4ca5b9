import HalConstants.Header.Pattern
import HalConstants.Input.Error
import HalConstants.Model.Property
import HalConstants.Text.Blank

/-!
# Properties of a header

A property is a `#define` whose name starts with a given stem and which follows a documentation comment
on the next line. The comment runs from the first `/**` behind the last match to the first `*/` that such
a define follows, over other comments in between; its words are read from left to right, a key that takes
a value together with the word behind it. One layer of parentheses around the value is dropped.
-/

namespace HalConstants.Header

open Text (isBlank isInk Word)

def propertyPattern (stem : List Char) : Pattern :=
  [.text ['/', '*', '*'], .many (fun _ => true) .shortest, .text "*/\n#define".toList,
    .some isBlank .longest, .text stem, .some isInk .longest, .some isBlank .longest,
    .some isInk .longest]

def stripParens (value : List Char) : List Char :=
  match value with
  | '(' :: rest => if rest.getLast? == some ')' then rest.dropLast else value
  | _ => value

/-- A define with its comment, before the comment is read. `start` is the byte at which the body of the
comment begins. -/
structure PropertyBlock where
  start : Nat
  comment : List Char
  suffix : List Char
  value : List Char
deriving DecidableEq, Repr

def PropertyBlock.ofMatch? (m : Pattern.Match) : Option PropertyBlock :=
  match m.texts with
  | [opening, comment, _, _, _, suffix, _, value] =>
    some ⟨m.start + Text.byteLength opening, comment, suffix, value⟩
  | _ => none

def propertyBlocks (stem text : List Char) : List PropertyBlock :=
  ((propertyPattern stem).findAll 0 text).filterMap PropertyBlock.ofMatch?

def PropertyBlock.property (b : PropertyBlock) (stem : List Char) : Property where
  name := String.ofList (stem ++ b.suffix)
  value := String.ofList (stripParens b.value)

/-- Reads the words of a comment; fails at a key that lacks its value. -/
def annotate (p : Property) : List Word → Except (Word × AnnotationKey) Property
  | [] => .ok p
  | w :: ws =>
    match AnnotationKey.ofToken? (String.ofList w.text), ws with
    | none, ws => annotate p ws
    | some key, ws =>
      if key.takesValue then
        match ws with
        | [] => .error (w, key)
        | v :: ws => annotate (p.annotate key (some (String.ofList v.text))) ws
      else annotate (p.annotate key none) ws

/-- Places the fault in the file in which its key starts. -/
def missingValue (sources : Sources) (w : Word) (key : AnnotationKey) (property : String) :
    InputError :=
  match sources.locate? w.start with
  | some (file, offset) => .missingValue file offset w.size key property
  | none => .missingValue ⟨"<input>", sources.text⟩ w.start w.size key property

def PropertyBlock.read (b : PropertyBlock) (stem : List Char) (sources : Sources) :
    Except InputError Property :=
  let p := b.property stem
  (annotate p (Text.wordsFrom b.start b.comment)).mapError fun (w, key) =>
    missingValue sources w key p.name

/-- The properties of the whole text, unless one of them is malformed. -/
def properties (stem : String) (sources : Sources) : Except InputError (List Property) :=
  (propertyBlocks stem.toList sources.text.toList).mapM (·.read stem.toList sources)

example : stripParens "((A))".toList = "(A)".toList := by decide
example : stripParens "(".toList = "(".toList := by decide

end HalConstants.Header
