import HalConstants.Header.Pattern
import HalConstants.Model.Enumeration
import HalConstants.Text.Blank

/-!
# Enumerations of a header

An enumeration is the word `enum`, a name and a body in braces. Ink directly behind the opening brace is
passed over; the entries of the rest are a name, `=` and a value, and one comma at the end of the value
is dropped.
-/

namespace HalConstants.Header

open Text (isBlank isInk)

def enumerationPattern : Pattern :=
  [.text "enum".toList, .some isBlank .longest, .some isInk .longest, .some isBlank .longest,
    .text ['\x7b'], .many isInk .longest, .many (fun _ => true) .shortest, .text ['\x7d']]

def entryPattern : Pattern :=
  [.some isInk .longest, .many isBlank .longest, .text ['='], .many isBlank .longest,
    .some isInk .longest]

def stripComma (value : List Char) : List Char :=
  if value.getLast? == some ',' then value.dropLast else value

def entry? (m : Pattern.Match) : Option Entry :=
  match m.texts with
  | [name, _, _, _, value] => some ⟨String.ofList name, String.ofList (stripComma value)⟩
  | _ => none

def entries (body : List Char) : List Entry := (entryPattern.findAll 0 body).filterMap entry?

def enumeration? (m : Pattern.Match) : Option Enumeration :=
  match m.texts with
  | [_, _, name, _, _, _, body, _] => some ⟨String.ofList name, entries body⟩
  | _ => none

def enumerations (text : String) : List Enumeration :=
  (enumerationPattern.findAll 0 text.toList).filterMap enumeration?

end HalConstants.Header
