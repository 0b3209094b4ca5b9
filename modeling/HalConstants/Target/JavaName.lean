import HalConstants.Text.Alphanumeric
import HalConstants.Text.Uppercase

/-!
# Java names

`typeName` turns the name of a header enumeration into the name of a Java class. An identifier is
refused for the first of four reasons that applies, a package name for the reason of its first refused
segment.
-/

namespace HalConstants.Java

def capitalize : List Char → List Char
  | [] => []
  | c :: cs => Text.upperCase c ++ cs

/-- A name that starts in upper case is kept; of any other, the pieces between underscores are
capitalized and joined. -/
def typeNameChars (name : List Char) : List Char :=
  if name.head?.any Text.isUppercase then name
  else (name.splitOn '_').flatMap capitalize

def typeName (name : String) : String := String.ofList (typeNameChars name.toList)

def reservedWords : List String := [
  "abstract", "assert", "boolean", "break", "byte", "case", "catch", "char", "class", "const",
  "continue", "default", "do", "double", "else", "enum", "extends", "final", "finally",
  "float", "for", "goto", "if", "implements", "import", "instanceof", "int", "interface",
  "long", "native", "new", "package", "private", "protected", "public", "return", "short",
  "static", "strictfp", "super", "switch", "synchronized", "this", "throw", "throws",
  "transient", "try", "void", "volatile", "while", "_",
  "true", "false", "null"]

inductive NameFault where
  | empty
  | reserved
  | leadingDigit
  | badCharacter
deriving DecidableEq, Repr

def NameFault.reason : NameFault → String
  | empty => "name cannot be empty"
  | reserved => "name is a Java reserved word"
  | leadingDigit => "name cannot start with a digit"
  | badCharacter => "name contains invalid characters"

def isNameChar (c : Char) : Bool := Text.isAlphanumeric c || c == '_' || c == '$'

/-- Why a name is no identifier, if it is none. -/
def identifierFault? (name : List Char) : Option NameFault :=
  match name with
  | [] => some .empty
  | c :: _ =>
    if reservedWords.contains (String.ofList name) then some .reserved
    else if c.isDigit then some .leadingDigit
    else if name.all isNameChar then none
    else some .badCharacter

def packageFault? (name : List Char) : Option NameFault :=
  (name.splitOn '.').findSome? identifierFault?

example : typeName "hvac_fanDirection_" = "HvacFanDirection" := by decide +kernel
example : packageFault? "com..x".toList = some .empty := by decide +kernel

end HalConstants.Java
