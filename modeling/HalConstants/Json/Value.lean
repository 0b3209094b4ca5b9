import HalConstants.Json.Scan

/-!
# JSON values

Values as they are written: numbers are integers, and the members of an object keep their order. `print`
lays a value out over several lines, two spaces for each level; empty arrays and objects stay on one
line. `scan` is the scan that a reader makes of a written value.
-/

namespace HalConstants.Json

inductive Value where
  | null
  | bool (b : Bool)
  | integer (i : Int)
  | string (s : String)
  | array (items : List Value)
  | object (members : List (String × Value))

namespace Value

def hexUnit (n : Nat) : List Char :=
  ['\\', 'u', '0', '0', Nat.digitChar (n / 16), Nat.digitChar (n % 16)]

def escapeChar (c : Char) : List Char :=
  match c with
  | '"' => ['\\', '"']
  | '\\' => ['\\', '\\']
  | '\x08' => ['\\', 'b']
  | '\x0c' => ['\\', 'f']
  | '\n' => ['\\', 'n']
  | '\r' => ['\\', 'r']
  | '\t' => ['\\', 't']
  | c => if c.toNat < 0x20 then hexUnit c.toNat else [c]

def quote (s : String) : String := String.ofList ('"' :: s.toList.flatMap escapeChar ++ ['"'])

def newline (level : Nat) : String := ("\n" : String).pushn ' ' (2 * level)

mutual

def printAt (level : Nat) : Value → String
  | .null => "null"
  | .bool b => if b then "true" else "false"
  | .integer i => toString i
  | .string s => quote s
  | .array [] => "[]"
  | .array (item :: items) =>
    "[" ++ newline (level + 1) ++ printAt (level + 1) item ++ printItems (level + 1) items ++
      newline level ++ "]"
  | .object [] => "\x7b\x7d"
  | .object (m :: members) =>
    "\x7b" ++ newline (level + 1) ++ printMember (level + 1) m ++ printMembers (level + 1) members ++
      newline level ++ "\x7d"

def printItems (level : Nat) : List Value → String
  | [] => ""
  | item :: items => "," ++ newline level ++ printAt level item ++ printItems level items

def printMember (level : Nat) : String × Value → String
  | (key, v) => quote key ++ ": " ++ printAt level v

def printMembers (level : Nat) : List (String × Value) → String
  | [] => ""
  | m :: members => "," ++ newline level ++ printMember level m ++ printMembers level members

end

def print (v : Value) : String := printAt 0 v

mutual

def scan : Value → Scan
  | .null => .null
  | .bool b => .bool b
  | .integer i => .number (.ok (.integer i))
  | .string s => .string (.ok s)
  | .array items => .array (scanItems items) none
  | .object members => .object (scanMembers members) none

def scanItems : List Value → List Scan
  | [] => []
  | item :: items => item.scan :: scanItems items

def scanMember : String × Value → Except Fault String × Scan
  | (key, v) => (.ok key, v.scan)

def scanMembers : List (String × Value) → List (Except Fault String × Scan)
  | [] => []
  | m :: members => scanMember m :: scanMembers members

end

end Value

end HalConstants.Json
