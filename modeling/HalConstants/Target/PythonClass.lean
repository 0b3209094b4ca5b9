import HalConstants.Code.Fragment
import HalConstants.Text.Bytes

/-!
# Python declarations

Assignments at the level of the module, and classes whose attributes are lists. The names of a class
are padded to one width, so that the equals signs line up, and the further items of a list continue on
lines of their own. The common width and the margin of a continued line are counted in bytes, the
padding in characters.
-/

namespace HalConstants.Python

structure Assignment where
  name : String
  value : String

def Assignment.fragment (a : Assignment) : Fragment := .line s!"{a.name} = {a.value}"

structure Class where
  name : String
  attributes : List (String × List String)

def padded (width : Nat) (name : String) : String := name.pushn ' ' (width - name.length)

/-- The items of a list after its first one, each on a line with the given margin. -/
def continuation (margin : String) : List String → List String
  | [] => []
  | [item] => [margin ++ item ++ "]"]
  | item :: items => (margin ++ item ++ ",") :: continuation margin items

def attributeLines (width : Nat) (name : String) (items : List String) : List String :=
  let head := padded width name ++ " = ["
  match items with
  | [] => [head ++ "]"]
  | [item] => [head ++ item ++ "]"]
  | item :: items => (head ++ item ++ ",") :: continuation ("".pushn ' ' head.utf8ByteSize) items

def Class.width (c : Class) : Nat :=
  (c.attributes.map (·.1.utf8ByteSize)).foldl max 0

def Class.bodyLines (c : Class) : List String :=
  match c.attributes.flatMap fun (name, items) => attributeLines c.width name items with
  | [] => ["pass"]
  | lines => lines

def Class.fragments (c : Class) : List Fragment :=
  [.block s!"class {c.name}:" (c.bodyLines.map .line) none]

end HalConstants.Python
