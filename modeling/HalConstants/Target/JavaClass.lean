import HalConstants.Code.Fragment

/-!
# Java declarations

The parts of a constants class: integer constants, methods that are one `switch`, and classes whose
members are separated by blank lines.
-/

namespace HalConstants.Java

structure Constant where
  name : String
  value : String

def Constant.fragment (c : Constant) : Fragment :=
  .line s!"public static final int {c.name} = {c.value};"

/-- A static method that maps its parameter, case by case, to an expression. -/
structure Switch where
  returnType : String
  name : String
  param : String
  cases : List (String × String)
  fallback : String

def Switch.fragments (s : Switch) : List Fragment :=
  let arms := s.cases.map (fun (label, expr) => Fragment.line s!"case {label}: return {expr};") ++
    [Fragment.line s!"default: return {s.fallback};"]
  [.block s!"public static {s.returnType} {s.name}(int {s.param}) \x7b"
    [.block s!"switch ({s.param}) \x7b" arms (some "\x7d")] (some "\x7d")]

structure Class where
  name : String
  nested : Bool := false
  members : List (List Fragment) := []

/-- Adds a member at the end; an empty one is dropped, so that it leaves no blank line. -/
def Class.member (c : Class) (fragments : List Fragment) : Class :=
  if fragments.isEmpty then c else { c with members := c.members ++ [fragments] }

def Class.fragments (c : Class) : List Fragment :=
  let modifiers := if c.nested then "public static class" else "public class"
  [.block s!"{modifiers} {c.name} \x7b" ([Fragment.blank].intercalate c.members) (some "\x7d")]

end HalConstants.Java
