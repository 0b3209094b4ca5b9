import HalConstants.Model.Repeats

/-!
# Enumerations

An enumeration of a header lists entries whose values are kept as text; several entries may share a
value. A group of an enum document lists cases whose values are resolved 64-bit integers.
-/

namespace HalConstants

structure Entry where
  name : String
  value : String
deriving DecidableEq, Repr

structure Enumeration where
  name : String
  entries : List Entry
deriving DecidableEq, Repr

namespace Enumeration

def isEmpty (e : Enumeration) : Bool := e.entries.isEmpty

def push (e : Enumeration) (entry : Entry) : Enumeration :=
  { e with entries := e.entries ++ [entry] }

/-- Of the entries that share a value, the first. -/
def withoutAliases (e : Enumeration) : List Entry := firsts Entry.value e.entries

end Enumeration

structure Case where
  name : String
  value : Int64
deriving DecidableEq

structure Group where
  name : String
  cases : List Case
deriving DecidableEq

/-- Puts a group behind the others, or in the place of the one that has its name. -/
def Group.put (g : Group) : List Group → List Group
  | [] => [g]
  | h :: hs => if h.name == g.name then g :: hs else h :: g.put hs

end HalConstants
