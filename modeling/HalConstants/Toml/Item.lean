import HalConstants.Keyed

/-!
# TOML documents as trees

A document is built from statements: a header opens a table, a pair puts a value under a dotted key. A
table remembers how it came about. One that only lies on the way to another may still be opened by a
header of its own, one that a dotted key made may get further dotted keys, and every other table and
every key is defined once.
-/

namespace HalConstants.Toml

inductive Origin where
  /-- The table of a header, or the document itself. -/
  | header
  /-- A table on the way to the table of a header. -/
  | passed
  | dotted
  | inline
deriving DecidableEq, Repr

inductive Item where
  | string (s : String)
  | integer (i : Int)
  /-- A boolean, float, date, time or integer without a value; no manifest has a use for it. -/
  | other
  | array (items : List Item)
  | table (origin : Origin) (entries : List (String × Item))
  /-- Tables that headers in double brackets opened, each behind the one before. -/
  | tables (elements : List (List (String × Item)))

abbrev Entries := List (String × Item)

namespace Entries

/-- Changes the table at the end of a path and makes the tables that are missing on the way. A dotted
key passes only through tables that were not defined by a header or in braces. -/
def change (byDots : Bool) (edit : Origin → Entries → Option Entries) :
    List String → Origin → Entries → Option Entries
  | [], origin, entries => edit origin entries
  | key :: path, _, entries =>
    match entries.lookup key with
    | none => do
      let origin := if byDots then .dotted else .passed
      return Keyed.put key (.table origin (← change byDots edit path origin [])) entries
    | some (.table origin child) => do
      if byDots && (origin == .header || origin == .inline) then none
      else if origin == .inline then none
      else return Keyed.put key (.table origin (← change byDots edit path origin child)) entries
    | some (.tables elements) => do
      let last ← elements.getLast?
      return Keyed.put key
        (.tables (elements.dropLast ++ [← change byDots edit path .header last])) entries
    | some _ => none

/-- Puts a value under a key that is still free. A table made by dots takes values by dots only, every
other table its own keys only. -/
def put (path : List String) (key : String) (item : Item) (origin : Origin) (entries : Entries) :
    Option Entries :=
  change true
    (fun origin entries =>
      if (origin == .dotted) == path.isEmpty || (entries.lookup key).isSome then none
      else some (entries ++ [(key, item)]))
    path origin entries

/-- Puts a value into the table that the header `path` opened. -/
def putAt (header path : List String) (key : String) (item : Item) (entries : Entries) :
    Option Entries :=
  change false (fun origin child => put path key item origin child) header .header entries

def openTable (path : List String) (key : String) (entries : Entries) : Option Entries :=
  change false
    (fun _ entries =>
      match entries.lookup key with
      | none => some (entries ++ [(key, .table .header [])])
      | some (.table .passed child) => some (Keyed.put key (.table .header child) entries)
      | some _ => none)
    path .header entries

def openElement (path : List String) (key : String) (entries : Entries) : Option Entries :=
  change false
    (fun _ entries =>
      match entries.lookup key with
      | none => some (entries ++ [(key, .tables [[]])])
      | some (.tables elements) => some (Keyed.put key (.tables (elements ++ [[]])) entries)
      | some _ => none)
    path .header entries

end Entries

end HalConstants.Toml
