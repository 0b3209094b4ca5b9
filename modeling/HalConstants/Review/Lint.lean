import HalConstants.Model
import HalConstants.Review.Warning

/-!
# Lints

A lint looks through a model for one kind of mistake. A name that stands more than once is reported at
each place but the first.
-/

namespace HalConstants

structure Lint where
  name : String
  description : String
  check : Model → List Warning

namespace Lint

def warning (message location : String) : Warning := ⟨"validate", message, some location⟩

def repeatedProperty (m : Model) (p : Property) : Option Warning :=
  (m.property? p.name).map fun first =>
    warning
      (s!"property '{p.name}' is defined more than once " ++
        s!"(first value {first.value}, now {p.value})")
      s!"properties.{p.name}"

def duplicateProperty : Lint where
  name := "duplicate-property"
  description := "Detect property names defined more than once"
  check m := (repeats Property.name m.properties).filterMap (repeatedProperty m)

def emptyEnumeration (e : Enumeration) : Warning :=
  warning s!"enum '{e.name}' has no entries" s!"enums.{e.name}"

def emptyGroup (g : Group) : Warning :=
  warning s!"enum group '{g.name}' has no cases" s!"groups.{g.name}"

def emptyEnum : Lint where
  name := "empty-enum"
  description := "Detect enums with no entries"
  check m :=
    (m.enumerations.filter (·.isEmpty)).map emptyEnumeration ++
      (m.groups.filter (·.cases.isEmpty)).map emptyGroup

def repeatedEntry (kind owner entry : String) : Warning :=
  warning s!"{kind} '{owner}' repeats entry '{entry}'" s!"{owner}.{entry}"

def duplicateEnumEntry : Lint where
  name := "duplicate-enum-entry"
  description := "Detect entry names repeated within one enum"
  check m :=
    (m.enumerations.flatMap fun e =>
        (repeats Entry.name e.entries).map fun entry => repeatedEntry "enum" e.name entry.name) ++
      m.groups.flatMap fun g =>
        (repeats Case.name g.cases).map fun c => repeatedEntry "enum group" g.name c.name

def all : List Lint := [duplicateProperty, emptyEnum, duplicateEnumEntry]

def ofName? (name : String) : Option Lint := all.find? (·.name == name)

end Lint

end HalConstants
