import HalConstants.Model.Enumeration
import HalConstants.Model.Property

/-!
# The model

What one run knows about its inputs, each list in the order of discovery: a header fills the
properties and enumerations, an enum document the groups. The summary counts a model.
-/

namespace HalConstants

structure Model where
  properties : List Property := []
  enumerations : List Enumeration := []
  groups : List Group := []
deriving DecidableEq

structure Summary where
  properties : Nat
  rangeMarkers : Nat
  enumerations : Nat
  entries : Nat
  groups : Nat
  cases : Nat
deriving DecidableEq, Repr

namespace Model

def isEmpty (m : Model) : Bool :=
  m.properties.isEmpty && m.enumerations.isEmpty && m.groups.isEmpty

def property? (m : Model) (name : String) : Option Property :=
  m.properties.find? (·.name == name)

def enumeration? (m : Model) (name : String) : Option Enumeration :=
  m.enumerations.find? (·.name == name)

def rangeMarkerCount (m : Model) : Nat := m.properties.countP (·.isRangeMarker)

def summary (m : Model) : Summary where
  properties := m.properties.length
  rangeMarkers := m.rangeMarkerCount
  enumerations := m.enumerations.length
  entries := (m.enumerations.flatMap (·.entries)).length
  groups := m.groups.length
  cases := (m.groups.flatMap (·.cases)).length

end Model

end HalConstants
