import HalConstants.Json.Decode
import HalConstants.Json.Value
import HalConstants.Model

/-!
# Models as JSON

A fact that a property does not state is left out when the property is written, and may be left out or
be null when it is read. Everything else that is written has to be there again.
-/

namespace HalConstants

open Json

namespace Property

structure Draft where
  name : Option String := none
  value : Option String := none
  valueType : Option (Option String) := none
  changeMode : Option (Option String) := none
  access : Option (Option String) := none
  unit : Option (Option String) := none
  isRangeMarker : Option Bool := none

def Draft.build (d : Draft) : Option Property := do
  some {
    name := ← d.name
    value := ← d.value
    valueType := d.valueType.join
    changeMode := d.changeMode.join
    access := d.access.join
    unit := d.unit.join
    isRangeMarker := d.isRangeMarker.getD false }

def Draft.fields : List (Decoder.Field Draft) :=
  let text := Decoder.string
  [.of "name" Draft.name (fun d v => { d with name := some v }) text,
    .of "value" Draft.value (fun d v => { d with value := some v }) text,
    .of "value_type" Draft.valueType (fun d v => { d with valueType := some v }) (.option text),
    .of "change_mode" Draft.changeMode (fun d v => { d with changeMode := some v }) (.option text),
    .of "access" Draft.access (fun d v => { d with access := some v }) (.option text),
    .of "unit" Draft.unit (fun d v => { d with unit := some v }) (.option text),
    .of "is_range_marker" Draft.isRangeMarker (fun d v => { d with isRangeMarker := some v })
      .bool]

def decoder : Decoder Property := .record Draft.fields {} Draft.build

def optionalMember (key : String) (value : Option String) : List (String × Value) :=
  value.toList.map fun v => (key, .string v)

def toJson (p : Property) : Value :=
  .object ([("name", .string p.name), ("value", .string p.value)] ++
    optionalMember "value_type" p.valueType ++ optionalMember "change_mode" p.changeMode ++
    optionalMember "access" p.access ++ optionalMember "unit" p.unit ++
    [("is_range_marker", .bool p.isRangeMarker)])

end Property

/-- A record of two fields, both of which have to be there. -/
def pairDecoder {α β γ : Type} (first second : String) (da : Decoder α) (db : Decoder β)
    (make : α → β → γ) : Decoder γ :=
  .record
    [.of first (fun d : Option α × Option β => d.1) (fun d a => (some a, d.2)) da,
      .of second (fun d => d.2) (fun d b => (d.1, some b)) db]
    (none, none) (fun d => do some (make (← d.1) (← d.2)))

namespace Entry

def decoder : Decoder Entry := pairDecoder "name" "value" .string .string Entry.mk

def toJson (e : Entry) : Value := .object [("name", .string e.name), ("value", .string e.value)]

end Entry

namespace Enumeration

def decoder : Decoder Enumeration :=
  pairDecoder "name" "entries" .string (.list Entry.decoder) Enumeration.mk

def toJson (e : Enumeration) : Value :=
  .object [("name", .string e.name), ("entries", .array (e.entries.map (·.toJson)))]

end Enumeration

namespace Case

def decoder : Decoder Case := pairDecoder "name" "value" .string .int64 Case.mk

def toJson (c : Case) : Value :=
  .object [("name", .string c.name), ("value", .integer c.value.toInt)]

end Case

namespace Group

def decoder : Decoder Group := pairDecoder "name" "cases" .string (.list Case.decoder) Group.mk

def toJson (g : Group) : Value :=
  .object [("name", .string g.name), ("cases", .array (g.cases.map (·.toJson)))]

end Group

namespace Model

structure Draft where
  properties : Option (List Property) := none
  enumerations : Option (List Enumeration) := none
  groups : Option (List Group) := none

def Draft.build (d : Draft) : Option Model := do
  some {
    properties := ← d.properties
    enumerations := ← d.enumerations
    groups := ← d.groups }

def Draft.fields : List (Decoder.Field Draft) :=
  [.of "properties" Draft.properties (fun d v => { d with properties := some v })
      (.list Property.decoder),
    .of "enums" Draft.enumerations (fun d v => { d with enumerations := some v })
      (.list Enumeration.decoder),
    .of "groups" Draft.groups (fun d v => { d with groups := some v }) (.list Group.decoder)]

def decoder : Decoder Model := .record Draft.fields {} Draft.build

def toJson (m : Model) : Value :=
  .object [("properties", .array (m.properties.map (·.toJson))),
    ("enums", .array (m.enumerations.map (·.toJson))),
    ("groups", .array (m.groups.map (·.toJson)))]

end Model

def Summary.toJson (s : Summary) : Value :=
  .object [("properties", .integer s.properties), ("range_markers", .integer s.rangeMarkers),
    ("enums", .integer s.enumerations), ("enum_entries", .integer s.entries),
    ("groups", .integer s.groups), ("group_cases", .integer s.cases)]

end HalConstants
