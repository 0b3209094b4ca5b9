import HalConstants.Code.Builder
import HalConstants.Code.Document
import HalConstants.Code.License
import HalConstants.HalVersion
import HalConstants.Model
import HalConstants.Target.PythonClass
import HalConstants.Text.Uppercase

/-!
# The Python constants module

A model becomes one module: an assignment for every case of every group, then a class that sorts the
property types into the value types of the emulator. Properties and enumerations take no part in it.
-/

namespace HalConstants.Python

structure Options where
  year : Int
  halVersion : HalVersion := .v2_0
  generatorLabel : String := "vhalgen"

/-- What the constants of a group start with. -/
def constantStem (group : String) : String :=
  String.ofList (Text.toUpper group.toList ++ ['_'])

def valueTypes : List (String × List String) := [
  ("TYPE_STRING", ["STRING"]),
  ("TYPE_BYTES", ["BYTES"]),
  ("TYPE_INT32", ["BOOLEAN", "INT32"]),
  ("TYPE_INT64", ["INT64"]),
  ("TYPE_FLOAT", ["FLOAT"]),
  ("TYPE_INT32S", ["INT32_VEC"]),
  ("TYPE_FLOATS", ["FLOAT_VEC"]),
  ("TYPE_COMPLEX", ["COMPLEX"])]

def hexText (value : Int64) : String := String.ofList (Text.hexLiteral value.toInt)

def assignments (g : Group) : List Assignment :=
  g.cases.map fun c => ⟨constantStem g.name ++ c.name, hexText c.value⟩

def valueTypesClass (v : HalVersion) : Class where
  name := "vhal_types_" ++ v.suffix
  attributes := valueTypes.map fun (name, cases) =>
    (name, cases.map (constantStem "VehiclePropertyType" ++ ·))

def groupFragments (g : Group) : List Fragment :=
  .blank :: .comment g.name :: (assignments g).map (·.fragment)

def fragments (o : Options) (groups : List Group) : List Fragment :=
  { year := o.year : License }.fragments .hash ++
    [.comment "", .comment "DO NOT EDIT MANUALLY",
      .comment s!"This file was autogenerated by {o.generatorLabel}"] ++
    groups.flatMap groupFragments ++
    [.blank, .comment "Create a container of value_type constants to be used by vhal_emulator"] ++
    (valueTypesClass o.halVersion).fragments

def layout : Layout := ⟨4, .hash⟩

def language : Language := ⟨"python", "py"⟩

def document (o : Options) (m : Model) : Document where
  language := language
  fileName := s!"vhal_consts_{o.halVersion.suffix}.py"
  text := layout.render (fragments o m.groups)

end HalConstants.Python
