import HalConstants.Code.Builder
import HalConstants.Code.Document
import HalConstants.Code.License
import HalConstants.Model
import HalConstants.Target.JavaClass
import HalConstants.Target.JavaName

/-!
# The Java constants class

A model becomes one class: a constant for every property, four methods that look a property up, and a
nested class for every enumeration. Groups and units take no part in it.
-/

namespace HalConstants.Java

structure Options where
  year : Int
  package : String := "com.android.car.vehiclenetwork"
  className : String := "VehicleNetworkConsts"
  sourceLabel : String := "vehicle.h"
  valueTypeClass : String := "VehicleValueType"
  changeModeClass : String := "VehiclePropChangeMode"
  accessClass : String := "VehiclePropAccess"
  unknownValueType : String := "VEHICLE_VALUE_TYPE_SHOUD_NOT_USE"

def quoted (text : String) : String := "\"" ++ text ++ "\""

def valueTypeMethod (o : Options) (ps : List Property) : Switch where
  returnType := "int"
  name := "getVehicleValueType"
  param := "property"
  cases := ps.filterMap fun p => p.valueType.map fun t => (p.name, s!"{o.valueTypeClass}.{t}")
  fallback := s!"{o.valueTypeClass}.{o.unknownValueType}"

def propertyNameMethod (ps : List Property) : Switch where
  returnType := "String"
  name := "getVehiclePropertyName"
  param := "property"
  cases := (ps.filter (!·.isRangeMarker)).map fun p => (p.name, quoted p.name)
  fallback := quoted "UNKNOWN_PROPERTY"

def modeArray (o : Options) (modes : List String) : String :=
  "new int[] \x7b " ++ " , ".intercalate (modes.map (o.changeModeClass ++ "." ++ ·)) ++ " \x7d"

def changeModeMethod (o : Options) (ps : List Property) : Switch where
  returnType := "int[]"
  name := "getVehicleChangeMode"
  param := "property"
  cases := ps.filterMap fun p => p.changeMode.map fun _ => (p.name, modeArray o p.changeModes)
  fallback := "null"

def accessMethod (o : Options) (ps : List Property) : Switch where
  returnType := "int"
  name := "getVehicleAccess"
  param := "property"
  cases := ps.filterMap fun p => p.access.map fun a => (p.name, s!"{o.accessClass}.{a}")
  fallback := "0"

def enumToStringMethod (e : Enumeration) : Switch where
  returnType := "String"
  name := "enumToString"
  param := "v"
  cases := e.withoutAliases.map fun entry => (entry.name, quoted entry.name)
  fallback := quoted "UNKNOWN"

def enumerationClass (e : Enumeration) : Class :=
  ({ name := typeName e.name, nested := true } : Class)
    |>.member (e.entries.map fun entry => (Constant.mk entry.name entry.value).fragment)
    |>.member (enumToStringMethod e).fragments

def constantsClass (o : Options) (m : Model) : Class :=
  let own := ({ name := o.className } : Class)
    |>.member (m.properties.map fun p => (Constant.mk p.name p.value).fragment)
    |>.member (valueTypeMethod o m.properties).fragments
    |>.member (propertyNameMethod m.properties).fragments
    |>.member (changeModeMethod o m.properties).fragments
    |>.member (accessMethod o m.properties).fragments
  m.enumerations.foldl (fun c e => c.member (enumerationClass e).fragments) own

def fragments (o : Options) (m : Model) : List Fragment :=
  { year := o.year : License }.fragments .slash ++
    [.blank, .comment s!"Autogenerated from {o.sourceLabel}. Do not modify manually.", .blank,
      .line s!"package {o.package};", .blank] ++
    (constantsClass o m).fragments

def layout : Layout := ⟨4, .slash⟩

def language : Language := ⟨"java", "java"⟩

def document (o : Options) (m : Model) : Document where
  language := language
  fileName := o.className ++ ".java"
  text := layout.render (fragments o m)

end HalConstants.Java
