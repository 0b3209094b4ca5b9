import HalConstants.Code.License
import HalConstants.Manifest
import HalConstants.Toml.Decode
import HalConstants.Toml.Reader

/-!
# Manifests as TOML

A manifest has a table for each target. Unknown keys and values of the wrong type are refused.
-/

namespace HalConstants

def year? (item : Toml.Item) : Option Int := item.integer?.filter License.isYear

def JavaTarget.fields : List (Toml.Field JavaTarget) :=
  [.of "inputs" (fun t v => { t with inputs := v }) Toml.Item.strings?,
    .of "output" (fun t v => { t with output := some v }) Toml.Item.string?,
    .of "package" (fun t v => { t with package := some v }) Toml.Item.string?,
    .of "class" (fun t v => { t with className := some v }) Toml.Item.string?,
    .of "prefix" (fun t v => { t with stem := some v }) Toml.Item.string?,
    .of "year" (fun t v => { t with year := some v }) year?]

def PythonTarget.fields : List (Toml.Field PythonTarget) :=
  [.of "document" (fun t v => { t with document := some v }) Toml.Item.string?,
    .of "output" (fun t v => { t with output := some v }) Toml.Item.string?,
    .of "hal_version" (fun t v => { t with halVersion := some v }) Toml.Item.string?,
    .of "year" (fun t v => { t with year := some v }) year?]

namespace Manifest

def fields : List (Toml.Field Manifest) :=
  [.of "java" (fun m v => { m with java := v }) (Toml.readRecord JavaTarget.fields {}),
    .of "python" (fun m v => { m with python := v }) (Toml.readRecord PythonTarget.fields {})]

/-- The manifest that a text holds, before its names are checked. -/
def decode? (text : String) : Option Manifest :=
  (Toml.read? text.toList).bind (Toml.readTable fields {})

end Manifest

end HalConstants
