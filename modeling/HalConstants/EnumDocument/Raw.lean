import HalConstants.Model.Json

/-!
# Enum documents as written

A document lists groups of cases. A case value is an integer, or a text that is still to be read as a
number. A document may leave out its groups and a group its cases.
-/

namespace HalConstants.EnumDocument

open Json

inductive RawValue where
  | integer (i : Int64)
  | text (s : String)
deriving DecidableEq

structure RawCase where
  name : String
  value : RawValue
deriving DecidableEq

structure RawGroup where
  name : String
  cases : List RawCase
deriving DecidableEq

/-- A value of any other shape is first read to its end. -/
def RawValue.decoder : Decoder RawValue
  | _, .number (.ok (.integer i)) => (Text.int64? i).elim (.error .mismatched) (.ok ∘ .integer)
  | _, .string (.ok s) => .ok (.text s)
  | depth, v => .error ((v.keepFault depth).getD .mismatched)

def RawCase.decoder : Decoder RawCase :=
  pairDecoder "name" "value" .string RawValue.decoder RawCase.mk

def RawGroup.decoder : Decoder RawGroup :=
  .record
    [.of "name" (fun d : Option String × Option (List RawCase) => d.1)
        (fun d name => (some name, d.2)) .string,
      .of "cases" (fun d => d.2) (fun d cases => (d.1, some cases)) (.list RawCase.decoder)]
    (none, none) (fun d => d.1.map fun name => ⟨name, d.2.getD []⟩)

def decoder : Decoder (List RawGroup) :=
  .record [.of "enums" id (fun _ groups => some groups) (.list RawGroup.decoder)] none
    (fun d => some (d.getD []))

end HalConstants.EnumDocument
