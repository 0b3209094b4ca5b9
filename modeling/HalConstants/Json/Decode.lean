import HalConstants.Json.Scan

/-!
# Decoding scans

A decoder keeps the values of one shape and reports the first fault in the order of the text. A record is
an object or an array of its fields in their order. In an object, a known field may stand only once, an
unknown one is skipped; in either form, fields that are left out are missing in the draft of the record,
and `build` decides whether it can do without. Arrays and objects that are kept nest at most `maxDepth`
deep.
-/

namespace HalConstants.Json

def maxDepth : Nat := 127

/-- Reads a value, given how many more arrays and objects may be entered. -/
abbrev Decoder (α : Type) := Nat → Scan → Except Fault α

namespace Scan

mutual

/-- The fault met by whoever skips a value. -/
def skipFault : Scan → Option Fault
  | .stop s => some s.skipped
  | .array items missing => (skipFaultOfItems items).or (missing.map (·.skipped))
  | .object members missing => (skipFaultOfMembers members).or (missing.map (·.skipped))
  | _ => none

def skipFaultOfItems : List Scan → Option Fault
  | [] => none
  | item :: items => (skipFault item).or (skipFaultOfItems items)

def skipFaultOfMember : Except Fault String × Scan → Option Fault
  | (_, v) => skipFault v

def skipFaultOfMembers : List (Except Fault String × Scan) → Option Fault
  | [] => none
  | m :: members => (skipFaultOfMember m).or (skipFaultOfMembers members)

end

def faultOf {α : Type} : Except Fault α → Option Fault
  | .ok _ => none
  | .error fault => some fault

mutual

/-- The fault met by whoever keeps a value, whatever its shape. -/
def keepFault (depth : Nat) : Scan → Option Fault
  | .stop s => some s.kept
  | .null => none
  | .bool _ => none
  | .number n => faultOf n
  | .string s => faultOf s
  | .array items missing =>
    if depth = 0 then some .malformed
    else (keepFaultOfItems (depth - 1) items).or (missing.map (·.kept))
  | .object members missing =>
    if depth = 0 then some .malformed
    else (keepFaultOfMembers (depth - 1) members).or (missing.map (·.kept))

def keepFaultOfItems (depth : Nat) : List Scan → Option Fault
  | [] => none
  | item :: items => (keepFault depth item).or (keepFaultOfItems depth items)

def keepFaultOfMember (depth : Nat) : Except Fault String × Scan → Option Fault
  | (key, v) => (faultOf key).or (keepFault depth v)

def keepFaultOfMembers (depth : Nat) : List (Except Fault String × Scan) → Option Fault
  | [] => none
  | m :: members => (keepFaultOfMember depth m).or (keepFaultOfMembers depth members)

end

/-- The fault of a value that should have another shape. Arrays and objects are not looked into. -/
def misfit : Scan → Fault
  | .stop s => s.kept
  | .number (.error fault) => fault
  | .string (.error fault) => fault
  | _ => .mismatched

end Scan

namespace Decoder

variable {α σ : Type}

def string : Decoder String
  | _, .string (.ok s) => .ok s
  | _, v => .error v.misfit

def bool : Decoder Bool
  | _, .bool b => .ok b
  | _, v => .error v.misfit

def int64 : Decoder Int64
  | _, .number (.ok (.integer i)) => (Text.int64? i).elim (.error .mismatched) .ok
  | _, v => .error v.misfit

def option (d : Decoder α) : Decoder (Option α)
  | _, .null => .ok none
  | depth, v => (d depth v).map some

def stopHere : Option Stop → Except Fault Unit
  | some s => .error s.kept
  | none => .ok ()

def list (d : Decoder α) : Decoder (List α)
  | 0, .array _ _ => .error .malformed
  | depth + 1, .array items missing => do
    let read ← items.mapM (d depth)
    stopHere missing
    return read
  | _, v => .error v.misfit

/-- A field of a record, whose values are collected in a draft. -/
structure Field (σ : Type) where
  name : String
  isSet : σ → Bool
  read : σ → Decoder σ

def Field.of (name : String) (get : σ → Option α) (set : σ → α → σ) (d : Decoder α) : Field σ where
  name := name
  isSet draft := (get draft).isSome
  read draft depth v := (d depth v).map (set draft)

def readMembers (fields : List (Field σ)) (depth : Nat) (draft : σ) :
    List (Except Fault String × Scan) → Except Fault σ
  | [] => .ok draft
  | (key, v) :: rest => do
    let name ← key
    match fields.find? (·.name == name) with
    | some f =>
      if f.isSet draft then .error .mismatched
      else readMembers fields depth (← f.read draft depth v) rest
    | none =>
      match v.skipFault with
      | some fault => .error fault
      | none => readMembers fields depth draft rest

def readItems (depth : Nat) (draft : σ) : List (Field σ) → List Scan → Except Fault σ
  | _, [] => .ok draft
  | [], _ :: _ => .error .malformed
  | f :: fields, v :: rest => do readItems depth (← f.read draft depth v) fields rest

def record (fields : List (Field σ)) (empty : σ) (build : σ → Option α) : Decoder α
  | 0, .array _ _ => .error .malformed
  | 0, .object _ _ => .error .malformed
  | depth + 1, .array items missing => do
    let draft ← readItems depth empty fields items
    stopHere missing
    (build draft).elim (.error .mismatched) .ok
  | depth + 1, .object members missing => do
    let draft ← readMembers fields depth empty members
    stopHere missing
    (build draft).elim (.error .mismatched) .ok
  | _, v => .error v.misfit

/-- Decodes a whole text, behind which only blanks may stand. -/
def decode (d : Decoder α) (text : List Char) : Except Fault α := do
  let (scan, trailing) := Scan.ofText text
  let a ← d maxDepth scan
  if trailing then .error .malformed else return a

end Decoder

end HalConstants.Json
