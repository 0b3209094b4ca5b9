import HalConstants.Toml.Item

/-!
# Decoding TOML

A record is a table whose keys are all known, each of which may be left out, or an array that gives every
field in order; what an array holds beyond that is not looked at.
-/

namespace HalConstants.Toml

def Item.string? : Item → Option String
  | .string s => some s
  | _ => none

def Item.integer? : Item → Option Int
  | .integer i => some i
  | _ => none

def Item.strings? : Item → Option (List String)
  | .array items => items.mapM Item.string?
  | _ => none

/-- A field of a record, whose values are collected in a draft. -/
structure Field (σ : Type) where
  name : String
  read : σ → Item → Option σ

variable {α σ : Type}

def Field.of (name : String) (set : σ → α → σ) (read : Item → Option α) : Field σ where
  name := name
  read draft item := (read item).map (set draft)

def readTable (fields : List (Field σ)) (draft : σ) (entries : Entries) : Option σ :=
  entries.foldlM
    (fun draft (key, item) => (fields.find? (·.name == key)).bind (·.read draft item)) draft

def readArray : List (Field σ) → σ → List Item → Option σ
  | [], draft, _ => some draft
  | _ :: _, _, [] => none
  | f :: fields, draft, item :: items => (f.read draft item).bind (readArray fields · items)

def readRecord (fields : List (Field σ)) (empty : σ) : Item → Option σ
  | .table _ entries => readTable fields empty entries
  | .array items => readArray fields empty items
  | .tables elements => readArray fields empty (elements.map (.table .header))
  | _ => none

end HalConstants.Toml
