import HalConstants.EnumDocument.Raw
import HalConstants.Files.Path
import HalConstants.Input.Error

/-!
# Resolving enum documents

The groups of a document in order, every case value as a 64-bit integer. The first group that cannot be
resolved decides the error; within a group, an unreadable case counts before a repeated name.
-/

namespace HalConstants.EnumDocument

def RawValue.resolve? : RawValue → Option Int64
  | .integer i => some i
  | .text s => Text.readInt64? s.toList

def RawValue.writtenText : RawValue → String
  | .integer i => toString i.toInt
  | .text s => s

def resolveCase (group : String) (c : RawCase) : Except InputError Case :=
  match c.value.resolve? with
  | some v => .ok ⟨c.name, v⟩
  | none => .error (.invalidCaseValue group c.name c.value.writtenText)

/-- Resolves groups behind others whose names are `seen`. -/
def resolveAfter (path : String) (seen : List String) : List RawGroup →
    Except InputError (List Group)
  | [] => .ok []
  | g :: gs => do
    let cases ← g.cases.mapM (resolveCase g.name)
    if seen.contains g.name then .error (.duplicateGroup path g.name)
    else return ⟨g.name, cases⟩ :: (← resolveAfter path (g.name :: seen) gs)

def resolve (path : String) (groups : List RawGroup) : Except InputError (List Group) :=
  resolveAfter path [] groups

/-- The groups of a document; the path only names it in errors. -/
def parse (path content : String) : Except InputError (List Group) := do
  let groups ← (decoder.decode content.toList).mapError (.document path)
  resolve path groups

end HalConstants.EnumDocument
