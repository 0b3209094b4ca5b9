import HalConstants.Text.Bytes

/-!
# Sources

The inputs of one run, scanned as one text. The files follow each other with nothing in between, so a
byte of the whole text belongs to exactly one file, and `locate?` tells which.
-/

namespace HalConstants

structure SourceFile where
  path : String
  text : String
deriving DecidableEq, Repr

def SourceFile.size (f : SourceFile) : Nat := f.text.utf8ByteSize

/-- The files in the order in which they are read. -/
structure Sources where
  files : List SourceFile := []
deriving DecidableEq, Repr

namespace Sources

def push (s : Sources) (f : SourceFile) : Sources := ⟨s.files ++ [f]⟩

def text (s : Sources) : String := String.join (s.files.map (·.text))

def locateIn (offset : Nat) : List SourceFile → Option (SourceFile × Nat)
  | [] => none
  | f :: fs => if offset < f.size then some (f, offset) else locateIn (offset - f.size) fs

/-- The file in which a byte of the whole text lies, and its offset there. -/
def locate? (s : Sources) (offset : Nat) : Option (SourceFile × Nat) := locateIn offset s.files

example : (Sources.mk [⟨"a", "é"⟩, ⟨"b", ""⟩, ⟨"c", "x"⟩]).locate? 2 = some (⟨"c", "x"⟩, 0) := by
  decide

end Sources

end HalConstants
