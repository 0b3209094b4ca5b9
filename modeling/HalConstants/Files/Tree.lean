import HalConstants.Files.Path
import HalConstants.Files.Storage
import HalConstants.Keyed

/-!
# File trees

A file tree as a value: the nodes below the root by location, and the working directory. A path leads
to a location piece by piece, and each piece is looked up in an existing directory. Nothing is ever
removed, and a write changes the node at one location only.
-/

namespace HalConstants

inductive Content where
  | text (s : String)
  | binary (bytes : List UInt8)
deriving DecidableEq

inductive Node where
  | directory
  | file (content : Content)
deriving DecidableEq

/-- The names from the root down. -/
abbrev Location := List String

structure Tree where
  nodes : List (Location × Node) := []
  workingDirectory : Location := []
deriving DecidableEq

namespace Tree

def node? (t : Tree) (loc : Location) : Option Node :=
  if loc.isEmpty then some .directory else t.nodes.lookup loc

def put (t : Tree) (loc : Location) (n : Node) : Tree :=
  { t with nodes := Keyed.put loc n t.nodes }

theorem node?_put {t : Tree} {loc l : Location} {n : Node} (h : loc ≠ []) :
    (t.put loc n).node? l = if l = loc then some n else t.node? l := by
  by_cases hl : l = []
  · subst hl
    simp [node?, Ne.symm h]
  · simp [node?, put, hl, Keyed.lookup_put]

/-- A name of more bytes is refused. -/
def maxNameBytes : Nat := 255

/-- A path of as many bytes is refused. -/
def maxPathBytes : Nat := 4096

/-- Follows the pieces of a path. The location reached need not exist, but all on the way to it must be
directories. -/
def walk (t : Tree) (loc : Location) : List String → Except IoKind Location
  | [] => .ok loc
  | name :: rest =>
    match t.node? loc with
    | none => .error .notFound
    | some (.file _) => .error .notADirectory
    | some .directory =>
      if name = "." then t.walk loc rest
      else if name = ".." then t.walk loc.dropLast rest
      else if maxNameBytes < name.utf8ByteSize then .error .invalidFilename
      else t.walk (loc ++ [name]) rest

/-- The location a path starts from, and its pieces. -/
def start (t : Tree) (path : String) : Except IoKind (Location × List String) :=
  let cs := path.toList
  if cs.contains '\x00' then .error .invalidInput
  else if cs.isEmpty then .error .notFound
  else if maxPathBytes ≤ path.utf8ByteSize then .error .invalidFilename
  else
    let pieces := ((cs.splitOn '/').filter (!·.isEmpty)).map String.ofList
    .ok (if Path.isAbsoluteChars cs then [] else t.workingDirectory, pieces)

/-- The location a path leads to. -/
def resolve (t : Tree) (path : String) : Except IoKind Location := do
  let (loc, pieces) ← t.start path
  t.walk loc pieces

/-- Whether a path ends in a slash, and so can name a directory only. -/
def namesDirectory (path : String) : Bool := path.toList.getLast? == some '/'

def readText (t : Tree) (path : String) : Except IoKind String := do
  match t.node? (← t.resolve path) with
  | none => .error .notFound
  | some .directory => .error .isADirectory
  | some (.file content) =>
    if namesDirectory path then .error .notADirectory
    else
      match content with
      | .text s => .ok s
      | .binary _ => .error .invalidData

/-- A path that ends in a slash is refused once the directory of its last piece is reached, whatever
that piece is. -/
def writeText (t : Tree) (path text : String) : Except IoKind Tree := do
  if namesDirectory path then
    let (loc, pieces) ← t.start path
    let _ ← t.walk loc (pieces.dropLast ++ ["."])
    .error .isADirectory
  else
    let loc ← t.resolve path
    if t.node? loc = some .directory then .error .isADirectory
    else .ok (t.put loc (.file (.text text)))

def isFile (t : Tree) (path : String) : Bool :=
  match t.resolve path with
  | .ok loc => (t.node? loc).any (· != .directory) && !namesDirectory path
  | .error _ => false

def isDirectory (t : Tree) (path : String) : Bool :=
  match t.resolve path with
  | .ok loc => t.node? loc == some .directory
  | .error _ => false

def createDirectory (t : Tree) (path : String) : Except IoKind Tree := do
  let loc ← t.resolve path
  match t.node? loc with
  | some _ => .error .alreadyExists
  | none => .ok (t.put loc .directory)

/-- Creates a directory where none stands already. -/
def ensureDirectory (t : Tree) (path : String) : Except IoKind Tree :=
  match t.createDirectory path with
  | .error .alreadyExists => if t.isDirectory path then .ok t else .error .alreadyExists
  | result => result

/-- Creates the first of the paths; where that fails for want of a parent, the paths after it first. What
was created stays, also when a later step fails. -/
def ensureChain (t : Tree) : List String → Except IoKind Unit × Tree
  | [] => (.ok (), t)
  | path :: above =>
    match t.ensureDirectory path with
    | .ok t' => (.ok (), t')
    | .error .notFound =>
      match t.ensureChain above with
      | (.ok (), t') =>
        match t'.ensureDirectory path with
        | .ok t'' => (.ok (), t'')
        | .error kind => (.error kind, t')
      | failed => failed
    | .error kind => (.error kind, t)

def createDirectories (t : Tree) (path : String) : Except IoKind Unit × Tree :=
  t.ensureChain ((Path.ancestors path.toList).map String.ofList)

end Tree

instance : Storage (StateM Tree) where
  readText path := do return (← get).readText path
  writeText path text := do
    match (← get).writeText path text with
    | .ok t => set t; return .ok ()
    | .error kind => return .error kind
  createDirectories path := modifyGet (·.createDirectories path)
  isFile path := do return (← get).isFile path

end HalConstants
