/-!
# Paths

A path is text: names with slashes between them. Empty pieces and the piece `.` mean nothing, except
that a leading `.` is kept. Joining puts a relative path behind a base, with one slash between them
unless the base is empty or already ends in one; an absolute path replaces the base.
-/

namespace HalConstants.Path

def isAbsoluteChars (p : List Char) : Bool := p.head? == some '/'

def isAbsolute (p : String) : Bool := isAbsoluteChars p.toList

def joinChars (base p : List Char) : List Char :=
  if isAbsoluteChars p || base.isEmpty then p
  else if base.getLast? == some '/' then base ++ p
  else base ++ '/' :: p

def join (base p : String) : String := String.ofList (joinChars base.toList p.toList)

/-- Drops the slashes and the pieces `.` that end a path. The path and the result are written backwards,
and the root keeps its slash. -/
def trimBackwards : List Char → List Char
  | [] => []
  | ['/'] => ['/']
  | '/' :: cs => trimBackwards cs
  | '.' :: '/' :: cs => trimBackwards ('/' :: cs)
  | cs => cs

theorem length_trimBackwards_le (cs : List Char) : (trimBackwards cs).length ≤ cs.length := by
  fun_induction trimBackwards cs <;> simp_all <;> omega

/-- The path without its last name; none for the empty path and the root. -/
def parentChars? (p : List Char) : Option (List Char) :=
  match trimBackwards p.reverse with
  | [] => none
  | ['/'] => none
  | _ :: cs => some (trimBackwards (cs.dropWhile (· != '/'))).reverse

def parent? (p : String) : Option String := (parentChars? p.toList).map String.ofList

theorem length_lt_of_parentChars? {p q : List Char} (h : parentChars? p = some q) :
    q.length < p.length := by
  have hp := length_trimBackwards_le p.reverse
  simp only [parentChars?] at h
  split at h
  · contradiction
  · contradiction
  · next c cs _ heq =>
      have hcs := length_trimBackwards_le (cs.dropWhile (· != '/'))
      have hd := (List.dropWhile_sublist (· != '/') (l := cs)).length_le
      rw [heq] at hp
      simp only [Option.some.injEq] at h
      subst h
      simp only [List.length_reverse, List.length_cons] at *
      omega

/-- A path and the paths above it, nearest first, without the empty path and the root. -/
def ancestors (p : List Char) : List (List Char) :=
  match _h : parentChars? p with
  | none => []
  | some q => p :: ancestors q
termination_by p.length
decreasing_by exact length_lt_of_parentChars? _h

/-- The last name of a path, unless the path ends in `..` or holds no name. -/
def fileNameChars? (p : List Char) : Option (List Char) :=
  match (p.splitOn '/').reverse.find? fun piece => piece != [] && piece != ['.'] with
  | some name => if name == ['.', '.'] then none else some name
  | none => none

def fileName? (p : String) : Option String := (fileNameChars? p.toList).map String.ofList

/-- What follows the last point of the file name, unless the name only starts with that point. -/
def extensionChars? (p : List Char) : Option (List Char) := do
  let backwards := (← fileNameChars? p).reverse
  match backwards.dropWhile (· != '.') with
  | _ :: _ :: _ => some (backwards.takeWhile (· != '.')).reverse
  | _ => none

def extension? (p : String) : Option String := (extensionChars? p.toList).map String.ofList

example : join "a/b/" "c" = "a/b/c" := by decide
example : join "a" "/c" = "/c" := by decide
example : parent? "./a//b/." = some "./a" := by decide
example : fileName? "a/b/./" = some "b" := by decide
example : extension? "dir.x/.hal" = none := by decide

end HalConstants.Path
