import ProjectSetup.Text.Basic

/-!
# Paths

Paths are slash-separated names. Empty names and names of a single dot say nothing and are left
out. The name of a file ends in an extension if a dot stands in it after its first character.
-/
namespace ProjectSetup.Path

/-- The names of a path that say something. -/
def names (path : String) : List String :=
  ((Text.splitOn '/' path.toList).filter fun n => !n.isEmpty && n ≠ ['.']).map String.ofList

/-- Whether a path starts at the root of all paths. -/
def isAbsolute (path : String) : Bool := path.toList.head? == some '/'

/-- Whether a path can only lead to a directory: its last name is missing or a dot. -/
def endsInDirectory (path : String) : Bool :=
  match path.toList.reverse with
  | '/' :: _ | ['.'] | '.' :: '/' :: _ => true
  | _ => false

/-- Whether a path ends by staying in a directory or going up, and so names no entry of one. -/
def endsInDots (path : String) : Bool :=
  match ((Text.splitOn '/' path.toList).filter fun n => !n.isEmpty).getLast? with
  | none | some ['.'] | some ['.', '.'] => true
  | _ => false

/-- The name of the file or directory that a path leads to, unless the path ends by going up. -/
def fileName? (path : String) : Option String :=
  (names path).getLast?.filter (· ≠ "..")

/-- What follows the last dot of a file name that does not begin with its only dot. -/
def extension? (path : String) : Option String := do
  let name ← fileName? path
  let back := name.toList.reverse
  match back.dropWhile (· ≠ '.') with
  | [] | ['.'] => none
  | _ :: _ => some (String.ofList (back.takeWhile (· ≠ '.')).reverse)

/-- The path `path` as seen from the directory `dir`. -/
def join (dir path : String) : String :=
  if isAbsolute path || dir.isEmpty then path
  else if dir.toList.getLast? == some '/' then dir ++ path
  else dir ++ "/" ++ path

/-- A path, last character first, without slashes and single dots at its end. -/
def dropSilent : Text → Text
  | '/' :: r => if r.isEmpty then ['/'] else dropSilent r
  | '.' :: '/' :: r => if r.isEmpty then ['/'] else dropSilent r
  | t => t

/-- The path without its last name. -/
def parent? (path : String) : Option String :=
  match dropSilent path.toList.reverse with
  | [] | ['/'] => none
  | back => some (String.ofList (dropSilent (back.dropWhile (· ≠ '/'))).reverse)

end ProjectSetup.Path
