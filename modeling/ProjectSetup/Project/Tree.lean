import ProjectSetup.Path

/-!
# File trees

The files and directories of a file system, each found by the list of names that leads to it from
the root. Paths are followed name by name from the working directory, which is the root here. Each
operation either fails with the reason that a file system gives or yields the tree that it leaves
behind. Only the making of directories can fail half done.
-/
namespace ProjectSetup

/-- The reasons for which a file system refuses an operation. -/
inductive SystemFault where
  | notFound
  | busy
  | exists
  | notDirectory
  | isDirectory
  | invalidArgument
  | notEmpty
  /-- A file does not hold text. -/
  | notText
  deriving DecidableEq, Repr

def SystemFault.message : SystemFault → String
  | .notFound => "No such file or directory (os error 2)"
  | .busy => "Device or resource busy (os error 16)"
  | .exists => "File exists (os error 17)"
  | .notDirectory => "Not a directory (os error 20)"
  | .isDirectory => "Is a directory (os error 21)"
  | .invalidArgument => "Invalid argument (os error 22)"
  | .notEmpty => "Directory not empty (os error 39)"
  | .notText => "stream did not contain valid UTF-8"

/-- What a file holds: a text, or bytes that are not one. -/
inductive Content where
  | text (t : Text)
  | bytes (b : List UInt8)
  deriving DecidableEq, Repr

inductive Entry where
  | directory
  | file (content : Content)
  deriving DecidableEq, Repr

/-- The names that lead from the root of a tree to one of its entries. -/
abbrev Place := List String

structure Tree where
  entries : List (Place × Entry) := []
  deriving Repr

namespace Tree

/-- The entry at a place. The root is a directory. -/
def lookup? (t : Tree) (p : Place) : Option Entry :=
  if p = [] then some .directory else (t.entries.find? (·.1 == p)).map (·.2)

/-- Whether `p` is at or below `root`. -/
def below (root p : Place) : Bool := root.isPrefixOf p

/-- The tree with an entry in place of what was there. -/
def set (t : Tree) (p : Place) (e : Entry) : Tree :=
  ⟨t.entries.filter (fun q => q.1 != p) ++ [(p, e)]⟩

@[simp] theorem lookup?_root (t : Tree) : t.lookup? [] = some .directory := rfl

@[simp] theorem lookup?_set_self (t : Tree) {p : Place} (e : Entry) (h : p ≠ []) :
    (t.set p e).lookup? p = some e := by
  have hn : (t.entries.filter fun q => q.1 != p).find? (·.1 == p) = none := by
    simp [List.find?_eq_none]
  simp [lookup?, h, set, List.find?_append, hn]

theorem lookup?_set_other (t : Tree) {p q : Place} (e : Entry) (h : q ≠ p) :
    (t.set p e).lookup? q = t.lookup? q := by
  have hf : (t.entries.filter fun x => x.1 != p).find? (·.1 == q) =
      t.entries.find? (·.1 == q) := by
    rw [List.find?_filter]
    congr 1
    funext x
    by_cases hx : x.1 = q <;> simp [hx, h]
  simp [lookup?, set, List.find?_append, hf, Ne.symm h]

/-- Follow names from the directory `here`. The last one need not be there; every other has to be
a directory. -/
def follow (t : Tree) (here : Place) : List String → Except SystemFault Place
  | [] => .ok here
  | [n] => .ok (if n = ".." then here.dropLast else here ++ [n])
  | n :: ns =>
    let next := if n = ".." then here.dropLast else here ++ [n]
    match t.lookup? next with
    | none => .error .notFound
    | some (.file _) => .error .notDirectory
    | some .directory => t.follow next ns

/-- The place that a path names. The tree is all of the file system, and its root the working
directory: a path leads from the root whether or not a slash comes first, and two dots in the root
stay there. -/
def locate (t : Tree) (path : String) : Except SystemFault Place :=
  if path.isEmpty then .error .notFound else t.follow [] (Path.names path)

/-- The entry that a path names. -/
def find (t : Tree) (path : String) : Except SystemFault (Place × Entry) := do
  let p ← t.locate path
  match t.lookup? p with
  | none => throw .notFound
  | some (.file c) =>
    if Path.endsInDirectory path then throw .notDirectory else return (p, .file c)
  | some .directory => return (p, .directory)

def isFile (t : Tree) (path : String) : Bool :=
  match t.find path with
  | .ok (_, .file _) => true
  | _ => false

def isDirectory (t : Tree) (path : String) : Bool :=
  match t.find path with
  | .ok (_, .directory) => true
  | _ => false

/-- The text of a file. -/
def readText (t : Tree) (path : String) : Except SystemFault Text := do
  match ← t.find path with
  | (_, .file (.text s)) => return s
  | (_, .file (.bytes _)) => throw .notText
  | (_, .directory) => throw .isDirectory

/-- Write a text to a file, which is made if it is not there. -/
def writeText (t : Tree) (path : String) (s : Text) : Except SystemFault Tree := do
  let p ← t.locate path
  match t.lookup? p with
  | some .directory => throw .isDirectory
  | _ => if Path.endsInDirectory path then throw .isDirectory else return t.set p (.file (.text s))

/-- Make the directories along names from the directory `here`. Those that were made before a
failure stay; `made` says whether there are any. -/
def makeAlong (t : Tree) (here : Place) (made : Bool) :
    List String → Except SystemFault Unit × Tree
  | [] => (.ok (), t)
  | n :: ns =>
    let next := if n = ".." then here.dropLast else here ++ [n]
    match t.lookup? next with
    | some .directory => t.makeAlong next made ns
    | none => (t.set next .directory).makeAlong next true ns
    -- the whole path is tried first; the names are taken one by one once a directory is missing
    | some (.file _) => (.error (if made || ns.isEmpty then .exists else .notDirectory), t)

/-- Make a directory and those around it where they are not there. -/
def makeDirectories (t : Tree) (path : String) : Except SystemFault Unit × Tree :=
  if path.isEmpty then (.ok (), t) else t.makeAlong [] false (Path.names path)

/-- The place of an entry after everything at or below `source` has come to be at `target`. -/
def moved (source target p : Place) : Place :=
  if below source p then target ++ p.drop source.length else p

/-- Put everything at or below `source` at `target`, in place of what is there. -/
def move (t : Tree) (source target : Place) : Tree :=
  ⟨(t.entries.filter fun q => below source q.1 || !below target q.1).map fun (p, e) =>
    (moved source target p, e)⟩

/-- Whether something lies below a directory. -/
def hasChildren (t : Tree) (p : Place) : Bool := t.entries.any fun q => below p q.1 && q.1 != p

/-- Rename a file or directory. A file may take the place of a file, and a directory that of an
empty directory. -/
def rename (t : Tree) (source target : String) : Except SystemFault Tree := do
  let p ← t.locate source
  let q ← t.locate target
  if Path.endsInDots source || Path.endsInDots target then throw .busy
  match t.lookup? p with
  | none => throw .notFound
  | some (.file _) =>
    if Path.endsInDirectory source || Path.endsInDirectory target then throw .notDirectory
    if p = q then return t
    match t.lookup? q with
    | some .directory => throw (if below q p then .notEmpty else .isDirectory)
    | _ => return t.move p q
  | some .directory =>
    if p = q then return t
    if below p q then throw .invalidArgument
    if below q p then throw .notEmpty
    match t.lookup? q with
    | some (.file _) => throw .notDirectory
    | some .directory => if t.hasChildren q then throw .notEmpty else return t.move p q
    | none => return t.move p q

/-- The places and contents of the files. -/
def files (t : Tree) : List (Place × Content) :=
  t.entries.filterMap fun
    | (p, .file c) => some (p, c)
    | (_, .directory) => none

/-- The tree of a file with the directories around it. -/
def addFile (t : Tree) (p : Place) (c : Content) : Tree :=
  let t := (List.range p.length).foldl
    (fun t n => if n = 0 || (t.lookup? (p.take n)).isSome then t else t.set (p.take n) .directory) t
  t.set p (.file c)

end Tree

end ProjectSetup
