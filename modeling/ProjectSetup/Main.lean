import ProjectSetup.CommandLine.Session

/-!
# The program

Reads the files below the working directory, runs the command on them, and writes back what has
changed. Installed packages and hidden directories are read only if the command line names them.
-/
open ProjectSetup

/-- What a file holds. -/
def contentOfBytes (bytes : ByteArray) : Content :=
  match String.fromUTF8? bytes with
  | some s => .text s.toList
  | none => .bytes bytes.toList

def bytesOfContent : Content → ByteArray
  | .text t => (String.ofList t).toUTF8
  | .bytes b => ⟨b.toArray⟩

/-- The path of a place as seen from a directory. -/
def pathUnder {α : Type} [HDiv α String α] (dir : α) (place : Place) : α :=
  place.foldl (fun path name => path / name) dir

/-- Whether a directory of this name is read without being asked for. -/
def isReadUnasked (name : String) : Bool := name != "node_modules" && !name.startsWith "."

/-- The entries below the directory that `names` lead to. -/
partial def entriesBelow (asked : List String) (names : Place) : IO (List (Place × Entry)) := do
  let here ← IO.currentDir
  let mut entries := []
  for child in ← (pathUnder here names).readDir do
    let place := names ++ [child.fileName]
    if ← child.path.isDir then
      entries := entries ++ [(place, .directory)]
      if isReadUnasked child.fileName || asked.contains child.fileName then
        entries := entries ++ (← entriesBelow asked place)
    else
      let bytes ← IO.FS.readBinFile child.path
      entries := entries ++ [(place, .file (contentOfBytes bytes))]
  return entries

/-- Bring the files below the working directory from one state to another. -/
def writeBack (old new : Tree) : IO Unit := do
  let here ← IO.currentDir
  for (place, entry) in new.entries do
    let path := pathUnder here place
    if old.lookup? place != some entry then
      match entry with
      | .directory => IO.FS.createDirAll path
      | .file content => IO.FS.writeBinFile path (bytesOfContent content)
  for (place, _) in old.files do
    if (new.lookup? place).isNone then IO.FS.removeFile (pathUnder here place)

def usage : String :=
  "Usage: create-frontend [--style FILE] COMMAND\n\n" ++
  "Commands: catalog, check, apply, format, add-import, remove-import, add-to-array"

def main (words : List String) : IO UInt32 := do
  match Request.ofWords words with
  | .refused =>
    IO.eprintln usage
    return 2
  | .help =>
    IO.println usage
    return 0
  | .version =>
    IO.println "create-frontend 0.1.0"
    return 0
  | .run arguments =>
    let asked := words.flatMap fun word => (word.splitOn "=").flatMap (·.splitOn "/")
    let tree : Tree := ⟨← entriesBelow asked []⟩
    let environment ← IO.getEnv "CREATE_FRONTEND_STYLE"
    let (result, console) := Session.run arguments environment [] ⟨tree, [], []⟩
    writeBack tree console.tree
    for line in console.lines do IO.println line
    for message in console.messages do IO.eprintln message
    match result with
    | .ok () => return 0
    | .error failure =>
      IO.eprintln s!"Error: {Session.failureText failure}"
      return 1
