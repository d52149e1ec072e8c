import ProjectSetup.Layout.Normal
import ProjectSetup.Project.Failure

/-!
# Formatting of projects

A file is brought into normal form in place. In a directory that is done to every script below it,
except in directories that are hidden or hold what was installed or built.
-/
namespace ProjectSetup

namespace Action

/-- The normal form of the text of a file. -/
def normalized (path : String) (o : StyleOverrides) (s : Text) : Action Text :=
  within s!"Failed to format {path}" (pureOf .layout (normalize path o s))

/-- Bring a file into normal form. The result says whether it was not. -/
def formatFile (o : StyleOverrides) (path : String) : Action Bool := do
  let s ← readText path
  let n ← normalized path o s
  if n = s then return false
  writeText path n
  return true

end Action

namespace Tree

/-- Whether formatting leaves out what is in a directory of this name. -/
def isSkipped (name : String) : Bool :=
  name.toList.head? == some '.' || ["node_modules", "dist", "build"].contains name

/-- The names that lead from `root` to a file below it that formatting covers. -/
def covered? (root p : Place) : Option (List String) :=
  if below root p then
    let names := p.drop root.length
    if names.dropLast.any isSkipped then none else some names
  else none

/-- The paths, as seen from `dir`, of the scripts that formatting covers, in ascending order. -/
def scripts (t : Tree) (dir : String) (root : Place) : List String :=
  let paths := t.files.filterMap fun (p, _) => do
    let names ← covered? root p
    let path := String.intercalate "/" names
    if isScript (if names.isEmpty then dir else Path.join dir path) then some path else none
  paths.mergeSort fun a b => decide (a ≤ b)

end Tree

namespace Action

/-- The place of a directory that is to be walked. -/
def walked (dir : String) : Action Place := fun t =>
  match t.find dir with
  | .ok (p, _) => (.ok p, t)
  | .error e =>
    (.error ⟨[s!"Failed to walk {dir}", s!"IO error for operation on {dir}: {e.message}"],
      .system e⟩, t)

/-- Format files one after another. The result lists those that changed. -/
def formatEach (o : StyleOverrides) (dir : String) : List String → Action (List String)
  | [] => return []
  | path :: rest => do
    let changed ← formatFile o (if path.isEmpty then dir else Path.join dir path)
    let more ← formatEach o dir rest
    return if changed then path :: more else more

/-- Format every script below a directory. The result lists the paths of those that changed. -/
def formatTree (o : StyleOverrides) (dir : String) : Action (List String) := do
  let root ← walked dir
  let t ← get
  formatEach o dir (t.scripts dir root)

end Action

end ProjectSetup
