import ProjectSetup.Import.Registration
import ProjectSetup.Import.Removal
import ProjectSetup.Project.Formatting
import ProjectSetup.Text.Quoted

/-!
# Edits

The changes that a recipe makes to a project, each of them to one file. A file is read, changed and
written as a whole.
-/
namespace ProjectSetup

inductive Edit where
  | addImport (file : String) (what : Import)
  /-- Remove every import of a module. -/
  | removeImport (file : String) (source : Text)
  /-- Import names and register them in an array. -/
  | addToArray (file : String) (array : Text) (what : Import)
  | rename (source target : String)
  /-- Make a file, or put a text in place of what it holds. -/
  | write (file : String) (content : Text)
  /-- Replace the first occurrence of a text. -/
  | replace (file : String) (old new : Text)
  deriving DecidableEq, Repr

namespace Edit

/-- The file that the edit leaves behind. -/
def target : Edit → String
  | .addImport file _ | .removeImport file _ | .addToArray file _ _ | .write file _
  | .replace file _ _ => file
  | .rename _ target => target

/-- Change a file by a function of its text. -/
def revise (path : String) (f : Text → Except EditFault Text) : Action Unit := do
  let s ← Action.readText path
  let s ← Action.pureOf .edit (f s)
  Action.writeText path s

def renameFile (source target : String) : Action Unit := do
  Action.makeParent target
  Action.change s!"Failed to rename {source} to {target}" (·.rename source target)

def writeFile (path : String) (o : StyleOverrides) (content : Text) : Action Unit := do
  let s ← Action.normalized path o content
  Action.makeParent path
  Action.writeText path s

def replaceFirst (path : String) (o : StyleOverrides) (old new : Text) : Action Unit := do
  let s ← Action.readText path
  match Text.cut? old s with
  | none =>
    Action.fail (.other s!"Could not find {String.ofList (Text.quoted old)} in {path}")
  | some (before, rest) =>
    let s ← Action.normalized path o (before ++ new ++ rest)
    Action.writeText path s

/-- Do the edit in the project at `dir`. -/
def apply (dir : String) (o : StyleOverrides) : Edit → Action Unit
  | .addImport file what =>
    let path := Path.join dir file
    revise path (what.insert path o)
  | .removeImport file source =>
    let path := Path.join dir file
    revise path (Import.strip path o source)
  | .addToArray file array what =>
    let path := Path.join dir file
    revise path (what.register path o array)
  | .rename source target => renameFile (Path.join dir source) (Path.join dir target)
  | .write file content => writeFile (Path.join dir file) o content
  | .replace file old new => replaceFirst (Path.join dir file) o old new

end Edit

end ProjectSetup
