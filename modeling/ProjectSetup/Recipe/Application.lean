import ProjectSetup.PackageManager
import ProjectSetup.Recipe.Builtin

/-!
# Application of a selection

A valid selection is applied to a project extension by extension, in catalog order, and edit by
edit. The first edit that fails ends the run.
-/
namespace ProjectSetup

/-- What a run has done, and what is left to do. -/
structure Report where
  /-- The names of the extensions, in the order in which they were applied. -/
  applied : List String := []
  /-- The files that were written, as seen from the project. -/
  touched : List String := []
  packages : List String := []
  devPackages : List String := []
  /-- The commands that make the project in the first place. -/
  generators : List String := []
  deriving DecidableEq, Repr

namespace Report

def installCommands (r : Report) (m : PackageManager) : List String :=
  (m.addCommand? r.packages false).toList ++ (m.addCommand? r.devPackages true).toList

end Report

namespace Application

/-- The recipes of the selected extensions that have one, in order, with their names. -/
def recipes (c : Catalog) (ordered : List Nat) (o : StyleOverrides) : List (String × Recipe) :=
  let s := Setting.ofSelection c ordered
  (ordered.filterMap c.get?).filterMap fun e => (Recipe.ofName? e.name s o).map fun r => (e.name, r)

/-- Do edits one after another and note the files that they leave behind. -/
def applyEdits (dir : String) (o : StyleOverrides) (name : String) (r : Report) :
    List Edit → Action Report
  | [] => return r
  | e :: es => do
    Action.within s!"Failed to apply {name}" (e.apply dir o)
    applyEdits dir o name { r with touched := Catalog.addNew r.touched e.target } es

/-- Apply recipes one after another. -/
def applyRecipes (dir : String) (o : StyleOverrides) (r : Report) :
    List (String × Recipe) → Action Report
  | [] => return r
  | (name, recipe) :: rest => do
    let r ← applyEdits dir o name r recipe.edits
    applyRecipes dir o
      { r with
        packages := recipe.packages.foldl Catalog.addNew r.packages
        devPackages := recipe.devPackages.foldl Catalog.addNew r.devPackages
        applied := r.applied ++ [name] } rest

/-- What is said where no project is. -/
def missingProject (dir : String) (generators : List String) : String :=
  s!"No package.json in {dir}" ++
    match generators with
    | [] => ""
    | g :: _ => "; generate the base project first with \x60" ++ g ++ "\x60"

/-- Apply a selection to the project at `dir`. -/
def apply (c : Catalog) (selection : List Nat) (dir : String) (o : StyleOverrides) :
    Action Report := do
  match c.checkSelection selection with
  | .invalid errors => Action.fail (.selection errors)
  | .valid =>
    let recipes := recipes c (Catalog.ordered selection) o
    let generators := (recipes.filterMap fun (_, r) => r.generator).foldl Catalog.addNew []
    let t ← get
    if t.isFile (Path.join dir "package.json") then
      applyRecipes dir o { generators } recipes
    else Action.fail (.other (missingProject dir generators))

end Application

end ProjectSetup
