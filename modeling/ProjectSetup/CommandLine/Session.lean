import ProjectSetup.Catalog.Hull
import ProjectSetup.CommandLine.Arguments
import ProjectSetup.Project.Settings
import ProjectSetup.Recipe.Application

/-!
# Sessions

What a command does: it reads and changes a tree of files, prints lines, and shows messages on the
way. All of it is kept when the command fails.
-/
namespace ProjectSetup

structure Console where
  tree : Tree
  /-- The lines that were printed. -/
  lines : List String := []
  /-- The messages that were shown. -/
  messages : List String := []

abbrev Session (α : Type) := ExceptT Failure (StateM Console) α

namespace Session

/-- Do something with the tree. -/
def act (a : Action α) : Session α := fun c =>
  let (r, t) := a c.tree
  (r, { c with tree := t })

def print (line : String) : Session Unit := modify fun c => { c with lines := c.lines ++ [line] }

def tell (message : String) : Session Unit :=
  modify fun c => { c with messages := c.messages ++ [message] }

def printAll (lines : List String) : Session Unit :=
  modify fun c => { c with lines := c.lines ++ lines }

def tellAll (messages : List String) : Session Unit :=
  modify fun c => { c with messages := c.messages ++ messages }

/-- The line of an extension in a listing. -/
def extensionLine (c : Catalog) (e : Extension) : String :=
  "  " ++ e.name ++
    (if e.dependsOn.isEmpty then "" else " requires " ++ c.nameList e.dependsOn) ++
    (if e.exclusiveTo.isEmpty then "" else " excludes " ++ c.nameList e.exclusiveTo)

/-- The extensions by category, or those of one category. -/
def catalogLines (c : Catalog) (only : Option Category) : List String :=
  (Category.all.filter fun k => only.all (· == k)).flatMap fun k =>
    match c.ofCategory k with
    | [] => []
    | ids => k.title :: (ids.filterMap c.get?).map (extensionLine c) ++ [""]

/-- What each extension depends on, directly or through others. -/
def hullLines (c : Catalog) : List String :=
  let hull := (c.adjacency c.ids).hull
  "Transitive dependencies" :: c.ids.map fun id =>
    match hull.reachable c.ids id with
    | [] => "  " ++ c.nameOf id ++ " -"
    | ids => "  " ++ c.nameOf id ++ " -> " ++ c.nameList ids

/-- The ids of names that the user gave. -/
def resolve (c : Catalog) (names : List String) : Session (List Nat) := do
  match c.resolve names with
  | .ok ids => return ids
  | .error unknown =>
    tellAll unknown
    let available := String.intercalate ", " (c.extensions.map (·.name))
    throw { cause := .other s!"Unknown extension name. Available extensions: {available}" }

/-- Check a selection and say what comes of it; `refusal` ends the session if it is invalid. -/
def validate (c : Catalog) (selection : List Nat) (refusal : String) : Session Unit := do
  match c.checkSelection selection with
  | .valid => tell s!"Valid selection: {c.nameList selection}"
  | .invalid errors =>
    tellAll errors
    tell refusal
    throw { cause := .selection errors }

/-- What is left to do after a selection was applied. -/
def nextSteps (r : Report) (dir : String) (m : PackageManager) : List String :=
  let steps := s!"cd {dir}" :: r.installCommands m ++ [m.runCommand "start"]
  "" :: "  Next steps" :: "" :: (steps.zipIdx 1).map fun (step, n) => s!"  {n}.  {step}"

def apply (c : Catalog) (dir : String) (o : StyleOverrides) (names : List String)
    (answering : List PackageManager) : Session Unit := do
  tell "Apply extensions"
  let selection ← resolve c names
  validate c selection "Nothing was changed"
  let r ← act (Application.apply c selection dir o)
  tellAll r.touched
  let m := PackageManager.detect answering (← get).tree dir
  printAll (nextSteps r dir m)
  tell "Happy coding!"

def format (o : StyleOverrides) (path : String) : Session Unit := do
  if (← get).tree.isDirectory path then
    let changed ← act (Action.formatTree o path)
    printAll (changed.map ("formatted " ++ ·))
    print s!"{changed.length} files changed"
  else if ← act (Action.formatFile o path) then print s!"formatted {path}"
  else print s!"unchanged {path}"

/-- Run a command; `answering` are the package managers that can be started. -/
def run (a : Arguments) (environment : Option String) (answering : List PackageManager) :
    Session Unit := do
  let o ← act (Settings.loadStyle a.style environment)
  match a.command with
  | .catalog manifest category hull =>
    let c ← act (Settings.loadCatalog manifest)
    printAll [s!"✓ {c.size} extensions, integrity checks passed", ""]
    printAll (catalogLines c category)
    if hull then printAll (hullLines c)
  | .check names manifest =>
    let c ← act (Settings.loadCatalog manifest)
    tell "Check extension selection"
    let selection ← resolve c names
    validate c selection "Selection rejected"
    tell "Selection is consistent"
  | .apply dir names =>
    let c ← act (Settings.loadCatalog none)
    apply c dir o names answering
  | .format path => format o path
  | .addImport file what =>
    act (Edit.revise file (what.insert file o))
    tell s!"{file} now imports {String.ofList what.source}"
  | .removeImport file source =>
    act (Edit.revise file (Import.strip file o source.toList))
    tell s!"Removed imports of {source} from {file}"
  | .addToArray file array source names =>
    let what := Import.ofNames (names.map String.toList) source.toList
    act (Edit.revise file (what.register file o array.toList))
    let listed := String.intercalate ", " names
    tell s!"Registered {listed} in {array} of {file}"

/-- A text with every line but its first indented. -/
def hanging (indent : String) (text : String) : String :=
  String.intercalate ("\n" ++ indent) ((Text.splitOn '\n' text.toList).map String.ofList)

/-- The texts of a failure: what failed, and below it the causes. -/
def failureText (f : Failure) : String :=
  match f.texts with
  | [] => ""
  | [t] => t
  | [t, cause] => t ++ "\n\nCaused by:\n    " ++ hanging "    " cause
  | t :: causes =>
    let numbered := (causes.zipIdx).map fun (cause, n) =>
      let digits := toString n
      "\n" ++ String.ofList (List.replicate (5 - digits.length) ' ') ++ digits ++ ": " ++
        hanging "       " cause
    t ++ "\n\nCaused by:" ++ String.join numbered

end Session

end ProjectSetup
