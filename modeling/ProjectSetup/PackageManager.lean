import ProjectSetup.Project.Tree

/-!
# Package managers

The programs that install packages, told apart by the lock files that they leave in a project.
-/
namespace ProjectSetup

inductive PackageManager where
  | npm
  | yarn
  | pnpm
  deriving DecidableEq, Repr

namespace PackageManager

def name : PackageManager → String
  | .npm => "npm"
  | .yarn => "yarn"
  | .pnpm => "pnpm"

def ofName? : String → Option PackageManager
  | "npm" => some .npm
  | "yarn" => some .yarn
  | "pnpm" => some .pnpm
  | _ => none

def lockfile : PackageManager → String
  | .npm => "package-lock.json"
  | .yarn => "yarn.lock"
  | .pnpm => "pnpm-lock.yaml"

/-- The words that add packages, for development only if `dev` holds. -/
def addWords : PackageManager → (dev : Bool) → String
  | .npm, false => "npm install"
  | .npm, true => "npm install --save-dev"
  | .yarn, false => "yarn add"
  | .yarn, true => "yarn add --dev"
  | .pnpm, false => "pnpm add"
  | .pnpm, true => "pnpm add --save-dev"

/-- The command that adds packages, if there are any. -/
def addCommand? (m : PackageManager) (packages : List String) (dev : Bool) : Option String :=
  if packages.isEmpty then none
  else some (m.addWords dev ++ " " ++ String.intercalate " " packages)

/-- The command that runs a script of the project. -/
def runCommand : PackageManager → String → String
  | .npm, script => s!"npm run {script}"
  | .yarn, script => s!"yarn {script}"
  | .pnpm, script => s!"pnpm {script}"

/-- The manager whose lock file is in a project. A stray lock file of npm counts last. -/
def ofLockfile? (t : Tree) (dir : String) : Option PackageManager :=
  [pnpm, yarn, npm].find? fun m => t.isFile (Path.join dir m.lockfile)

/-- The manager of a project: by its lock file, else the first of `answering`, else npm. -/
def detect (answering : List PackageManager) (t : Tree) (dir : String) : PackageManager :=
  (ofLockfile? t dir).getD (([npm, yarn, pnpm].find? answering.contains).getD npm)

end PackageManager

end ProjectSetup
