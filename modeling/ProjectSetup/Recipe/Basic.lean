import ProjectSetup.Catalog.Builtin
import ProjectSetup.Project.Edit

/-!
# Recipes

What an extension adds to a project: packages, and edits to its files. A recipe depends on what
else is selected only through its setting.
-/
namespace ProjectSetup

/-- The framework of a project. -/
inductive Framework where
  | react
  | angular
  deriving DecidableEq, Repr

/-- What a recipe has to know of the selection that it belongs to. -/
structure Setting where
  typeScript : Bool := false
  framework : Option Framework := none
  deriving DecidableEq, Repr

namespace Setting

/-- Whether a selection holds the extension with the given name. -/
def selected (c : Catalog) (selection : List Nat) (name : String) : Bool :=
  (c.find? name).any fun e => selection.contains e.index

/-- The setting of a selection. Projects of Angular are written in TypeScript. -/
def ofSelection (c : Catalog) (selection : List Nat) : Setting :=
  let framework :=
    if selected c selection Builtin.react then some Framework.react
    else if selected c selection Builtin.angular then some .angular
    else none
  { typeScript := selected c selection Builtin.typeScript || framework == some .angular, framework }

/-- The extension of scripts, of those with markup if `markup` holds. -/
def scriptExtension (s : Setting) (markup : Bool) : String :=
  match s.typeScript, markup with
  | true, true => "tsx"
  | true, false => "ts"
  | false, _ => "js"

end Setting

structure Recipe where
  /-- The command that makes the project in the first place. -/
  generator : Option String := none
  packages : List String := []
  devPackages : List String := []
  /-- The edits in the order in which they are done. -/
  edits : List Edit := []
  deriving DecidableEq, Repr

end ProjectSetup
