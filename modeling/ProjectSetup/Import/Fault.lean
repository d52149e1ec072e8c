import ProjectSetup.Layout.Fault
import ProjectSetup.Text.Basic

/-!
# Faults of edits

The reasons why a script cannot be edited, with the wording that is shown.
-/
namespace ProjectSetup

/-- The reasons why a script is not edited. Modules and arrays are searched with patterns made of
their names; that a pattern exceeds the size limit of compiled patterns is not among the reasons,
and all of them are taken to fit it. -/
inductive EditFault where
  /-- The file does not begin with imports. -/
  | noImports (path : String)
  | arrayNotFound (array path : String)
  /-- An import without names has nothing to put into an array. -/
  | noNames (source : Text)
  /-- An import of a whole module binds no other names. -/
  | namespaceConflict (source : Text)
  /-- The file cannot be laid out. -/
  | layout (path : String) (fault : Fault)
  deriving DecidableEq, Repr

namespace EditFault

def message : EditFault → String
  | .noImports path => s!"no leading import block found in {path}"
  | .arrayNotFound array path => s!"array '{array}' not found in {path}"
  | .noNames source =>
    s!"import of '{String.ofList source}' has no named item to insert into an array"
  | .namespaceConflict source =>
    let source := String.ofList source
    s!"namespace import of '{source}' cannot be combined with default or named imports"
  | .layout path fault => s!"failed to format {path}: {fault.message}"

end EditFault

end ProjectSetup
