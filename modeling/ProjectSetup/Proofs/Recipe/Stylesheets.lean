import ProjectSetup.Proofs.Recipe.Builtin
import ProjectSetup.Proofs.Recipe.Occurrences

/-!
# References to style sheets

A preprocessor puts style sheets of its own in place of plain ones, and what refers to a plain one
is edited along with it. In a project of Angular a reference is a text that is replaced: two times
in the file that lists the global style sheet for the build and for the tests, and one time in the
component. In a project of React a reference is an import, and of the lines of a script those go
that removal finds to be one.
-/
namespace ProjectSetup

open ProjectSetup.Path (Plain place names join)
open Text (essence occurrences mentions)

namespace Application

variable {dir : String} {o : StyleOverrides} {s : Setting} {selection : List Nat} {t t' : Tree}
  {x : String × Recipe} {e : Edit} {path : String} {measure : Text → Nat}

/-- The edits for the style sheet of one script. -/
def swap (s : Setting) (extension name : String) : List Edit := [
  .rename s!"src/{name}.css" s!"src/{name}.{extension}",
  .removeImport (script s name) s!"./{name}.css".toList,
  .addImport (script s name) (.sideEffect s!"./{name}.{extension}".toList)]

end Application

end ProjectSetup
