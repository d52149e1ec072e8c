import Mathlib.Tactic.IntervalCases
import ProjectSetup.Proofs.Recipe.Report

/-!
# Plans of the built-in catalog

The table of recipes follows the built-in catalog, so the plan of a selection can be read off it:
first what the framework and the language ask for, then the one preprocessor that a valid selection
may hold, then everything else.
-/
namespace ProjectSetup

open ProjectSetup.Path (Plain place names join)

namespace Builtin

/-- The extensions of the built-in catalog, in the order in which they are applied. -/
def extensions : List Extension := [
  ⟨0, react, .frontend, [], [1]⟩,
  ⟨1, angular, .frontend, [2], [0]⟩,
  ⟨2, typeScript, .language, [], []⟩,
  ⟨3, sass, .cssPreprocessor, [], [4, 5]⟩,
  ⟨4, less, .cssPreprocessor, [], [3, 5]⟩,
  ⟨5, stylus, .cssPreprocessor, [], [3, 4]⟩,
  ⟨6, redux, .library, [0], [7]⟩,
  ⟨7, mobX, .library, [0], [6]⟩,
  ⟨8, ngRx, .library, [1], []⟩,
  ⟨9, esLint, .linter, [], []⟩,
  ⟨10, prettier, .linter, [], []⟩,
  ⟨11, esLintPrettier, .linter, [9, 10], []⟩]

end Builtin

namespace Application

/-- The recipes at some places of the table. -/
def listed (s : Setting) (o : StyleOverrides) (ids : List Nat) : List (String × Recipe) :=
  ids.filterMap fun id => (Recipe.table s o)[id]?

variable {s : Setting} {o : StyleOverrides} {selection : List Nat}

variable {dir path : String} {x : String × Recipe} {e : Edit}

/-- The file at `path` is out of the way of an edit that moves away and leaves behind the given
files. -/
def Apart (path : String) (f : Option String × String) : Prop :=
  Plain f.2 ∧ Tree.below (names f.2) (names path) = false ∧
    ∀ source ∈ f.1, Plain source ∧ Tree.below (names source) (names path) = false

instance (path : String) (f : Option String × String) : Decidable (Apart path f) :=
  inferInstanceAs (Decidable (_ ∧ _ ∧ ∀ source ∈ f.1, _))

/-- The path of a script of a project of React. -/
def script (s : Setting) (name : String) : String := s!"src/{name}.{s.scriptExtension true}"

end Application

end ProjectSetup
