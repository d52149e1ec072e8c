import ProjectSetup.Layout.Draft
import ProjectSetup.Layout.Lines
import ProjectSetup.Path

/-!
# Normal form

The normal form of a file. Scripts, known by their extension, have their lists joined and their
statements finished in the style; of other files only the blanks at the ends of lines and the runs
of blank lines are removed.
-/
namespace ProjectSetup

/-- The extensions of scripts. -/
def scriptExtensions : List String := ["js", "jsx", "mjs", "cjs", "ts", "tsx"]

/-- Whether a path names a script. -/
def isScript (path : String) : Bool := (Path.extension? path).any scriptExtensions.contains

/-- The normal form of a script. -/
def normalizeScript (style : Style) (source : Text) : Except Fault Text :=
  (Draft.collapse style.quote source).map fun d => Lines.finish style d.text d.lineEnds

/-- The normal form of the text of the file at `path`. -/
def normalize (path : String) (o : StyleOverrides) (source : Text) : Except Fault Text :=
  if isScript path then normalizeScript o.resolve source else .ok (Lines.tidy source)

end ProjectSetup
