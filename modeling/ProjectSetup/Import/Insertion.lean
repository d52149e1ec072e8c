import ProjectSetup.Import.Basic
import ProjectSetup.Layout.Normal

/-!
# Insertion of imports

An import goes behind the last import of the lines that a script begins with. These lines, its
header, are imports and blank lines. The statement is not added if a line of the header equals it.
-/
namespace ProjectSetup

/-- The normal form of a file in which no statement is wrapped. -/
def flatten (path : String) (o : StyleOverrides) (content : Text) : Except EditFault Text :=
  (normalize path o.singleLine content).mapError (.layout path)

/-- The normal form of a file that an edit leaves behind. -/
def settle (path : String) (o : StyleOverrides) (content : Text) : Except EditFault Text :=
  (normalize path o content).mapError (.layout path)

/-- A text that begins with imports, cut behind the last of them. -/
structure Header where
  /-- The lines through the last import. -/
  imports : List Text
  /-- The blank lines that follow. -/
  blanks : List Text
  /-- The text behind them. -/
  body : Text
  deriving DecidableEq, Repr

namespace Header

def isSpace (c : Char) : Bool := c == ' ' || c == '\t'

/-- Whether a line starts with the word `import`. -/
def isImport (line : Text) : Bool :=
  match Text.after? "import".toList (line.dropWhile isSpace) with
  | some r => !r.head?.any Text.isWord
  | none => false

/-- Whether a line may stand in a header. -/
def belongs (line : Text) : Bool := isImport line || line.all isSpace

/-- The lines up to the last import among them, and the lines behind it. -/
def cutLines : List Text → List Text × List Text
  | [] => ([], [])
  | l :: ls =>
    match cutLines ls with
    | ([], rest) => if isImport l then ([l], rest) else ([], l :: rest)
    | (ls, rest) => (l :: ls, rest)

theorem cutLines_append (ls : List Text) : (cutLines ls).1 ++ (cutLines ls).2 = ls := by
  induction ls with
  | nil => rfl
  | cons l ls ih =>
    simp only [cutLines]
    split
    · next h =>
      simp only [h, List.nil_append] at ih
      split <;> simp [ih]
    · next h => simp only [h] at ih; simp [← ih]

/-- The lines with a line break after each of them. -/
def joinLines (ls : List Text) : Text := ls.flatMap (· ++ ['\n'])

/-- The header of a text, if an import is in it. Only lines with a line break belong to it. -/
def ofText? (t : Text) : Option Header :=
  let lines := Text.splitOn '\n' t
  let leading := lines.dropLast.takeWhile belongs
  match cutLines leading with
  | ([], _) => none
  | (imports, blanks) => some ⟨imports, blanks, Text.join ['\n'] (lines.drop leading.length)⟩

/-- The text in front of the place where an import is inserted. -/
def before (h : Header) : Text := joinLines h.imports

/-- The text behind the place where an import is inserted. -/
def after (h : Header) : Text := joinLines h.blanks ++ h.body

/-- Whether a line of the header is the statement. -/
def holds (h : Header) (statement : Text) : Bool :=
  (h.imports ++ h.blanks).any fun l => l.trim == statement

/-- The text with the statement on a line behind the last import. -/
def splice (h : Header) (statement : Text) : Text :=
  h.before ++ statement ++ ['\n'] ++ h.after

end Header

namespace Import

/-- The statement of the import as the style has it, on one line. -/
def styled (path : String) (o : StyleOverrides) (i : Import) : Except EditFault Text :=
  (flatten path o i.statement).map Text.trimEnd

/-- The single-line text of a file with the import in its header. -/
def spliced (path : String) (o : StyleOverrides) (i : Import) (flat : Text) :
    Except EditFault Text :=
  match Header.ofText? flat with
  | none => .error (.noImports path)
  | some h => (i.styled path o).map fun s => if h.holds s then flat else h.splice s

/-- The text of a file with the import added. -/
def insert (path : String) (o : StyleOverrides) (i : Import) (content : Text) :
    Except EditFault Text := do
  i.check
  let flat ← flatten path o content
  settle path o (← i.spliced path o flat)

end Import

end ProjectSetup
