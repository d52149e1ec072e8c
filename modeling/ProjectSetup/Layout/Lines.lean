import ProjectSetup.Layout.Frame
import ProjectSetup.Layout.Style
import ProjectSetup.Text.Blank
import ProjectSetup.Text.Letter

/-!
# Lines

The lines of a text in their final form. Lines that end between statements lose or gain their
semicolon by the style, and an import that is wider than the style allows takes one line for each
name. Runs of blank lines become one, and the text ends with one line break. Lines that end inside
a literal are kept as they are.
-/
namespace ProjectSetup

/-- A line of output and how it ends. -/
structure Line where
  text : Text
  ending : LineEnd := .nested
  deriving DecidableEq, Repr

namespace Line

/-- Whether the line is blank, and not part of a literal. -/
def isBlank (l : Line) : Bool := l.text.blank && l.ending != .literal

end Line

namespace Lines

/-- Drop each blank line that follows another, and the first one if `afterBlank`. -/
def squeeze (afterBlank : Bool) : List Line → List Text
  | [] => []
  | l :: ls =>
    if l.isBlank then
      if afterBlank then squeeze true ls else [] :: squeeze true ls
    else l.text :: squeeze false ls

/-- Drop the empty lines at the end. -/
def dropEmptyEnd (ls : List Text) : List Text := (ls.reverse.dropWhile List.isEmpty).reverse

/-- The lines as a text without blank lines at its ends. -/
def assemble (ls : List Line) : Text :=
  match dropEmptyEnd (squeeze true ls) with
  | [] => []
  | kept => Text.join ['\n'] kept ++ ['\n']

/-- Whether the line imports a module or exports from one. -/
def isModuleDeclaration (line : Text) : Bool :=
  let line := line.trimStart
  let starts (s : String) := s.toList.isPrefixOf line
  (starts "import " || starts "import\x7b" || starts "export ") &&
    (starts "import" || Text.hasInfix " from ".toList line)

/-- Whether a line would go on with the statement before it if no semicolon stood between. -/
def startsHazardously (line : Text) : Bool :=
  line.trimStart.head?.any ['(', '[', '\x60'].contains

/-- Whether the first line that is not blank would go on with the statement before it. -/
def hazardAhead (following : List Text) : Bool :=
  (following.find? fun l => !l.blank).any startsHazardously

/-- End a statement as the style asks: modules are declared with a semicolon or without, and of
other statements the semicolon is dropped where nothing depends on it. -/
def endStatement (semi : Bool) (line : Text) (following : List Text) : Text :=
  if semi then
    if isModuleDeclaration line && line.getLast?.any ['\'', '"'].contains then line ++ [';'] else line
  else if line.getLast? = some ';' && !hazardAhead following then Text.trimEnd line.dropLast
  else line

/-- An import of names on one line. -/
structure NamedImport where
  /-- The default binding with its comma and blank, if any. -/
  head : Text
  items : List Text
  /-- What follows the word `from`. -/
  tail : Text
  deriving DecidableEq, Repr

namespace NamedImport

/-- Read the names in braces and what follows them. -/
def ofBraces? (head : Text) (t : Text) : Option NamedImport := do
  let inner ← Text.after? ['{', ' '] t
  let list := inner.takeWhile fun c => c ≠ '{' && c ≠ '}'
  let tail ← Text.after? "\x7d from ".toList (inner.drop list.length)
  if list.getLast? = some ' ' && !tail.isEmpty then
    some ⟨head, ((Text.splitOn ',' list.dropLast).map Text.trim).filter (!·.isEmpty), tail⟩
  else none

def isBinding (c : Char) : Bool := Text.isWord c || c == '$'

/-- Read a line that imports names: a default binding may come first. -/
def ofLine? (line : Text) : Option NamedImport := do
  let rest ← Text.after? "import ".toList line
  let name := rest.takeWhile isBinding
  match Text.after? [',', ' '] (rest.drop name.length) with
  | some braces => if name.isEmpty then none else ofBraces? (name ++ [',', ' ']) braces
  | none => ofBraces? [] rest

def itemLines (comma : Bool) : List Text → List Text
  | [] => []
  | [i] => [' ' :: ' ' :: i ++ if comma then [','] else []]
  | i :: is => (' ' :: ' ' :: i ++ [',']) :: itemLines comma is

/-- The import with one line for each name. -/
def wrapped (i : NamedImport) (commas : TrailingComma) : List Text :=
  ("import ".toList ++ i.head ++ ['{']) ::
    itemLines (commas != .none) i.items ++ ["\x7d from ".toList ++ i.tail]

end NamedImport

/-- A statement that is wider than the style allows takes one line for each name, if it imports
two names or more. -/
def wrapWide (style : Style) (line : Text) : List Text :=
  if style.printWidth < line.length then
    match NamedImport.ofLine? line with
    | some i => if i.items.length < 2 then [line] else i.wrapped style.trailingComma
    | none => [line]
  else [line]

/-- The final form of one line ahead of the lines `following`. -/
def finishLine (style : Style) (l : Line) (following : List Text) : List Line :=
  match l.ending with
  | .literal => [l]
  | .nested => [{ l with text := l.text.trimEnd }]
  | .statement =>
    (wrapWide style (endStatement style.semi l.text.trimEnd following)).map ({ l with text := · })

/-- The final form of lines with the ways they end; a line without one is left out. -/
def finishLines (style : Style) : List Text → List LineEnd → List Line
  | t :: ts, e :: es => finishLine style ⟨t, e⟩ ts ++ finishLines style ts es
  | _, _ => []

/-- The final form of a text whose lines end as given. -/
def finish (style : Style) (text : Text) (ends : List LineEnd) : Text :=
  assemble (finishLines style (Text.splitOn '\n' text) ends)

/-- The lines of a text with the blanks at their ends removed. -/
def tidy (text : Text) : Text :=
  assemble ((Text.splitOn '\n' text).map fun l => { text := l.trimEnd })

end Lines

end ProjectSetup
