import ProjectSetup.Catalog.Fault
import ProjectSetup.Catalog.NameMap
import ProjectSetup.Text.Blank

/-!
# Catalogs

A catalog is a list of extensions that refer to each other by their position. Names are looked up
without regard to case, and the first extension with a name has it.
-/
namespace ProjectSetup

/-- The kind of thing that an extension adds to a project. -/
inductive Category where
  | frontend
  | cssPreprocessor
  | language
  | library
  | linter
  | testOnly
  deriving DecidableEq, Repr

namespace Category

/-- Every category, in the order in which they are listed. -/
def all : List Category := [.frontend, .language, .cssPreprocessor, .library, .linter, .testOnly]

/-- The name by which a category is written. -/
def key : Category → String
  | .frontend => "frontend"
  | .cssPreprocessor => "css-preprocessor"
  | .language => "language"
  | .library => "library"
  | .linter => "linter"
  | .testOnly => "test-only"

def ofKey? (key : String) : Option Category := all.find? fun c => c.key == key

/-- The name by which a category is shown. -/
def title : Category → String
  | .frontend => "Frontend framework"
  | .cssPreprocessor => "CSS preprocessor"
  | .language => "Language flavor"
  | .library => "Library"
  | .linter => "Linter / formatter"
  | .testOnly => "Test only"

theorem mem_all (c : Category) : c ∈ all := by cases c <;> decide

theorem ofKey?_key (c : Category) : ofKey? c.key = some c := by cases c <;> rfl

end Category

structure Extension where
  /-- The position that the extension takes itself to have. -/
  index : Nat
  name : String
  category : Category
  /-- The positions of the extensions that have to be selected with this one. -/
  dependsOn : List Nat
  /-- The positions of the extensions that cannot be selected with this one. -/
  exclusiveTo : List Nat
  deriving DecidableEq, Repr

structure Catalog where
  extensions : List Extension
  deriving DecidableEq, Repr

/-- Whether two names are equal up to the case of the letters A to Z. -/
def sameName (a b : String) : Bool := Text.eqIgnoringAsciiCase a.toList b.toList

namespace Catalog

def size (c : Catalog) : Nat := c.extensions.length

def get? (c : Catalog) (id : Nat) : Option Extension := c.extensions[id]?

def ids (c : Catalog) : List Nat := List.range c.size

/-- The name of an extension; an id outside the catalog goes by its number. -/
def nameOf (c : Catalog) (id : Nat) : String :=
  match c.get? id with
  | some e => e.name
  | none => s!"#{id}"

/-- The positions by name; of equal names the first one has its position there. -/
def positions (c : Catalog) : NameMap := .fill (c.extensions.map (·.name))

def find? (c : Catalog) (name : String) : Option Extension :=
  (c.positions.get? (nameKey name)).bind c.get?

/-- Found is the first extension with the name. -/
theorem find?_eq (c : Catalog) (name : String) :
    c.find? name = c.extensions.find? fun e => nameKey e.name == nameKey name := by
  rw [find?, positions, NameMap.get?_fill, List.findIdx?_map,
    List.find?_eq_bind_findIdx?_getElem?]
  rfl

/-- The extension with the given name, tried first at the position `cached`. -/
def lookup? (c : Catalog) (name : String) (cached : Nat) : Option Extension :=
  match c.get? cached with
  | some e => if sameName e.name name then some e else c.find? name
  | none => c.find? name

/-- Add a member that is not there yet. -/
def addNew [BEq α] (xs : List α) (x : α) : List α := if xs.contains x then xs else xs ++ [x]

/-- The ids of the named extensions in order of first mention, or a message for each unknown
name. Blanks around a name do not count. -/
def resolve (c : Catalog) (names : List String) : Except (List String) (List Nat) :=
  let trimmed := names.map fun n => String.ofList (Text.trim n.toList)
  match trimmed.filter fun n => (c.find? n).isNone with
  | [] => .ok (((trimmed.filterMap c.find?).map (·.index)).foldl addNew [])
  | unknown => .error (unknown.map fun n => s!"Unknown extension: {n}")

/-- The ids of the extensions of a category. -/
def ofCategory (c : Catalog) (k : Category) : List Nat :=
  (c.extensions.filter fun e => e.category == k).map (·.index)

/-- The member of a selection that has the given name, tried first at the place `cached`. -/
def findSelected? (c : Catalog) (selection : List Nat) (name : String) (cached : Nat) :
    Option Nat :=
  let named (id : Nat) : Bool := (c.get? id).any fun e => sameName e.name name
  match selection[cached]? with
  | some id => if named id then some id else selection.find? named
  | none => selection.find? named

end Catalog

end ProjectSetup
