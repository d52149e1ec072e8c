import ProjectSetup.Catalog.Basic

/-!
# Definitions

A catalog as it is written: definitions that refer to each other by name, and groups of extensions
of which no two can be selected together. Linking replaces the names by positions.
-/
namespace ProjectSetup

structure Definition where
  name : String
  category : Category
  dependsOn : List String := []
  exclusiveTo : List String := []
  deriving DecidableEq, Repr

structure Manifest where
  definitions : List Definition
  groups : List (List String) := []
  deriving DecidableEq, Repr

namespace Manifest

/-- The positions by name, collected from the last definition to the first. -/
def positions (m : Manifest) : NameMap := .collect (m.definitions.map (·.name))

def position? (m : Manifest) (name : String) : Option Nat := m.positions.get? (nameKey name)

/-- Found is the position of the first definition with the name. -/
theorem position?_eq (m : Manifest) (name : String) :
    m.position? name = m.definitions.findIdx? fun d => nameKey d.name == nameKey name := by
  rw [position?, positions, NameMap.get?_collect, List.findIdx?_map]
  rfl

/-- The position of a name that `owner` refers to. -/
def resolve (m : Manifest) (owner name : String) : Except CatalogFault Nat :=
  match m.position? name with
  | some i => .ok i
  | none => .error (.unknownName owner name)

/-- The extension at position `index` that a definition describes. -/
def linkOne (m : Manifest) (index : Nat) (d : Definition) : Except CatalogFault Extension := do
  let dependsOn ← d.dependsOn.mapM (m.resolve d.name)
  let exclusiveTo ← d.exclusiveTo.mapM (m.resolve d.name)
  return { index, name := d.name, category := d.category, dependsOn, exclusiveTo }

def linkFrom (m : Manifest) (index : Nat) : List Definition → Except CatalogFault (List Extension)
  | [] => .ok []
  | d :: ds => do
    let e ← m.linkOne index d
    return e :: (← m.linkFrom (index + 1) ds)

/-- Make the extension at position `self` exclusive to the other members of its group. -/
def exclude (members : List Nat) (self : Nat) (e : Extension) : Extension :=
  { e with exclusiveTo := (members.filter (· != self)).foldl Catalog.addNew e.exclusiveTo }

/-- Make the members of a group exclusive to each other. -/
def group (members : List Nat) (es : List Extension) : List Extension :=
  members.foldl (fun es i => es.modify i (exclude members i)) es

def linkGroups (m : Manifest) (es : List Extension) :
    List (List String) → Except CatalogFault (List Extension)
  | [] => .ok es
  | names :: rest => do
    let members ← names.mapM fun n => m.resolve n n
    m.linkGroups (group members es) rest

/-- The catalog that the manifest describes. -/
def link (m : Manifest) : Except CatalogFault Catalog := do
  let es ← m.linkFrom 0 m.definitions
  return ⟨← m.linkGroups es m.groups⟩

end Manifest

end ProjectSetup
