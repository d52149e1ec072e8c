/-!
# Faults of catalogs

The mistakes that a catalog can hold. They are made by its author, and a catalog with one of them
is not used.
-/
namespace ProjectSetup

/-- How one extension refers to another. -/
inductive Relation where
  | dependency
  | exclusivity
  deriving DecidableEq, Repr

def Relation.name : Relation → String
  | .dependency => "dependency"
  | .exclusivity => "exclusivity"

inductive CatalogFault where
  | duplicateName (name : String)
  /-- An extension refers to a position outside the catalog. -/
  | undefinedReference (extension : String) (relation : Relation) (reference : Nat)
  /-- A definition refers to a name that no definition has. -/
  | unknownName (extension name : String)
  /-- An extension carries an index other than its position. -/
  | indexMismatch (extension : String) (cached actual : Nat)
  /-- An extension needs what it excludes. -/
  | exclusiveDependency (extension dependency : String)
  /-- An extension needs two others that exclude each other. -/
  | exclusiveDependencies (extension first second : String)
  deriving DecidableEq, Repr

def CatalogFault.message : CatalogFault → String
  | .duplicateName name => s!"extension name '{name}' is used more than once"
  | .undefinedReference extension relation reference =>
    s!"extension '{extension}' has an undefined {relation.name} reference (#{reference})"
  | .unknownName extension name =>
    s!"extension '{extension}' references unknown extension '{name}'"
  | .indexMismatch extension cached actual =>
    s!"extension '{extension}' is cached at index {cached} but sits at position {actual}"
  | .exclusiveDependency extension dependency =>
    s!"extension '{extension}' depends on '{dependency}' but is also exclusive to it"
  | .exclusiveDependencies extension first second =>
    s!"extension '{extension}' depends on '{first}' and '{second}', which are mutually exclusive"

end ProjectSetup
