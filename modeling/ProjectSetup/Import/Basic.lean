import ProjectSetup.Import.Fault

/-!
# Imports

An import of a module: for its effects alone, of its default, of some of its names, or of the whole
module under one name. The statement lists the names in ascending order, each of them once.
-/
namespace ProjectSetup

structure Import where
  /-- The module that is imported. -/
  source : Text
  /-- The name for the default of the module. -/
  binding : Option Text := none
  /-- The names that are imported. -/
  names : List Text := []
  /-- The name for the whole module. -/
  whole : Option Text := none
  deriving DecidableEq, Repr

namespace Import

def sideEffect (source : Text) : Import := { source }

def withDefault (i : Import) (name : Text) : Import := { i with binding := some name }

def withNames (i : Import) (names : List Text) : Import := { i with names := i.names ++ names }

def ofDefault (name source : Text) : Import := (sideEffect source).withDefault name

def ofNames (names : List Text) (source : Text) : Import := (sideEffect source).withNames names

def ofWhole (name source : Text) : Import := { source, whole := some name }

/-- An import of a whole module binds nothing else. -/
def valid (i : Import) : Bool := i.whole.isNone || (i.binding.isNone && i.names.isEmpty)

def check (i : Import) : Except EditFault Unit :=
  if i.valid then .ok () else .error (.namespaceConflict i.source)

theorem check_eq_ok_iff (i : Import) : i.check = .ok () ↔ i.valid = true := by
  unfold check
  split <;> simp_all

/-- The texts in ascending order. -/
def sorted (ts : List Text) : List Text := ts.mergeSort fun a b => !decide (b < a)

/-- The list with each run of equal members made one. -/
def dedup : List Text → List Text
  | [] => []
  | [a] => [a]
  | a :: b :: r => if a = b then dedup (b :: r) else a :: dedup (b :: r)

/-- The names in braces, in ascending order. -/
def nameList (names : List Text) : Text :=
  ['{', ' '] ++ Text.join [',', ' '] (dedup (sorted names)) ++ [' ', '}']

/-- What the import binds, between the word `import` and the module. -/
def bindings (i : Import) : List Text :=
  i.binding.toList ++ if i.names.isEmpty then [] else [nameList i.names]

/-- The statement of the import on one line. -/
def statement (i : Import) : Text :=
  let source := '\'' :: i.source ++ ['\'']
  match i.whole with
  | some name => "import * as ".toList ++ name ++ " from ".toList ++ source
  | none =>
    if i.bindings.isEmpty then "import ".toList ++ source
    else "import ".toList ++ Text.join [',', ' '] i.bindings ++ " from ".toList ++ source

end Import

end ProjectSetup
