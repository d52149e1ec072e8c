import ProjectSetup.Catalog.Basic

/-!
# Selections

A selection is a list of ids. It is valid if every id is in the catalog, every dependency of a
selected extension is selected, and no two selected extensions exclude each other. What is wrong
with it is said in one message for each extension.
-/
namespace ProjectSetup

/-- The outcome of a check. -/
inductive Verdict where
  | valid
  | invalid (errors : List String)
  deriving DecidableEq, Repr

namespace Verdict

def ofErrors : List String → Verdict
  | [] => .valid
  | e :: es => .invalid (e :: es)

def errors : Verdict → List String
  | .valid => []
  | .invalid es => es

def isValid : Verdict → Bool
  | .valid => true
  | .invalid _ => false

/-- Both outcomes in one, with the messages of both. -/
def and (a b : Verdict) : Verdict := ofErrors (a.errors ++ b.errors)

@[simp] theorem errors_ofErrors (es : List String) : (ofErrors es).errors = es := by
  cases es <;> rfl

@[simp] theorem isValid_ofErrors (es : List String) : (ofErrors es).isValid = es.isEmpty := by
  cases es <;> rfl

/-- The messages under one heading. -/
def message (errors : List String) : String :=
  "invalid extension selection:\n  - " ++ String.intercalate "\n  - " errors

/-- The text that is shown for a selection that is refused. -/
def refusal? : Verdict → Option String
  | .valid => none
  | .invalid es => some (message es)

end Verdict

/-- What is wrong with a selected extension. -/
inductive Complaint where
  | unknown (id : Nat)
  /-- It depends on extensions that are not selected. -/
  | missing (e : Extension) (dependencies : List Nat)
  /-- It excludes, or is excluded by, extensions that are selected after it. -/
  | conflict (e : Extension) (others : List Nat)
  deriving DecidableEq, Repr

namespace Catalog

def nameList (c : Catalog) (ids : List Nat) : String := String.intercalate ", " (ids.map c.nameOf)

def complaintText (c : Catalog) : Complaint → String
  | .unknown id => s!"Unknown extension #{id}"
  | .missing e ids => s!"{e.name} depends on {c.nameList ids}, which must also be selected"
  | .conflict e ids => s!"{e.name} cannot be combined with {c.nameList ids}"

/-- What is wrong with the dependencies of one member of a selection. -/
def dependencyComplaint? (c : Catalog) (selection : List Nat) (id : Nat) : Option Complaint :=
  match c.get? id with
  | none => some (.unknown id)
  | some e =>
    match e.dependsOn.filter fun d => !selection.contains d with
    | [] => none
    | missing => some (.missing e missing)

/-- Whether two extensions exclude each other; either may say so. -/
def exclusive (c : Catalog) (a b : Nat) : Bool :=
  (c.get? a).any (·.exclusiveTo.contains b) || (c.get? b).any (·.exclusiveTo.contains a)

/-- What excludes a member of a selection among those that come after it. -/
def exclusivityComplaint? (c : Catalog) (id : Nat) (later : List Nat) : Option Complaint :=
  match c.get? id with
  | none => some (.unknown id)
  | some e =>
    match later.filter fun other => other != id && c.exclusive id other with
    | [] => none
    | others => some (.conflict e others)

def dependencyComplaints (c : Catalog) (selection : List Nat) : List Complaint :=
  selection.filterMap (c.dependencyComplaint? selection)

def exclusivityComplaints (c : Catalog) : List Nat → List Complaint
  | [] => []
  | id :: later => (c.exclusivityComplaint? id later).toList ++ c.exclusivityComplaints later

/-- Whether every dependency of a selected extension is selected. -/
def checkDependencies (c : Catalog) (selection : List Nat) : Verdict :=
  .ofErrors ((c.dependencyComplaints selection).map c.complaintText)

/-- Whether no two selected extensions exclude each other. -/
def checkExclusivities (c : Catalog) (selection : List Nat) : Verdict :=
  .ofErrors ((c.exclusivityComplaints selection).map c.complaintText)

/-- Both checks; each message is given once. -/
def checkSelection (c : Catalog) (selection : List Nat) : Verdict :=
  let both := (c.checkDependencies selection).and (c.checkExclusivities selection)
  .ofErrors (both.errors.foldl addNew [])

/-- The selection in catalog order without repeats. -/
def ordered (selection : List Nat) : List Nat :=
  (selection.mergeSort fun a b => decide (a ≤ b)).foldl addNew []

end Catalog

end ProjectSetup
