import ProjectSetup.Catalog.Fault
import ProjectSetup.Catalog.Selection
import ProjectSetup.Import.Fault
import ProjectSetup.Project.Tree

/-!
# Failures

Why an operation on a project failed: a cause, and what was being done when it arose.
-/
namespace ProjectSetup

inductive Cause where
  | system (fault : SystemFault)
  | edit (fault : EditFault)
  | layout (fault : Fault)
  | catalog (fault : CatalogFault)
  | selection (errors : List String)
  /-- A text is not YAML of the form that is expected. -/
  | yaml
  | other (message : String)
  deriving DecidableEq, Repr

/-- The texts of a cause; a fault of an edit is followed by the fault behind it. -/
def Cause.texts : Cause → List String
  | .system f => [f.message]
  | .edit (.layout path f) => [(EditFault.layout path f).message, f.message]
  | .edit f => [f.message]
  | .layout f => [f.message]
  | .catalog f => [f.message]
  | .selection errors => [Verdict.message errors]
  | .yaml => []
  | .other message => [message]

structure Failure where
  /-- What was being done, outermost first. -/
  contexts : List String := []
  cause : Cause
  deriving DecidableEq, Repr

namespace Failure

def texts (f : Failure) : List String := f.contexts ++ f.cause.texts

/-- All texts in one line, outermost first. -/
def message (f : Failure) : String := String.intercalate ": " f.texts

/-- The failure as part of something larger. -/
def within (context : String) (f : Failure) : Failure := { f with contexts := context :: f.contexts }

end Failure

/-- An operation on a tree, which may fail and leaves a tree behind in any case. -/
abbrev Action (α : Type) := ExceptT Failure (StateM Tree) α

namespace Action

theorem bind_run (a : Action α) (f : α → Action β) (t : Tree) :
    (a >>= f) t = match a t with
      | (.ok x, t') => f x t'
      | (.error e, t') => (.error e, t') := by
  have hstep : (a >>= f) t = ExceptT.bindCont f (a t).1 (a t).2 := rfl
  rw [hstep]
  rcases a t with ⟨r, t'⟩
  cases r with
  | ok x => rfl
  | error e => rfl

@[simp] theorem pure_run (x : α) (t : Tree) : (pure x : Action α) t = (.ok x, t) := rfl

@[simp] theorem get_run (t : Tree) : (get : Action Tree) t = (.ok t, t) := rfl

def fail (cause : Cause) : Action α := throw { cause }

/-- Do something as part of something larger. -/
def within (context : String) (a : Action α) : Action α :=
  fun t => match a t with
    | (.ok x, t) => (.ok x, t)
    | (.error f, t) => (.error (f.within context), t)

theorem within_run (context : String) (a : Action α) (t : Tree) :
    within context a t = ((a t).1.mapError (·.within context), (a t).2) := by
  rw [within]
  rcases a t with ⟨r, t'⟩
  cases r with
  | ok x => rfl
  | error f => rfl

/-- Look at the tree. -/
def query (context : String) (f : Tree → Except SystemFault α) : Action α :=
  fun t => match f t with
    | .ok x => (.ok x, t)
    | .error e => (.error ⟨[context], .system e⟩, t)

/-- Change the tree, or leave it as it is. -/
def change (context : String) (f : Tree → Except SystemFault Tree) : Action Unit :=
  fun t => match f t with
    | .ok t' => (.ok (), t')
    | .error e => (.error ⟨[context], .system e⟩, t)

/-- Change the tree bit by bit. What was done before a failure stays. -/
def attempt (context : String) (f : Tree → Except SystemFault Unit × Tree) : Action Unit :=
  fun t => match f t with
    | (.ok (), t') => (.ok (), t')
    | (.error e, t') => (.error ⟨[context], .system e⟩, t')

/-- The outcome of a computation that needs no tree. -/
def pureOf (cause : ε → Cause) (r : Except ε α) : Action α :=
  fun t => match r with
    | .ok x => (.ok x, t)
    | .error e => (.error ⟨[], cause e⟩, t)

def readText (path : String) : Action Text :=
  query s!"Failed to read {path}" (·.readText path)

def writeText (path : String) (s : Text) : Action Unit :=
  change s!"Failed to write {path}" (·.writeText path s)

/-- Make the directory that a file is to be in. -/
def makeParent (path : String) : Action Unit :=
  match Path.parent? path with
  | none => pure ()
  | some dir => attempt s!"Failed to create directory: {dir}" (·.makeDirectories dir)

end Action

end ProjectSetup
