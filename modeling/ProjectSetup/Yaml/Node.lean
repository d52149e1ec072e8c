import ProjectSetup.Text.Basic

/-!
# Nodes

The values that a YAML document describes, and what is asked of them. The YAML itself is left to a
reader: how a text is read as a node, and which plain scalars stand for no value, for a truth value
or for a number.
-/
namespace ProjectSetup.Yaml

inductive Node where
  | scalar (plain : Bool) (text : Text)
  | sequence (items : List Node)
  | mapping (entries : List (Node × Node))

/-- A reader of YAML. -/
structure Reader where
  /-- The node of a text that holds one document. -/
  node? : Text → Option Node
  /-- Whether a plain scalar stands for no value. -/
  null : Text → Bool
  /-- The truth value that a plain scalar stands for. -/
  truth? : Text → Option Bool
  /-- The unsigned number of 64 bits that a plain scalar stands for. -/
  number? : Text → Option Nat

namespace Node

def text? : Node → Option Text
  | .scalar _ t => some t
  | _ => none

/-- The text of a plain scalar. -/
def plain? : Node → Option Text
  | .scalar true t => some t
  | _ => none

/-- The items of a sequence; an empty plain scalar has none. -/
def items? : Node → Option (List Node)
  | .sequence xs => some xs
  | .scalar true [] => some []
  | _ => none

/-- The fields of a mapping whose keys are scalars; an empty plain scalar has none. -/
def fields? : Node → Option (List (Text × Node))
  | .mapping es => es.mapM fun (k, v) => k.text?.map (·, v)
  | .scalar true [] => some []
  | _ => none

/-- The value of a field, if there is one. A field must not be given twice. -/
def field? (fields : List (Text × Node)) (name : String) : Option (Option Node) :=
  match fields.filter (·.1 == name.toList) with
  | [] => some none
  | [(_, v)] => some (some v)
  | _ => none

end Node

namespace Reader

def bool? (yaml : Reader) (n : Node) : Option Bool := n.plain?.bind yaml.truth?

def nat? (yaml : Reader) (n : Node) : Option Nat := n.plain?.bind yaml.number?

/-- The value of a field that may be left out or null. -/
def optionalField? (yaml : Reader) (fields : List (Text × Node)) (name : String)
    (read : Node → Option α) : Option (Option α) := do
  match ← Node.field? fields name with
  | none => return none
  | some v => if v.plain?.any yaml.null then return none else return some (← read v)

end Reader

end ProjectSetup.Yaml
