import ProjectSetup.Yaml.Node
import ProjectSetup.Yaml.Token

/-!
# Documents

A reader for the subset of YAML whose tokens are known. A key, a value or an item that is left out
is an empty plain scalar.
-/
namespace ProjectSetup.Yaml

namespace Node

/-- The node that stands for nothing. -/
def empty : Node := .scalar true []

mutual

/-- Read a node. A block may start only if `block` holds, and a sequence that is indented like its
key only if `loose` holds. The number bounds the depth of the reading. -/
def node? : Nat → (block loose : Bool) → List Token → Option (Node × List Token)
  | 0, _, _, _ => none
  | n + 1, block, loose, ts =>
    match ts with
    | .scalar plain text :: r => some (.scalar plain text, r)
    | .flowSequence :: r => (flowItems? n true r).map fun (xs, r) => (.sequence xs, r)
    | .flowMapping :: r => (flowEntries? n true r).map fun (es, r) => (.mapping es, r)
    | .entry :: _ =>
      if loose then (looseItems? n ts).map fun (xs, r) => (.sequence xs, r) else none
    | .blockSequence :: r =>
      if block then (blockItems? n r).map fun (xs, r) => (.sequence xs, r) else none
    | .blockMapping :: r =>
      if block then (blockEntries? n r).map fun (es, r) => (.mapping es, r) else none
    | _ => none

/-- Read a node, or nothing ahead of one of the tokens `stops`. -/
def optional? : Nat → (block loose : Bool) → (stops : List Token) → List Token →
    Option (Node × List Token)
  | 0, _, _, _, _ => none
  | n + 1, block, loose, stops, ts =>
    if ts.head?.any stops.contains then some (empty, ts) else node? n block loose ts

def blockItems? : Nat → List Token → Option (List Node × List Token)
  | 0, _ => none
  | n + 1, ts =>
    match ts with
    | .entry :: r => do
      let (x, r) ← optional? n true false [.entry, .blockEnd] r
      let (xs, r) ← blockItems? n r
      return (x :: xs, r)
    | .blockEnd :: r => some ([], r)
    | _ => none

/-- Read the items of a sequence that is indented like its key. -/
def looseItems? : Nat → List Token → Option (List Node × List Token)
  | 0, _ => none
  | n + 1, ts =>
    match ts with
    | .entry :: r => do
      let (x, r) ← optional? n true false [.entry, .key, .value, .blockEnd] r
      let (xs, r) ← looseItems? n r
      return (x :: xs, r)
    | _ => some ([], ts)

/-- Read the value of a key, or nothing if no colon comes next. -/
def value? : Nat → (block : Bool) → (stops : List Token) → List Token →
    Option (Node × List Token)
  | 0, _, _, _ => none
  | n + 1, block, stops, ts =>
    match ts with
    | .value :: r => optional? n block block stops r
    | _ => some (empty, ts)

def blockEntries? : Nat → List Token → Option (List (Node × Node) × List Token)
  | 0, _ => none
  | n + 1, ts =>
    match ts with
    | .key :: r => do
      let (k, r) ← optional? n true true [.key, .value, .blockEnd] r
      let (v, r) ← value? n true [.key, .value, .blockEnd] r
      let (es, r) ← blockEntries? n r
      return ((k, v) :: es, r)
    | .blockEnd :: r => some ([], r)
    | _ => none

/-- Read the items of a flow sequence; every item but the first one follows a comma. -/
def flowItems? : Nat → (first : Bool) → List Token → Option (List Node × List Token)
  | 0, _, _ => none
  | n + 1, first, ts =>
    match ts with
    | .flowSequenceEnd :: r => some ([], r)
    | _ => do
      let ts ← if first then some ts else match ts with
        | .comma :: r => some r
        | _ => none
      match ts with
      | .flowSequenceEnd :: r => some ([], r)
      | .key :: r => do
        let (k, r) ← optional? n false false [.value, .comma, .flowSequenceEnd] r
        let (v, r) ← value? n false [.comma, .flowSequenceEnd] r
        let (xs, r) ← flowItems? n false r
        return (.mapping [(k, v)] :: xs, r)
      | _ => do
        let (x, r) ← node? n false false ts
        let (xs, r) ← flowItems? n false r
        return (x :: xs, r)

/-- Read the entries of a flow mapping; every entry but the first one follows a comma. -/
def flowEntries? : Nat → (first : Bool) → List Token →
    Option (List (Node × Node) × List Token)
  | 0, _, _ => none
  | n + 1, first, ts =>
    match ts with
    | .flowMappingEnd :: r => some ([], r)
    | _ => do
      let ts ← if first then some ts else match ts with
        | .comma :: r => some r
        | _ => none
      match ts with
      | .flowMappingEnd :: r => some ([], r)
      | .key :: r => do
        let (k, r) ← optional? n false false [.value, .comma, .flowMappingEnd] r
        let (v, r) ← value? n false [.comma, .flowMappingEnd] r
        let (es, r) ← flowEntries? n false r
        return ((k, v) :: es, r)
      | _ => do
        let (k, r) ← node? n false false ts
        let (es, r) ← flowEntries? n false r
        return ((k, empty) :: es, r)

end

/-- The node of a document; a document that holds nothing is the empty node. -/
def ofTokens? (ts : List Token) : Option Node := do
  let depth := 4 * ts.length + 4
  let (x, rest) ← match ts with
    | [] => some (empty, [])
    | .documentStart :: [] => some (empty, [])
    | .documentStart :: r => optional? depth true false [.documentStart, .documentEnd] r
    | _ => node? depth true false ts
  if rest.all (· == .documentEnd) then some x else none

/-- Read a text that holds one document. -/
def read? (t : Text) : Option Node := do ofTokens? (← tokens? t)

end Node

/-- A plain scalar that stands for no value. -/
def isNull (t : Text) : Bool := t.isEmpty || ["null", "Null", "NULL", "~"].any (·.toList == t)

def truth? (t : Text) : Option Bool :=
  if ["true", "True", "TRUE"].any (·.toList == t) then some true
  else if ["false", "False", "FALSE"].any (·.toList == t) then some false
  else none

/-- The value of a digit in a base up to sixteen. -/
def digit? (base : Nat) (c : Char) : Option Nat :=
  let d :=
    if c.isDigit then c.toNat - '0'.toNat
    else if 'a' ≤ c ∧ c ≤ 'f' then c.toNat - 'a'.toNat + 10
    else if 'A' ≤ c ∧ c ≤ 'F' then c.toNat - 'A'.toNat + 10
    else base
  if d < base then some d else none

/-- The number below `2 ^ 64` that the digits denote. -/
def digits? (base : Nat) (t : Text) : Option Nat := do
  if t.isEmpty then none
  let n ← t.foldlM (fun v c => (digit? base c).map (base * v + ·)) 0
  if n < UInt64.size then some n else none

/-- An unsigned number below `2 ^ 64`: decimal without leading zeros, or hexadecimal, octal or
binary behind its mark. A plus sign may come first. -/
def number? (t : Text) : Option Nat :=
  let t := match t with
    | '+' :: r => r
    | _ => t
  match t with
  | '0' :: 'x' :: r => digits? 16 r
  | '0' :: 'o' :: r => digits? 8 r
  | '0' :: 'b' :: r => digits? 2 r
  | '0' :: _ :: _ => none
  | _ => digits? 10 t

/-- The reader with which a run reads its settings. -/
def reader : Reader := { node? := Node.read?, null := isNull, truth?, number? }

end ProjectSetup.Yaml
