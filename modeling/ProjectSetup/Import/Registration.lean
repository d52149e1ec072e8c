import ProjectSetup.Import.Insertion

/-!
# Registration in arrays

A named array is the first pair of brackets that follows the name and a colon or an equals sign.
Its entries are read as words. Names that are imported are added to the entries, which are then
written in ascending order.
-/
namespace ProjectSetup

/-- A text cut around the entries of an array. -/
structure ArraySite where
  before : Text
  entries : Text
  after : Text
  deriving DecidableEq, Repr

namespace ArraySite

/-- The entries of an array whose name has just been read, and the text around them. -/
def entries? (t : Text) : Option (Text × Text × Text) :=
  match t.dropWhile Text.isBlank with
  | [] => none
  | mark :: r =>
    if mark = ':' || mark = '=' then
      match r.dropWhile Text.isBlank with
      | '[' :: inner =>
        let entries := inner.takeWhile (· ≠ ']')
        let rest := inner.dropWhile (· ≠ ']')
        if rest.isEmpty then none
        else some (t.take (t.length - inner.length), entries, rest)
      | _ => none
    else none

/-- Whether a word begins or ends between two characters. -/
def isBoundary (previous next : Option Char) : Bool :=
  previous.any Text.isWord != next.any Text.isWord

/-- The first array with the given name in a text that comes after `previous`. -/
def find? (name : Text) (previous : Option Char) (t : Text) : Option ArraySite :=
  let here := if isBoundary previous t.head? then (Text.after? name t).bind entries? else none
  match here with
  | some (gap, entries, rest) => some ⟨name ++ gap, entries, rest⟩
  | none =>
    match t with
    | [] => none
    | c :: r => (find? name (some c) r).map fun s => { s with before := c :: s.before }

/-- The words of a text. -/
def words (t : Text) : List Text :=
  match t with
  | [] => []
  | c :: r =>
    if Text.isWord c then
      (c :: r.takeWhile Text.isWord) :: words (r.dropWhile Text.isWord)
    else words r
termination_by t.length
decreasing_by
  · have := (List.dropWhile_suffix (l := r) Text.isWord).length_le
    simp only [List.length_cons]
    omega
  · simp

/-- The entries with each name added that is not among them. -/
def addMissing (entries : List Text) : List Text → List Text
  | [] => entries
  | n :: ns => addMissing (if entries.contains n then entries else entries ++ [n]) ns

/-- The text with the names registered in the array. -/
def register (s : ArraySite) (names : List Text) : Text :=
  s.before ++ Text.join [',', ' '] (Import.sorted (addMissing (words s.entries) names)) ++ s.after

end ArraySite

namespace Import

/-- The text of a file with the import added and its names registered in an array. -/
def register (path : String) (o : StyleOverrides) (array : Text) (i : Import) (content : Text) :
    Except EditFault Text := do
  if i.whole.isSome then throw (.namespaceConflict i.source)
  if i.names.isEmpty then throw (.noNames i.source)
  let imported ← i.insert path o content
  match ArraySite.find? array none imported with
  | none => throw (.arrayNotFound (String.ofList array) path)
  | some s => settle path o (s.register i.names)

end Import

end ProjectSetup
