import ProjectSetup.Import.Insertion

/-!
# Removal of imports

An import statement starts a line, and its module is the first quoted text in it. The statements
that import a given module are removed with the rest of their last line, which holds no more than a
semicolon.
-/
namespace ProjectSetup

namespace Import

def isQuote (c : Char) : Bool := c == '\'' || c == '"'

/-- Whether a text can stand between `import` and the quoted module: nothing, or bindings on one
line and the word `from`. -/
def isClause (t : Text) : Bool :=
  t.isEmpty ||
    match Text.after? "from".toList.reverse (t.reverse.dropWhile Text.isBlank) with
    | some back => !(back.dropWhile Text.isBlank).contains '\n'
    | none => false

/-- What follows a statement on its line: nothing but a semicolon. The result is the text after the
line. -/
def afterStatement? (t : Text) : Option Text :=
  let t := t.dropWhile Header.isSpace
  let t := match t with
    | ';' :: r => r.dropWhile Header.isSpace
    | _ => t
  match t with
  | [] => some []
  | c :: r => if c = '\n' then some r else none

/-- The text after the line on which a statement that imports `source` ends, if one starts here. -/
def removed? (source t : Text) : Option Text := do
  let r ← Text.after? "import".toList (t.dropWhile Header.isSpace)
  let clause := r.dropWhile Text.isBlank
  if clause.length = r.length then none
  let tail := clause.dropWhile fun c => !isQuote c
  if !isClause (clause.take (clause.length - tail.length)) then none
  let _ :: quoted := tail | none
  let close :: rest ← Text.after? source quoted | none
  if isQuote close then afterStatement? rest else none

/-- The text without the statements that import `source`. -/
def without (source t : Text) : Text :=
  match t with
  | [] => []
  | c :: r =>
    match removed? source (c :: r) with
    | some rest => if _h : rest.length < (c :: r).length then without source rest else c :: r
    | none =>
      (c :: r).takeWhile (· ≠ '\n') ++
        match _h : (c :: r).dropWhile (· ≠ '\n') with
        | [] => []
        | b :: rest => b :: without source rest
termination_by t.length
decreasing_by
  · exact _h
  · have := (List.dropWhile_suffix (l := c :: r) (fun x => decide (x ≠ '\n'))).length_le
    rw [_h] at this
    simp only [List.length_cons] at this ⊢
    omega

/-- The text of a file with every import of `source` removed. -/
def strip (path : String) (o : StyleOverrides) (source content : Text) : Except EditFault Text := do
  let flat ← flatten path o content
  settle path o (without source flat)

end Import

end ProjectSetup
