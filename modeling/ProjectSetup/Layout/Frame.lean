/-!
# Frames

The kinds of open bracket that the layout tells apart, and how a line of output may end.
-/
namespace ProjectSetup

/-- What an open bracket holds. -/
inductive Frame where
  | paren
  /-- Parenthesised markup, which keeps its lines. -/
  | markup
  /-- An expression in braces inside markup. -/
  | markupExpr
  | bracket
  /-- The members of an object, or of an import or export, on one line. -/
  | list
  /-- The members of an object or type that cannot share a line. -/
  | members
  /-- The body of a function, a class or a statement. -/
  | block
  /-- A substitution inside a template literal. -/
  | substitution
  deriving DecidableEq, Repr

namespace Frame

/-- Whether the lines inside the bracket are joined. -/
def joins : Frame → Bool
  | .paren | .bracket | .list => true
  | _ => false

def opener : Frame → Char
  | .paren | .markup => '('
  | .bracket => '['
  | _ => '{'

def closer : Frame → Char
  | .paren | .markup => ')'
  | .bracket => ']'
  | _ => '}'

/-- Whether the lines directly inside the bracket are statements or members. -/
def holdsStatements : Frame → Bool
  | .block | .members => true
  | _ => false

end Frame

/-- How a line of output ends. -/
inductive LineEnd where
  /-- Between statements or members. -/
  | statement
  /-- Inside a string, a template literal or a comment. -/
  | literal
  /-- Anywhere else. -/
  | nested
  deriving DecidableEq, Repr

end ProjectSetup
