import ProjectSetup.Layout.Literal
import ProjectSetup.Text.Blank
import ProjectSetup.Text.Letter

/-!
# Members

What a pair of braces holds, seen from its opening brace. Braces are written on one line unless a
line break directly inside them parts two members that no comma separates, or they span lines and
hold the body of a function. The search reads ahead to the brace that closes them; it knows
strings, template literals and comments, and counts brackets of every kind alike.
-/
namespace ProjectSetup.Members

/-- The text after the string that opened with `quote`; the end of the line ends it too. -/
def skipString (quote : Char) : Text → Text
  | [] => []
  | ['\\'] => []
  | '\\' :: _ :: r => skipString quote r
  | c :: r => if c = '\n' || c = quote then r else skipString quote r

/-- The text after a template literal, inside `nested` braces of a substitution. -/
def skipTemplate : Nat → Text → Text
  | _, [] => []
  | _, ['\\'] => []
  | n, '\\' :: _ :: r => skipTemplate n r
  | 0, '$' :: '{' :: r => skipTemplate 1 r
  | 0, c :: r => if c = '\x60' then r else skipTemplate 0 r
  | n + 1, c :: r =>
    if c = '{' then skipTemplate (n + 2) r
    else if c = '}' then skipTemplate n r
    else skipTemplate (n + 1) r

/-- The text after the literal that `c` opens, if it opens one. -/
def skipLiteral (c : Char) (rest : Text) : Text :=
  if c = '\'' || c = '"' then skipString c rest
  else if c = '\x60' then skipTemplate 0 rest
  else rest

/-- The last character of something that the next name could not continue. -/
def endsOperand (c : Char) : Bool :=
  Text.isAlphanumeric c || ['_', '$', ')', ']', '}', '\'', '"', '\x60'].contains c

def startsOperand (c : Char) : Bool :=
  Text.isAlphanumeric c || ['_', '$', '\'', '"', '#', '@'].contains c

/-- What the search has seen of the braces. -/
structure Seen where
  /-- The brackets that are open, the searched braces among them. -/
  depth : Nat := 1
  /-- The last character that was neither a blank nor in a comment. -/
  last : Char := '{'
  /-- The last two characters were an arrow. -/
  arrow : Bool := false
  /-- A line ended directly inside the braces after the last character. -/
  broken : Bool := false
  /-- The braces span lines. -/
  multiline : Bool := false
  /-- A function body opened inside the braces. -/
  holdsBody : Bool := false

namespace Seen

def lineBreak (s : Seen) : Seen :=
  { s with multiline := true, broken := s.broken || s.depth == 1 }

/-- The line break before `c` parts two members. -/
def parts (s : Seen) (c : Char) : Bool := s.broken && endsOperand s.last && startsOperand c

def closes (s : Seen) (c : Char) : Bool := s.depth ≤ 1 && (c == '}' || c == ')' || c == ']')

def next (s : Seen) (c : Char) : Seen where
  depth :=
    if c = '{' || c = '(' || c = '[' then s.depth + 1
    else if c = '}' || c = ')' || c = ']' then s.depth - 1
    else s.depth
  last := c
  arrow := s.last == '=' && c == '>'
  broken := false
  multiline := s.multiline
  holdsBody := s.holdsBody || (c == '{' && (s.last == ')' || s.arrow))

end Seen

/-- The outcome of the search. -/
inductive Outcome where
  /-- The braces close before `rest`. -/
  | closed (oneLine : Bool) (rest : Text)
  /-- A line break parts two members. -/
  | parted
  /-- The text ends inside the braces. -/
  | unclosed
  deriving DecidableEq, Repr

theorem length_skipString_le (quote : Char) (t : Text) :
    (skipString quote t).length ≤ t.length := by
  fun_induction skipString quote t <;> simp <;> omega

theorem length_skipTemplate_le (n : Nat) (t : Text) :
    (skipTemplate n t).length ≤ t.length := by
  fun_induction skipTemplate n t <;> simp <;> omega

theorem length_skipLiteral_le (c : Char) (t : Text) : (skipLiteral c t).length ≤ t.length := by
  unfold skipLiteral
  split
  · exact length_skipString_le c t
  · split
    · exact length_skipTemplate_le 0 t
    · exact Nat.le_refl _

/-- Search the text for the end of the braces. -/
def search (s : Seen) : Text → Outcome
  | [] => .unclosed
  | c :: r =>
    if c = '\n' then search s.lineBreak r
    else if Text.isBlank c then search s r
    else if c = '/' && r.head? = some '/' then search s (r.dropWhile (· ≠ '\n'))
    else if c = '/' && r.head? = some '*' then
      match _h : Literal.comment? r.tail with
      | none => .unclosed
      | some (body, rest) =>
        search { s with multiline := s.multiline || body.contains '\n' } rest
    else if s.parts c then .parted
    else if s.closes c then .closed (!(s.multiline && s.holdsBody)) r
    else search (s.next c) (skipLiteral c r)
termination_by t => t.length
decreasing_by
  · simp
  · simp
  · have := (List.dropWhile_suffix (l := r) (fun x => decide (x ≠ '\n'))).length_le
    simp only [List.length_cons]
    omega
  · have := congrArg List.length (Literal.comment?_append _h)
    simp only [List.length_tail, List.length_append, List.length_cons] at this ⊢
    omega
  · have := length_skipLiteral_le c r
    simp only [List.length_cons]
    omega

/-- Whether the braces that open before `rest` are written on one line. Braces that never close
are. -/
def onOneLine (rest : Text) : Bool :=
  match search {} rest with
  | .closed oneLine _ => oneLine
  | .parted => false
  | .unclosed => true

end ProjectSetup.Members
