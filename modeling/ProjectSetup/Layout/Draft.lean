import ProjectSetup.Layout.Fault
import ProjectSetup.Layout.Frame
import ProjectSetup.Layout.Members

/-!
# Drafts

A draft is the part of a script that has been read and written out with its lists joined: lists
in parentheses, brackets and short braces take one line, and everything else keeps its lines. The
draft also holds the brackets that are open and a record of how each line ended. Reading takes one
token at a time; every step leaves less text than it was given.
-/
namespace ProjectSetup

structure Draft where
  /-- The text written so far, last character first. -/
  back : Text := []
  /-- The ends of the lines written so far, last line first. -/
  ends : List LineEnd := []
  /-- The open brackets with the lines they opened on, innermost first. -/
  frames : List (Frame × Nat) := []
  /-- The line of the source that is being read. -/
  line : Nat := 1
  /-- A blank is due before the next token. -/
  pad : Bool := false
  deriving DecidableEq, Repr

namespace Draft

def top? (d : Draft) : Option Frame := d.frames.head?.map (·.1)

/-- Whether the lines at this point are joined. -/
def joins (d : Draft) : Bool := d.top?.any Frame.joins

def inMarkup (d : Draft) : Bool := d.top? == some .markup

def endsWith (d : Draft) (cs : Text) : Bool := d.back.head?.any cs.contains

/-- How a line ends that ends here, outside literals. -/
def lineEnd (d : Draft) : LineEnd :=
  if d.top?.all Frame.holdsStatements then .statement else .nested

def write (d : Draft) (t : Text) : Draft := { d with back := t.reverse ++ d.back }

def breakLine (d : Draft) (e : LineEnd) : Draft :=
  { d with back := '\n' :: d.back, ends := e :: d.ends }

/-- Write the text of a literal, whose line breaks are its own. -/
def copy (d : Draft) : Text → Draft
  | [] => d
  | c :: r => if c = '\n' then (d.breakLine .literal).copy r else (d.write [c]).copy r

/-- Write a blank unless there is one. -/
def space (d : Draft) : Draft := if d.endsWith [' '] then d else d.write [' ']

/-- Write the blank that is due. -/
def settle (d : Draft) : Draft := if d.pad then { d.space with pad := false } else d

/-- Write a token. -/
def token (d : Draft) (t : Text) : Draft := d.settle.write t

/-- Take back the blanks at the end of the line. -/
def retract (d : Draft) : Draft :=
  { d with back := d.back.dropWhile fun c => c == ' ' || c == '\t' }

/-- Count the line breaks of `t` as read. -/
def advance (d : Draft) (t : Text) : Draft := { d with line := d.line + t.count '\n' }

/-- The text written so far without the blanks at its end, last character first. -/
def before (d : Draft) : Text := d.back.dropWhile Text.isBlank

/-- Whether a text, last character first, ends with `word` and not with a longer name. -/
def endsWithWord (back : Text) (word : String) : Bool :=
  match Text.after? word.toList.reverse back with
  | some r => !r.head?.any fun c => Text.isAlphanumeric c || ['_', '$', '.'].contains c
  | none => false

/-- Whether a slash opens a regular expression here, and is no division. -/
def regexAllowed (d : Draft) : Bool :=
  d.before.isEmpty || d.before.head?.any ['(', ',', '=', ':', '[', '!', '&', '|', '?', '{', ';'].contains ||
    ["return", "typeof", "case"].any (endsWithWord d.before)

/-- The words after which a brace opens a list of members. -/
def listWords : List String :=
  ["import", "export", "return", "default", "type", "typeof", "in", "of", "yield", "await"]

/-- Whether a statement so far is a label: a name or a `case`, and a colon. -/
def isLabel (statement : Text) : Bool :=
  match statement.trimStart.reverse with
  | ':' :: back =>
    let name := (back.dropWhile Text.isBlank).reverse
    let isCase := match Text.after? "case".toList back.reverse with
      | some r => !r.head?.any Text.isWord
      | none => false
    let isName := match name with
      | c :: r => (c.isAlpha || c == '_' || c == '$') && r.all fun c => Text.isWord c || c == '$'
      | [] => false
    isCase || isName
  | _ => false

/-- Whether a brace after this draft opens the body of a labelled statement. -/
def opensLabelled (d : Draft) : Bool :=
  d.top?.all (· == .block) &&
    isLabel (d.before.takeWhile fun c => c ≠ '\n' && c ≠ ';' && c ≠ '{' && c ≠ '}').reverse

/-- Whether a brace after this draft opens a list of members, and no body. -/
def opensMembers (d : Draft) : Bool :=
  (Text.after? ['>', '='] d.before).isNone &&
    (d.before.head?.any ['=', ':', '(', ',', '[', '?', '!', '&', '|'].contains ||
      (d.top? == some .markupExpr && d.before.head? == some '{') ||
      listWords.any (endsWithWord d.before))

/-- What a brace opens here, ahead of `rest`. -/
def braceFrame (d : Draft) (rest : Text) : Frame :=
  if d.inMarkup then .markupExpr
  else if d.opensLabelled then .block
  else if !d.opensMembers then .block
  else if Members.onOneLine rest then .list
  else .members

/-- What a parenthesis opens ahead of `rest`: markup if a tag follows. -/
def parenFrame (rest : Text) : Frame :=
  if (rest.dropWhile Text.isBlank).head? = some '<' then .markup else .paren

def isGap (c : Char) : Bool := c == ' ' || c == '\t' || c == '\r' || c == '\n'

/-- Read a run of blanks ahead of `rest`. Joined lines keep one blank of it, and none after an
opening bracket, before a closing one or before a comma. -/
def gap (d : Draft) (run rest : Text) : Draft :=
  let d := d.advance run
  if d.joins then
    if d.endsWith ['(', '['] || rest.head?.all [')', ']', '}', ','].contains then d
    else { d.space with pad := false }
  else
    run.foldl
      (fun d c => if c = '\n' then d.breakLine d.lineEnd else if c = '\r' then d else d.write [c]) d

/-- Read a string. Inside markup only the value of an attribute is one, and it keeps its quote. -/
def string (preferred : Char) (d : Draft) (quote : Char) (rest : Text) :
    Except Fault (Draft × Text) :=
  if d.inMarkup && !d.endsWith ['='] then .ok (d.token [quote], rest)
  else match Literal.string? quote rest with
    | none => .error (.unterminatedString d.line)
    | some (body, rest) =>
      let mark := if d.inMarkup then quote else Literal.requote preferred quote body
      .ok ((((d.token [mark]).copy body).write [mark]).advance body, rest)

/-- Read on inside a template literal; `start` is the line to name if it has no end. -/
def template (d : Draft) (start : Nat) (rest : Text) : Except Fault (Draft × Text) :=
  match Literal.template? rest with
  | none => .error (.unterminatedTemplate start)
  | some (body, .closed, rest) => .ok ((d.copy body).advance body, rest)
  | some (body, .opened, rest) =>
    let d := (d.copy body).advance body
    .ok ({ d with frames := (.substitution, d.line) :: d.frames }, rest)

/-- The text of a comment without its closing marks, so that it can stand inside another. -/
def openMarks : Text → Text
  | [] => []
  | '*' :: '/' :: r => '*' :: ' ' :: '/' :: openMarks r
  | c :: r => c :: openMarks r

/-- Read a comment that runs to the end of the line. On a joined line it is closed. -/
def lineComment (d : Draft) (text : Text) : Draft :=
  if d.joins then d.token ("/* ".toList ++ openMarks text.trim ++ " */".toList)
  else d.token (Text.trimEnd ('/' :: '/' :: text))

def blockComment (d : Draft) (rest : Text) : Except Fault (Draft × Text) :=
  match Literal.comment? rest with
  | none => .error (.unterminatedComment d.line)
  | some (body, rest) => .ok ((d.settle.copy ('/' :: '*' :: body)).advance body, rest)

/-- Read a regular expression and its flags. -/
def regex (d : Draft) (rest : Text) : Except Fault (Draft × Text) :=
  match Literal.regex? false rest with
  | none => .error (.unterminatedRegex d.line)
  | some (body, rest) =>
    .ok (d.token ('/' :: body ++ rest.takeWhile Char.isAlpha), rest.dropWhile Char.isAlpha)

/-- Read a slash: a comment, a regular expression, or a mark of its own. -/
def slash (d : Draft) (rest : Text) : Except Fault (Draft × Text) :=
  if rest.head? = some '/' && !d.inMarkup then
    .ok (d.lineComment (rest.tail.takeWhile (· ≠ '\n')), rest.tail.dropWhile (· ≠ '\n'))
  else if rest.head? = some '*' then d.blockComment rest.tail
  else if !d.inMarkup && d.regexAllowed then d.regex rest
  else .ok (d.token ['/'], rest)

def openFrame (d : Draft) (f : Frame) : Draft :=
  { d.token [f.opener] with frames := (f, d.line) :: d.frames, pad := f == .list }

/-- Take back a comma after the last item of a joined list. -/
def endList (d : Draft) (f : Frame) : Draft :=
  let d := d.retract
  let d := if d.endsWith [','] then { d with back := d.back.tail }.retract else d
  if f = .list && !d.endsWith ['{'] then d.write [' '] else d

/-- Read a closing bracket. After a substitution the template literal goes on. -/
def close (d : Draft) (c : Char) (rest : Text) : Except Fault (Draft × Text) :=
  match d.frames with
  | [] => .error (.unbalancedBracket c d.line)
  | (f, _) :: frames =>
    if f.closer ≠ c then .error (.unbalancedBracket c d.line)
    else
      let d := { d with frames := frames, pad := false }
      let d := (if f.joins then d.endList f else d).write [c]
      if f = .substitution then d.template d.line rest else .ok (d, rest)

def comma (d : Draft) : Draft :=
  if d.joins then { d.retract.write [','] with pad := true } else d.token [',']

/-- Read the token that starts with `c` ahead of `rest`. -/
def step (preferred : Char) (d : Draft) (c : Char) (rest : Text) : Except Fault (Draft × Text) :=
  if isGap c then .ok (d.gap (c :: rest.takeWhile isGap) (rest.dropWhile isGap), rest.dropWhile isGap)
  else if c = '\'' || c = '"' then d.string preferred c rest
  else if c = '\x60' then (d.token [c]).template d.line rest
  else if c = '/' then d.slash rest
  else if c = '(' then .ok (d.openFrame (parenFrame rest), rest)
  else if c = '[' then .ok (d.openFrame .bracket, rest)
  else if c = '{' then .ok (d.openFrame (d.braceFrame rest), rest)
  else if c = ')' || c = ']' || c = '}' then d.close c rest
  else if c = ',' then .ok (d.comma, rest)
  else .ok (d.token [c], rest)

theorem template_length_le {d d' : Draft} {n : Nat} {rest rest' : Text}
    (h : d.template n rest = .ok (d', rest')) : rest'.length ≤ rest.length := by
  unfold template at h
  split at h
  · cases h
  · next ht => cases h; simp [Literal.template?_append ht]
  · next ht => cases h; simp [Literal.template?_append ht]

theorem string_length_le {preferred c : Char} {d d' : Draft} {rest rest' : Text}
    (h : d.string preferred c rest = .ok (d', rest')) : rest'.length ≤ rest.length := by
  unfold string at h
  split at h
  · cases h; exact Nat.le_refl _
  · split at h
    · cases h
    · next hs =>
      cases h
      simp only [Literal.string?_append hs, List.length_append, List.length_cons]
      omega

theorem slash_length_le {d d' : Draft} {rest rest' : Text}
    (h : d.slash rest = .ok (d', rest')) : rest'.length ≤ rest.length := by
  have hdrop (p : Char → Bool) (t : Text) : (t.dropWhile p).length ≤ t.length :=
    (List.dropWhile_suffix p).length_le
  unfold slash at h
  split at h
  · cases h
    exact Nat.le_trans (hdrop _ _) (by simp)
  split at h
  · unfold blockComment at h
    split at h
    · cases h
    · next hs =>
      cases h
      have hlength := congrArg List.length (Literal.comment?_append hs)
      simp only [List.length_tail, List.length_append] at hlength
      omega
  split at h
  · unfold regex at h
    split at h
    · cases h
    · next hs =>
      cases h
      have hlength := congrArg List.length (Literal.regex?_append hs)
      simp only [List.length_append] at hlength
      exact Nat.le_trans (hdrop _ _) (by omega)
  · cases h; exact Nat.le_refl _

theorem close_length_le {d d' : Draft} {c : Char} {rest rest' : Text}
    (h : d.close c rest = .ok (d', rest')) : rest'.length ≤ rest.length := by
  unfold close at h
  split at h
  · cases h
  · split at h
    · cases h
    · simp only at h
      split at h
      · exact template_length_le h
      · cases h; exact Nat.le_refl _

/-- A step leaves less text than it was given. -/
theorem step_length_le {q c : Char} {d d' : Draft} {rest rest' : Text}
    (h : d.step q c rest = .ok (d', rest')) : rest'.length ≤ rest.length := by
  unfold step at h
  split at h
  · cases h; exact (List.dropWhile_suffix isGap).length_le
  split at h
  · exact string_length_le h
  split at h
  · exact template_length_le h
  split at h
  · exact slash_length_le h
  split at h
  · cases h; exact Nat.le_refl _
  split at h
  · cases h; exact Nat.le_refl _
  split at h
  · cases h; exact Nat.le_refl _
  split at h
  · exact close_length_le h
  split at h
  · cases h; exact Nat.le_refl _
  · cases h; exact Nat.le_refl _

/-- Read the whole text onto the draft. -/
def read (preferred : Char) (d : Draft) : Text → Except Fault Draft
  | [] => .ok d
  | c :: rest =>
    match _h : d.step preferred c rest with
    | .error e => .error e
    | .ok (d', rest') => read preferred d' rest'
termination_by t => t.length
decreasing_by
  have := step_length_le _h
  simp only [List.length_cons]
  omega

/-- The text of the draft, first character first. -/
def text (d : Draft) : Text := d.back.reverse

/-- The ends of the lines of the draft, first line first; the last line ends a statement. -/
def lineEnds (d : Draft) : List LineEnd := (LineEnd.statement :: d.ends).reverse

/-- Join the lists of a script. Every bracket has to be closed at its end. -/
def collapse (preferred : Char) (source : Text) : Except Fault Draft :=
  match read preferred {} source with
  | .error e => .error e
  | .ok d =>
    match d.frames with
    | [] => .ok d
    | (f, n) :: _ => .error (.unclosedBracket f.opener n)

end Draft

end ProjectSetup
