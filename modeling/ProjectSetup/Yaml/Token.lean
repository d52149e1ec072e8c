import ProjectSetup.Text.Basic

/-!
# Tokens

The tokens of a YAML document: indicators, scalars, and marks where a block begins and ends. Blocks
follow from indentation. A scalar becomes a key when the colon after it is read, so the tokens of
the block and the key are put in front of what has been read since.

Anchors, tags, directives and block scalars are not part of this subset and are refused.
-/
namespace ProjectSetup.Yaml

inductive Token where
  | documentStart
  | documentEnd
  | blockSequence
  | blockMapping
  | blockEnd
  | flowSequence
  | flowSequenceEnd
  | flowMapping
  | flowMappingEnd
  | entry
  | comma
  | key
  | value
  | scalar (plain : Bool) (text : Text)
  deriving DecidableEq, Repr

def isBreak (c : Char) : Bool :=
  c == '\n' || c == '\r' || c == '\u0085' || c == '\u2028' || c == '\u2029'

def isSpace (c : Char) : Bool := c == ' ' || c == '\t'

def isGap (c : Char) : Bool := isSpace c || isBreak c

/-- The characters that a document may hold. -/
def isPrintable (c : Char) : Bool :=
  let n := c.toNat
  n == 9 || n == 10 || n == 13 || (0x20 ≤ n && n ≤ 0x7E) || n == 0x85 ||
    (0xA0 ≤ n && n ≤ 0xFFFD && n != 0xFEFF) || 0x10000 ≤ n

/-- Whether a blank, a line break or the end of the text comes next. -/
def gapAhead (t : Text) : Bool := t.head?.all isGap

/-- Whether the text begins with the marker of a document. -/
def markerAhead (marker : Char) (t : Text) : Bool :=
  t.take 3 == [marker, marker, marker] && gapAhead (t.drop 3)

/-- The line breaks of a run of blanks, each in its usual form. -/
def breaks : Text → Text
  | [] => []
  | '\r' :: '\n' :: r => '\n' :: breaks r
  | c :: r =>
    if c == '\u2028' || c == '\u2029' then c :: breaks r
    else if isBreak c then '\n' :: breaks r
    else breaks r

/-- What a run of blanks inside a scalar stands for: itself on one line, and over lines a blank or
the line breaks after the first. -/
def fold (run : Text) : Text :=
  match breaks run with
  | [] => run
  | ['\n'] => [' ']
  | '\n' :: bs => bs
  | bs => bs

/-- Whether a run of blanks goes over lines. -/
def overLines (run : Text) : Bool := run.any isBreak

/-- The column after a run of blanks that goes over lines. -/
def columnAfter (run : Text) : Nat := (run.reverse.takeWhile fun c => !isBreak c).length

/-- Whether a tab stands among the first `indent` columns of a line after the first. -/
def tabInIndent (indent : Nat) : Text → Bool
  | [] => false
  | c :: r =>
    if isBreak c then
      ((r.takeWhile isSpace).take indent).contains '\t' || tabInIndent indent r
    else tabInIndent indent r

def isFlowIndicator (c : Char) : Bool := [',', '[', ']', '{', '}'].contains c

/-- A stretch of a plain scalar without blanks. -/
def plainWord (flow : Bool) : Text → Text
  | [] => []
  | c :: r =>
    if isGap c || (c == ':' && gapAhead r) || (flow && isFlowIndicator c) then []
    else c :: plainWord flow r

/-- In a flow collection a colon must not stand against an indicator. -/
def strayColon (flow : Bool) : Text → Bool
  | [] => false
  | c :: r =>
    flow && c == ':' && r.head?.any (fun d => isFlowIndicator d || d == '?') || strayColon flow r

/-- A plain scalar, the text after it and the blanks it ran into, and whether those go over
lines. It goes on in a line that is indented by `indent` or stands in a flow collection. -/
def plain? (flow : Bool) (indent : Nat) (t : Text) : Option (Text × Text × Bool) :=
  let word := plainWord flow t
  let rest := t.drop word.length
  if strayColon flow (word ++ rest.take 1) then none
  else
    let run := rest.takeWhile isGap
    let after := rest.dropWhile isGap
    if tabInIndent indent run then none
    else if word.isEmpty || run.isEmpty || after.head? == some '#' ||
        (overLines run &&
          ((!flow && columnAfter run < indent) || (columnAfter run == 0 &&
            (markerAhead '-' after || markerAhead '.' after)))) ||
        (plainWord flow after).isEmpty then
      some (word, after, overLines run)
    else if _h : after.length < t.length then do
      let (more, after, broken) ← plain? flow indent after
      return (word ++ fold run ++ more, after, broken)
    else none
termination_by t.length

/-- The value of `n` hexadecimal digits, and the text after them. -/
def hex? (n : Nat) (t : Text) : Option (Char × Text) := do
  let digits := t.take n
  if digits.length < n then none
  let code ← digits.foldlM (fun v c => do
    let d ← if c.isDigit then some (c.toNat - '0'.toNat)
      else if 'a' ≤ c ∧ c ≤ 'f' then some (c.toNat - 'a'.toNat + 10)
      else if 'A' ≤ c ∧ c ≤ 'F' then some (c.toNat - 'A'.toNat + 10)
      else none
    return 16 * v + d) 0
  if code.isValidChar then some (Char.ofNat code, t.drop n) else none

/-- What stands for a character after a backslash, and the text after it. -/
def escape? : Text → Option (Char × Text)
  | [] => none
  | c :: r =>
    match c with
    | '0' => some ('\x00', r)
    | 'a' => some ('\x07', r)
    | 'b' => some ('\x08', r)
    | 't' | '\t' => some ('\t', r)
    | 'n' => some ('\n', r)
    | 'v' => some ('\x0B', r)
    | 'f' => some ('\x0C', r)
    | 'r' => some ('\r', r)
    | 'e' => some ('\x1B', r)
    | ' ' | '"' | '/' | '\\' => some (c, r)
    | 'N' => some ('\u0085', r)
    | '_' => some ('\u00A0', r)
    | 'L' => some ('\u2028', r)
    | 'P' => some ('\u2029', r)
    | 'x' => hex? 2 r
    | 'u' => hex? 4 r
    | 'U' => hex? 8 r
    | _ => none

/-- The text after one line break. -/
def afterBreak : Text → Text
  | '\r' :: '\n' :: r => r
  | _ :: r => r
  | [] => []

/-- The text of a quoted scalar up to its closing quote, and the text after the quote. Within a
line of its own it must not look like the marker of a document. -/
def quoted? (quote : Char) (t : Text) : Option (Text × Text) :=
  match t with
  | [] => none
  | c :: r =>
    let go (text rest : Text) : Option (Text × Text) :=
      if _h : rest.length ≤ r.length then
        (quoted? quote rest).map fun (more, rest) => (text ++ more, rest)
      else none
    if isGap c then
      let run := c :: r.takeWhile isGap
      let after := r.dropWhile isGap
      if overLines run && columnAfter run == 0 && (markerAhead '-' after || markerAhead '.' after)
      then none
      else go (fold run) after
    else if quote == '\'' && c == '\'' && r.head? == some '\'' then go ['\''] r.tail
    else if c == quote then some ([], r)
    else if quote == '"' && c == '\\' then
      if r.head?.any isBreak then
        let run := (afterBreak r).takeWhile isGap
        let after := (afterBreak r).dropWhile isGap
        if columnAfter (r.take 1 ++ run) == 0 && (markerAhead '-' after || markerAhead '.' after)
        then none
        else go (breaks run) after
      else match escape? r with
        | some (d, rest) => go [d] rest
        | none => none
    else go [c] r
termination_by t.length
decreasing_by exact Nat.lt_succ_of_le _h

/-- A scalar or flow collection that a colon may turn into a key. -/
structure PossibleKey where
  /-- The number of tokens before it. -/
  position : Nat
  line : Nat
  column : Nat
  /-- The number of characters before it. -/
  offset : Nat
  /-- It stands where only a key can. -/
  required : Bool

/-- How far a document has been scanned. -/
structure Scan where
  /-- The tokens so far, last first. -/
  tokens : List Token := []
  line : Nat := 0
  column : Nat := 0
  offset : Nat := 0
  /-- The columns of the open blocks, innermost first. -/
  indents : List Nat := []
  /-- The possible key of the innermost collection. -/
  candidate : Option PossibleKey := none
  /-- The possible keys of the collections around the innermost flow collection. -/
  outer : List (Option PossibleKey) := []
  /-- A key may start here. -/
  keyAllowed : Bool := true

namespace Scan

def inFlow (s : Scan) : Bool := !s.outer.isEmpty

/-- Count the text as scanned. -/
def move (s : Scan) : Text → Scan
  | [] => s
  | '\r' :: '\n' :: r =>
    { s with line := s.line + 1, column := 0, offset := s.offset + 2 }.move r
  | c :: r =>
    if isBreak c then { s with line := s.line + 1, column := 0, offset := s.offset + 1 }.move r
    else { s with column := s.column + 1, offset := s.offset + 1 }.move r

def emit (s : Scan) (t : Token) : Scan := { s with tokens := t :: s.tokens }

/-- Put a token in front of all but the first `position` tokens. -/
def insert (s : Scan) (position : Nat) (t : Token) : Scan :=
  let n := s.tokens.length - position
  { s with tokens := s.tokens.take n ++ t :: s.tokens.drop n }

/-- Skip blanks and comments ahead of a token. A line break lets a key start again. -/
def gap (s : Scan) (inComment : Bool) : Text → Scan × Text
  | [] => (s, [])
  | '\r' :: '\n' :: r =>
    gap { s.move ['\r', '\n'] with keyAllowed := s.keyAllowed || !s.inFlow } false r
  | c :: r =>
    if isBreak c then gap { s.move [c] with keyAllowed := s.keyAllowed || !s.inFlow } false r
    else if inComment || c == ' ' || (c == '\t' && (s.inFlow || !s.keyAllowed)) then
      gap (s.move [c]) inComment r
    else if c == '#' then gap (s.move [c]) true r
    else (s, c :: r)

/-- Give up the possible key, unless it has to be one. -/
def dropKey? (s : Scan) : Option Scan :=
  if s.candidate.any (·.required) then none else some { s with candidate := none }

/-- What is about to be scanned may become a key, where one is allowed. -/
def saveKey? (s : Scan) : Option Scan :=
  if s.keyAllowed then do
    let required := !s.inFlow && s.indents.head? == some s.column
    let s ← s.dropKey?
    return { s with candidate := some ⟨s.tokens.length, s.line, s.column, s.offset, required⟩ }
  else some s

/-- A key ends on the line it started on, within 1024 characters. -/
def refresh? (s : Scan) (k : Option PossibleKey) : Option (Option PossibleKey) :=
  match k with
  | none => some none
  | some k =>
    if k.line < s.line || k.offset + 1024 < s.offset then
      if k.required then none else some none
    else some (some k)

/-- Give up every possible key that is past its end. -/
def refreshKeys? (s : Scan) : Option Scan := do
  let candidate ← s.refresh? s.candidate
  let outer ← s.outer.mapM s.refresh?
  return { s with candidate, outer }

/-- End the blocks that are indented further than `column`, or all of them. -/
def unroll (s : Scan) (column : Option Nat) : Scan :=
  if s.inFlow then s
  else
    let ended := s.indents.takeWhile fun i => column.all (· < i)
    { s with
      tokens := ended.map (fun _ => Token.blockEnd) ++ s.tokens
      indents := s.indents.drop ended.length }

/-- Begin a block at a column that is indented further than the open ones. -/
def roll (s : Scan) (column position : Nat) (t : Token) : Scan :=
  if s.inFlow || !s.indents.head?.all (· < column) then s
  else { s with indents := column :: s.indents }.insert position t

/-- Scan `text` as the token `t`. -/
def take (s : Scan) (t : Token) (text : Text) : Scan := (s.emit t).move text

/-- The marker of a document ends every block. -/
def document? (s : Scan) (t : Token) (text : Text) : Option Scan := do
  let s ← (s.unroll none).dropKey?
  return { s with keyAllowed := false }.take t text

def openFlow? (s : Scan) (t : Token) (c : Char) : Option Scan := do
  let s ← s.saveKey?
  return { s with candidate := none, outer := s.candidate :: s.outer, keyAllowed := true }.take t [c]

def closeFlow? (s : Scan) (t : Token) (c : Char) : Option Scan := do
  let s ← s.dropKey?
  let s := match s.outer with
    | k :: ks => { s with candidate := k, outer := ks }
    | [] => s
  return { s with keyAllowed := false }.take t [c]

def comma? (s : Scan) : Option Scan := do
  let s ← s.dropKey?
  return { s with keyAllowed := true }.take .comma [',']

/-- Begin a block of the kind `t` here if none is open at this column. -/
def block? (s : Scan) (t : Token) : Option Scan :=
  if s.inFlow then some s
  else if s.keyAllowed then some (s.roll s.column s.tokens.length t)
  else none

def item? (s : Scan) : Option Scan := do
  let s ← s.block? .blockSequence
  let s ← s.dropKey?
  return { s with keyAllowed := true }.take .entry ['-']

def key? (s : Scan) : Option Scan := do
  let s ← s.block? .blockMapping
  let s ← s.dropKey?
  return { s with keyAllowed := !s.inFlow }.take .key ['?']

/-- A colon turns the possible key before it into a key. -/
def value? (s : Scan) : Option Scan :=
  match s.candidate with
  | some k =>
    let s := (s.insert k.position .key).roll k.column k.position .blockMapping
    some ({ s with candidate := none, keyAllowed := false }.take .value [':'])
  | none => do
    let s ← s.block? .blockMapping
    return { s with keyAllowed := !s.inFlow }.take .value [':']

/-- The characters that a plain scalar cannot start with. -/
def isIndicator (c : Char) : Bool :=
  ['\t', '-', '?', ':', ',', '[', ']', '{', '}', '#', '&', '*', '!', '|', '>', '\'', '"', '%', '@',
    '\x60'].contains c

/-- Scan the token that starts with `c`. -/
def step? (s : Scan) (c : Char) (rest : Text) : Option (Scan × Text) :=
  let one (s : Option Scan) : Option (Scan × Text) := s.map (·, rest)
  if s.column == 0 && markerAhead '-' (c :: rest) then
    (s.document? .documentStart ['-', '-', '-']).map (·, rest.drop 2)
  else if s.column == 0 && markerAhead '.' (c :: rest) then
    (s.document? .documentEnd ['.', '.', '.']).map (·, rest.drop 2)
  else if c == '[' then one (s.openFlow? .flowSequence c)
  else if c == '{' then one (s.openFlow? .flowMapping c)
  else if c == ']' then one (s.closeFlow? .flowSequenceEnd c)
  else if c == '}' then one (s.closeFlow? .flowMappingEnd c)
  else if c == ',' then one s.comma?
  else if c == '-' && gapAhead rest then one s.item?
  else if c == '?' && (s.inFlow || gapAhead rest) then one s.key?
  else if c == ':' && (s.inFlow || gapAhead rest) then one s.value?
  else if c == '\'' || c == '"' then do
    let s ← s.saveKey?
    let (text, after) ← quoted? c rest
    let whole := c :: rest
    return ({ s with keyAllowed := false }.take (.scalar false text)
      (whole.take (whole.length - after.length)), after)
  else if !isIndicator c || c == '-' || (!s.inFlow && (c == '?' || c == ':')) then do
    let s ← s.saveKey?
    let whole := c :: rest
    let (text, after, broken) ← plain? s.inFlow (s.indents.head?.elim 0 (· + 1)) whole
    return ({ s with keyAllowed := broken }.take (.scalar true text)
      (whole.take (whole.length - after.length)), after)
  else none

/-- The tokens of the text after what has been scanned. Every token takes some of the text. -/
def run? (s : Scan) (t : Text) : Option (List Token) := do
  let (s, ahead) := s.gap false t
  let s ← s.refreshKeys?
  match ahead with
  | [] => (s.unroll none).dropKey?.map (·.tokens.reverse)
  | c :: rest =>
    let (s, after) ← (s.unroll (some s.column)).step? c rest
    if _h : after.length < t.length then run? s after else none
termination_by t.length

end Scan

/-- The tokens of a text. A byte order mark may come first. -/
def tokens? (t : Text) : Option (List Token) :=
  let t := match t with
    | '\uFEFF' :: r => r
    | _ => t
  if t.all isPrintable then Scan.run? {} t else none

end ProjectSetup.Yaml
