import ProjectSetup.Text.Basic

/-!
# Options

The words of a command line, read as options with their values and as words that stand for
themselves. An option is written out behind two dashes or as one letter behind one dash; its value
follows an equals sign, the letter, or as the next word, which must not look like an option.
-/
namespace ProjectSetup

/-- How often an option may be given, and whether it takes a value. -/
inductive Arity where
  | flag
  | single
  | many
  deriving DecidableEq, Repr

structure OptionSpec where
  name : String
  letter : Option Char := none
  arity : Arity := .single

/-- An option that was given, and its value. -/
structure Given where
  spec : OptionSpec
  value : String := ""

/-- Words that were read. -/
structure Words where
  options : List Given := []
  plain : List String := []
  /-- Help was asked for. -/
  help : Bool := false

namespace Words

def looksLikeOption (word : String) : Bool :=
  match word.toList with
  | '-' :: _ :: _ => true
  | _ => false

/-- Note an option; only one of `many` may be given twice. -/
def give? (w : Words) (spec : OptionSpec) (value : String) : Option Words :=
  if spec.arity != .many && w.options.any (·.spec.name == spec.name) then none
  else some { w with options := w.options ++ [⟨spec, value⟩] }

/-- Note an option that takes the next word as its value. -/
def giveNext? (w : Words) (spec : OptionSpec) : List String → Option (Words × List String)
  | [] => none
  | v :: rest => if looksLikeOption v then none else (w.give? spec v).map (·, rest)

/-- Read an option that is written out. -/
def long? (specs : List OptionSpec) (w : Words) (word : Text) (rest : List String) :
    Option (Words × List String) :=
  let name := word.takeWhile (· ≠ '=')
  let value := word.drop name.length
  if name == "help".toList && value.isEmpty then some ({ w with help := true }, rest)
  else do
    let spec ← specs.find? (·.name.toList == name)
    match spec.arity, value with
    | .flag, [] => (w.give? spec "").map (·, rest)
    | .flag, _ :: _ => none
    | _, '=' :: v => (w.give? spec (String.ofList v)).map (·, rest)
    | _, _ => w.giveNext? spec rest

/-- Read options that are written as letters. -/
def letters? (specs : List OptionSpec) (w : Words) (word : Text) (rest : List String) :
    Option (Words × List String) :=
  match word with
  | [] => some (w, rest)
  | c :: r =>
    if c = 'h' then some ({ w with help := true }, rest)
    else do
      let spec ← specs.find? (·.letter == some c)
      match spec.arity, r with
      | .flag, _ => letters? specs (← w.give? spec "") r rest
      | _, [] => w.giveNext? spec rest
      | _, '=' :: v => (w.give? spec (String.ofList v)).map (·, rest)
      | _, v => (w.give? spec (String.ofList v)).map (·, rest)

/-- Read words up to the first plain one, or all of them. Nothing is read behind a plea for help,
and every word behind two dashes is plain. -/
def read? (specs : List OptionSpec) (stopAtPlain : Bool) (w : Words) (words : List String) :
    Option (Words × List String) :=
  match words with
  | [] => some (w, [])
  | word :: rest =>
    if word == "--" then some ({ w with plain := w.plain ++ rest }, [])
    else if looksLikeOption word then do
      let (w, rest') ← match word.toList with
        | '-' :: '-' :: name => long? specs w name rest
        | _ :: letters => letters? specs w letters rest
        | [] => none
      if w.help then some (w, rest')
      else if _h : rest'.length ≤ rest.length then read? specs stopAtPlain w rest'
      else none
    else if stopAtPlain then some ({ w with plain := [word] }, rest)
    else read? specs stopAtPlain { w with plain := w.plain ++ [word] } rest
termination_by words.length

/-- The value of an option that is given once at most. -/
def value? (w : Words) (name : String) : Option String :=
  (w.options.find? (·.spec.name == name)).map (·.value)

def has (w : Words) (name : String) : Bool := (w.value? name).isSome

/-- The values of an option, each of them split at its commas. -/
def values (w : Words) (name : String) : List String :=
  (w.options.filter (·.spec.name == name)).flatMap fun g =>
    (Text.splitOn ',' g.value.toList).map String.ofList

/-- The value of an option that names a file, which must not be empty. -/
def path? (w : Words) (name : String) : Option (Option String) :=
  match w.value? name with
  | some "" => none
  | v => some v

/-- The only plain word, which names a file. -/
def onlyPath? (w : Words) : Option String :=
  match w.plain with
  | [path] => if path.isEmpty then none else some path
  | _ => none

end Words

end ProjectSetup
