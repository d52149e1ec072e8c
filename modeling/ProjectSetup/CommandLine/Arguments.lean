import ProjectSetup.Catalog.Basic
import ProjectSetup.CommandLine.Options
import ProjectSetup.Import.Basic

/-!
# Arguments

What a command line asks for: a command with its arguments, and a style file.
-/
namespace ProjectSetup

inductive Command where
  /-- Check the catalog and list its extensions. -/
  | catalog (manifest : Option String) (category : Option Category) (hull : Bool)
  /-- Check a selection. -/
  | check (extensions : List String) (manifest : Option String)
  /-- Apply a selection to a project. -/
  | apply (dir : String) (extensions : List String)
  /-- Bring a file, or every script below a directory, into normal form. -/
  | format (path : String)
  | addImport (file : String) (what : Import)
  | removeImport (file source : String)
  | addToArray (file array source : String) (names : List String)
  deriving DecidableEq, Repr

structure Arguments where
  style : Option String := none
  command : Command
  deriving DecidableEq, Repr

/-- What comes of the words of a command line. -/
inductive Request where
  | run (arguments : Arguments)
  | help
  | version
  | refused

namespace Request

def styleOption : OptionSpec := { name := "style" }
def manifestOption : OptionSpec := { name := "manifest" }
def sourceOption : OptionSpec := { name := "source" }
def withOption : OptionSpec := { name := "with", letter := some 'e', arity := .many }
def namedOption : OptionSpec := { name := "named", arity := .many }

/-- The options of a command besides the style file. -/
def options? : String → Option (List OptionSpec)
  | "catalog" =>
    some [manifestOption, { name := "category" }, { name := "hull", arity := .flag }]
  | "check" => some [withOption, manifestOption]
  | "apply" => some [{ name := "dir", letter := some 'd' }, withOption]
  | "format" => some []
  | "add-import" =>
    some [sourceOption, { name := "default" }, namedOption, { name := "namespace" }]
  | "remove-import" => some [sourceOption]
  | "add-to-array" => some [{ name := "array" }, sourceOption, namedOption]
  | _ => none

/-- The command that words ask for, if its arguments are complete. -/
def command? (name : String) (w : Words) : Option Command := do
  let text (s : String) : Text := s.toList
  let needed (option : String) : Option (List String) :=
    if w.has option then some (w.values option) else none
  match name with
  | "catalog" =>
    if !w.plain.isEmpty then none
    let category ← match w.value? "category" with
      | none => some none
      | some key => (Category.ofKey? key).map some
    return .catalog (← w.path? "manifest") category (w.has "hull")
  | "check" =>
    if !w.plain.isEmpty then none
    return .check (← needed "with") (← w.path? "manifest")
  | "apply" =>
    if !w.plain.isEmpty then none
    return .apply ((← w.path? "dir").getD ".") (← needed "with")
  | "format" => return .format (← w.onlyPath?)
  | "add-import" =>
    let file ← w.onlyPath?
    return .addImport file {
      source := text (← w.value? "source")
      binding := (w.value? "default").map text
      names := (w.values "named").map text
      whole := (w.value? "namespace").map text }
  | "remove-import" => return .removeImport (← w.onlyPath?) (← w.value? "source")
  | "add-to-array" =>
    return .addToArray (← w.onlyPath?) (← w.value? "array") (← w.value? "source") (← needed "named")
  | _ => none

/-- Read the words of a command line. A style file may be named before and behind the command; the
one behind it counts. -/
def ofWords (words : List String) : Request :=
  let version : OptionSpec := { name := "version", letter := some 'V', arity := .flag }
  match Words.read? [styleOption, version] true {} words with
  | none => .refused
  | some (outer, rest) =>
    if outer.help then .help
    else if outer.has "version" then .version
    else match outer.plain with
      | ["help"] => .help
      | [name] =>
        let request : Option Request := do
          let (inner, _) ← Words.read? (styleOption :: (← options? name)) false {} rest
          if inner.help then return .help
          let style ← outer.path? "style"
          let style := (← inner.path? "style").or style
          return .run { style, command := ← command? name inner }
        request.getD .refused
      | _ => .refused

end Request

end ProjectSetup
