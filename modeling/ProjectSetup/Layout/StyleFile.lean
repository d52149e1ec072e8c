import ProjectSetup.Layout.Style
import ProjectSetup.Text.Blank
import ProjectSetup.Yaml.Node

/-!
# Style files

A style file is a YAML mapping from options to their values. Options that it leaves out or sets to
null stay open, and a file of blanks sets none. Other keys are ignored.
-/
namespace ProjectSetup.StyleOverrides

def ofNode? (yaml : Yaml.Reader) (n : Yaml.Node) : Option StyleOverrides := do
  let fields ← n.fields?
  let singleQuote ← yaml.optionalField? fields "singleQuote" yaml.bool?
  let semi ← yaml.optionalField? fields "semi" yaml.bool?
  let trailingComma ← yaml.optionalField? fields "trailingComma" fun v =>
    v.text?.bind fun t => TrailingComma.ofName? (String.ofList t)
  let printWidth ← yaml.optionalField? fields "printWidth" yaml.nat?
  return { singleQuote, semi, trailingComma, printWidth }

/-- The style that a style file sets. -/
def parse? (yaml : Yaml.Reader) (t : Text) : Option StyleOverrides :=
  if t.blank then some {} else do ofNode? yaml (← yaml.node? t)

end ProjectSetup.StyleOverrides
