import ProjectSetup.Catalog.Definition
import ProjectSetup.Yaml.Node

/-!
# Manifest files

A manifest file is a YAML mapping with a list of extensions and, if need be, a list of groups.
Every extension has a name and a category. Other keys are ignored.
-/
namespace ProjectSetup

open Yaml (Node)

/-- The texts of a list of scalars. -/
def strings? (n : Node) : Option (List String) := do
  (← n.items?).mapM fun x => x.text?.map String.ofList

namespace Definition

def ofNode? (n : Node) : Option Definition := do
  let fields ← n.fields?
  let name ← (← Node.field? fields "name").bind Node.text?
  let key ← (← Node.field? fields "category").bind Node.text?
  let category ← Category.ofKey? (String.ofList key)
  let dependsOn ← (← Node.field? fields "depends_on").elim (some []) strings?
  let exclusiveTo ← (← Node.field? fields "exclusive_to").elim (some []) strings?
  return { name := String.ofList name, category, dependsOn, exclusiveTo }

end Definition

namespace Manifest

def ofNode? (n : Node) : Option Manifest := do
  let fields ← n.fields?
  let definitions ← (← (← Node.field? fields "extensions").bind Node.items?).mapM Definition.ofNode?
  let groups ← (← Node.field? fields "exclusive_groups").elim (some []) fun v => do
    (← v.items?).mapM strings?
  return { definitions, groups }

/-- The manifest that a file describes. -/
def parse? (yaml : Yaml.Reader) (t : Text) : Option Manifest := do ofNode? (← yaml.node? t)

end Manifest

end ProjectSetup
