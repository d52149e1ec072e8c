import ProjectSetup.Catalog.Builtin
import ProjectSetup.Catalog.ManifestFile
import ProjectSetup.Layout.StyleFile
import ProjectSetup.Project.Failure
import ProjectSetup.Yaml.Document

/-!
# Settings

Where the style and the catalog of a run come from: a file that is named, a file that the
environment names, or what is built in.
-/
namespace ProjectSetup

def StyleOverrides.read? (t : Text) : Option StyleOverrides := parse? Yaml.reader t

def Manifest.read? (t : Text) : Option Manifest := parse? Yaml.reader t

namespace Settings

/-- The path of the style file. One that is named goes before the one of the environment, and an
empty name counts as none. -/
def stylePath? (named environment : Option String) : Option String :=
  match named with
  | some path => if path.isEmpty then fromEnvironment else some path
  | none => fromEnvironment
where
  fromEnvironment : Option String := do
    let path := Text.trim (← environment).toList
    if path.isEmpty then none else some (String.ofList path)

def readStyle (path : String) : Action StyleOverrides := do
  let s ← Action.query s!"Failed to read style file {path}" (·.readText path)
  match StyleOverrides.read? s with
  | some o => return o
  | none => throw ⟨[s!"Failed to parse style file {path}"], .yaml⟩

/-- The style of a run. -/
def loadStyle (named environment : Option String) : Action StyleOverrides :=
  match stylePath? named environment with
  | some path => readStyle path
  | none => return {}

def readCatalog (path : String) : Action Catalog := do
  let s ← Action.query s!"Failed to read catalog manifest {path}" (·.readText path)
  match Manifest.read? s with
  | none => throw ⟨[s!"Failed to parse catalog manifest {path}"], .yaml⟩
  | some m =>
    Action.within s!"Invalid catalog manifest {path}" do
      let c ← Action.pureOf .catalog m.link
      match c.integrityFault? with
      | some f => Action.fail (.catalog f)
      | none => return c

/-- The catalog of a run: that of a manifest, or the built-in one. -/
def loadCatalog : Option String → Action Catalog
  | some path => readCatalog path
  | none => Action.pureOf .catalog Builtin.catalog

end Settings

end ProjectSetup
