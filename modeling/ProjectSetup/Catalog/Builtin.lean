import ProjectSetup.Catalog.Definition
import ProjectSetup.Catalog.Dependency

/-!
# The built-in catalog

The extensions that need no manifest, in the order in which they are applied.
-/
namespace ProjectSetup.Builtin

def react := "React"
def angular := "Angular"
def typeScript := "TypeScript"
def sass := "Sass"
def less := "Less"
def stylus := "Stylus"
def redux := "Redux"
def mobX := "MobX"
def ngRx := "NgRx"
def esLint := "ESLint"
def prettier := "Prettier"
def esLintPrettier := "ESLint Prettier"

def definitions : List Definition := [
  { name := react, category := .frontend, exclusiveTo := [angular] },
  { name := angular, category := .frontend, dependsOn := [typeScript], exclusiveTo := [react] },
  { name := typeScript, category := .language },
  { name := sass, category := .cssPreprocessor },
  { name := less, category := .cssPreprocessor },
  { name := stylus, category := .cssPreprocessor },
  { name := redux, category := .library, dependsOn := [react], exclusiveTo := [mobX] },
  { name := mobX, category := .library, dependsOn := [react], exclusiveTo := [redux] },
  { name := ngRx, category := .library, dependsOn := [angular] },
  { name := esLint, category := .linter },
  { name := prettier, category := .linter },
  { name := esLintPrettier, category := .linter, dependsOn := [esLint, prettier] }]

/-- The manifest of the built-in catalog: one CSS preprocessor at most. -/
def manifest : Manifest := ⟨definitions, [[sass, less, stylus]]⟩

def catalog : Except CatalogFault Catalog := do
  let c ← manifest.link
  match c.consistencyFault? with
  | some f => throw f
  | none => return c

end ProjectSetup.Builtin
