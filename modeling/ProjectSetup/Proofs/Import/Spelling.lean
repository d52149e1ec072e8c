import ProjectSetup.Proofs.Import.Completeness
import ProjectSetup.Proofs.Layout.Occurrences

/-!
# Spelled imports

Without blanks, quotes and whatever else a layout puts in and takes out, an import of a module is
spelled with the word `import` or the word `from` right ahead of the module. No layout brings up
such a spelling, and neither does the insertion of an import that does not spell it. Behind a
removal an import of the module is left only where its spelling was left.
-/
namespace ProjectSetup.Import

open Text (essence occurrences)

variable {path : String} {o : StyleOverrides} {source needle c t y : Text} {measure m : Text → Nat}

/-- What an import of `source` may be spelled with. -/
def spellings (source : Text) : List Text :=
  [essence ("import".toList ++ source), essence ("from".toList ++ source)]

end ProjectSetup.Import
