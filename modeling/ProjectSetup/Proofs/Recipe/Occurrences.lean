import ProjectSetup.Proofs.Import.Spelling
import ProjectSetup.Proofs.Recipe.Report

/-!
# Occurrences along a run

What occurs in a file is judged edit by edit: an edit of another file leaves it as it is, and one of
the file itself only has to bring up nothing new. What a whole run does to the file is the sum of
what its edits do.
-/
namespace ProjectSetup

open ProjectSetup.Path (place join)
open Text (essence occurrences mentions)

variable {dir : String} {o : StyleOverrides} {measure : Text → Nat} {m n : Nat}
  {c c' c'' : Option Content}

/-- A file is as it was, or its text measures less than before, by `n` at least. -/
def Lowered (measure : Text → Nat) (n : Nat) (c c' : Option Content) : Prop :=
  (n = 0 ∧ c' = c) ∨
    ∃ old new, c = some (.text old) ∧ c' = some (.text new) ∧ measure new + n ≤ measure old

namespace Lowered

theorem refl (measure : Text → Nat) (c : Option Content) : Lowered measure 0 c c := .inl ⟨rfl, rfl⟩

theorem trans (h : Lowered measure m c c') (h' : Lowered measure n c' c'') :
    Lowered measure (m + n) c c'' := by
  rcases h with ⟨rfl, rfl⟩ | ⟨old, new, rfl, rfl, hle⟩
  · rwa [Nat.zero_add]
  rcases h' with ⟨rfl, rfl⟩ | ⟨old', new', hold, rfl, hle'⟩
  · exact .inr ⟨old, new, rfl, rfl, hle⟩
  · cases hold
    exact .inr ⟨old, new', rfl, rfl, by omega⟩

theorem exists_text {old : Text} (h : Lowered measure n (some (.text old)) c') :
    ∃ new, c' = some (.text new) ∧ measure new + n ≤ measure old := by
  rcases h with ⟨rfl, rfl⟩ | ⟨old, new, hold, rfl, hle⟩
  · exact ⟨old, rfl, Nat.le_refl _⟩
  · cases hold
    exact ⟨new, rfl, hle⟩

end Lowered

/-- A short import whose statement neither holds the module nor spells an import of it. -/
structure Import.Avoids (source : Text) (i : Import) : Prop where
  plain : i.Plain
  short : i.statement.length < StyleOverrides.widest
  silent : mentions source i.statement = 0
  harmless : ∀ needle ∈ Import.spellings source, Text.Harmless needle [] (essence i.statement)

namespace Edit

variable {e : Edit} {file : String} {p : Place} {needle old new : Text}

end Edit

namespace Application

variable {es : List (String × Edit)} {t t' : Tree} {p : Place}

end Application

end ProjectSetup
