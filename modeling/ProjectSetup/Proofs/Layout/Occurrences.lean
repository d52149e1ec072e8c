import Mathlib.Algebra.Order.BigOperators.Group.List
import Mathlib.Algebra.Order.Group.Nat
import ProjectSetup.Proofs.Layout.Loss
import ProjectSetup.Proofs.Layout.Tidying
import ProjectSetup.Proofs.Text.Tally

/-!
# What a layout does to occurrences

A layout copies the text between its marks and never joins two pieces of it, but where carriage
returns were. So what is counted between the marks, and without carriage returns, only gets less:
each step of reading leaves no more of it in the draft and the rest of the source, and finishing
goes line by line.
-/
namespace ProjectSetup

open Text (Tally essence occurrences mentions)

/-- The characters that a layout puts in and takes out, carriage returns apart, and those that it
puts them at. -/
def layoutMarks : Text := [' ', '\n', '(', '[', '{', ')', ']', '}', ',', ';', '\'', '"', '*']

/-- A number of things that no layout makes: they go over none of its marks, a slash alone is none
of them, and carriage returns do not count. -/
structure Inert (m : Text → Nat) : Prop extends Tally (· ∈ layoutMarks) m where
  slash : m ['/'] = 0
  return_eq : ∀ s t, m (s ++ '\r' :: t) = m (s ++ t)

variable {m : Text → Nat} {apart : Char → Prop} {needle : Text}

/-- Carriage returns can be left out of a part of the text. -/
theorem Inert.filter_eq (h : Inert m) (s run t : Text) :
    m (s ++ (run.filter (· ≠ '\r') ++ t)) = m (s ++ (run ++ t)) := by
  induction run generalizing s with
  | nil => rfl
  | cons c run ih =>
    by_cases hc : c = '\r'
    · rw [hc, List.filter_cons_of_neg (by simp), List.cons_append, h.return_eq, ih]
    · rw [List.filter_cons_of_pos (by simpa using hc)]
      simpa using ih (s ++ [c])

namespace Draft

variable {q c : Char} {d d' e : Draft} {n : Nat} {rest rest' : Text}

section Steps

variable (h : Inert m)

include h

end Steps

end Draft

namespace Lines

section Finishing

variable (h : Inert m)

include h

end Finishing

end Lines

end ProjectSetup
