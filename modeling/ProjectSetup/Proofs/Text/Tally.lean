import Mathlib.Algebra.GroupWithZero.Nat
import ProjectSetup.Proofs.Text.Blank
import ProjectSetup.Proofs.Text.Occurrences

/-!
# Tallies

Things that are counted in a text and go over none of certain characters. The parts of a text hold
no more of them than the whole, and cut at such a character the text holds them part by part. The
occurrences of a text are counted so, also when carriage returns are left out.
-/
namespace ProjectSetup.Text

variable {apart : Char → Prop} {m : Text → Nat} {needle : Text} {c : Char}

/-- A number of things in a text, none of which goes over a character of the kind `apart`. -/
structure Tally (apart : Char → Prop) (m : Text → Nat) : Prop where
  append_le : ∀ s t, m s + m t ≤ m (s ++ t)
  parted : ∀ {c}, apart c → ∀ s t, m (s ++ c :: t) = m s + m t

namespace Tally

theorem nil (h : Tally apart m) : m [] = 0 := by
  have hle := h.append_le [] []
  rw [List.append_nil] at hle
  omega

theorem left_le (h : Tally apart m) (s t : Text) : m s ≤ m (s ++ t) :=
  (Nat.le_add_right _ _).trans (h.append_le s t)

theorem of_prefix (h : Tally apart m) {s t : Text} (hp : s <+: t) : m s ≤ m t := by
  obtain ⟨u, rfl⟩ := hp
  exact h.left_le s u

theorem cons (h : Tally apart m) (hc : apart c) (t : Text) : m (c :: t) = m t := by
  rw [← List.nil_append (c :: t), h.parted hc, h.nil, Nat.zero_add]

theorem concat (h : Tally apart m) (hc : apart c) (s : Text) : m (s ++ [c]) = m s := by
  rw [h.parted hc, h.nil, Nat.add_zero]

end Tally

/-- The number of places at which `needle` stands in a text if carriage returns are left out. -/
def mentions (needle t : Text) : Nat := occurrences needle (t.filter (· ≠ '\r'))

end ProjectSetup.Text
