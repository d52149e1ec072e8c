import Mathlib.Data.List.Infix
import Mathlib.Data.List.Perm.Subperm
import ProjectSetup.Text.Basic

/-!
# Occurrences

How often one text occurs in another. An occurrence in a text of two parts lies in one of them or
begins in the first and ends in the second. Where a part is replaced that ends and begins like the
searched text does whenever the new part does, occurrences only get lost, and one at least if the
replaced part was one.
-/
namespace ProjectSetup.Text

variable {needle old new s t u : Text}

/-- The number of places of a text at which `needle` begins. -/
def occurrences (needle t : Text) : Nat := t.tails.countP needle.isPrefixOf

/-- The ends of `s` with which an occurrence begins that may go on in `t`. -/
def starts (needle s t : Text) : List Text :=
  s.tails.filter fun u => decide (u ≠ [] ∧ needle <+: u ++ t)

/-- The text `new` in place of `old` is in no occurrence but those that `old` was in. -/
structure Harmless (needle old new : Text) : Prop where
  apart : ¬ needle <:+: new
  long : ¬ new <:+: needle
  front : ∀ u v, needle = u ++ v → u ≠ [] → v ≠ [] → v <+: new → v <+: old
  back : ∀ u v, needle = u ++ v → u ≠ [] → v ≠ [] → u <:+ new → u <:+ old

/-- It is enough to try each cut of the searched text. -/
theorem harmless_iff : Harmless needle old new ↔ ¬ needle <:+: new ∧ ¬ new <:+: needle ∧
    ∀ k < needle.length, 0 < k → (needle.drop k <+: new → needle.drop k <+: old) ∧
      (needle.take k <:+ new → needle.take k <:+ old) := by
  constructor
  · rintro ⟨apart, long, front, back⟩
    refine ⟨apart, long, fun k hk hpos => ?_⟩
    have hcut := (List.take_append_drop k needle).symm
    have hu : needle.take k ≠ [] := List.ne_nil_of_length_pos (by rw [List.length_take]; omega)
    have hv : needle.drop k ≠ [] := List.ne_nil_of_length_pos (by rw [List.length_drop]; omega)
    exact ⟨front _ _ hcut hu hv, back _ _ hcut hu hv⟩
  · rintro ⟨apart, long, h⟩
    have hcut {u v : Text} (hneedle : needle = u ++ v) (hu : u ≠ []) (hv : v ≠ []) :
        (v <+: new → v <+: old) ∧ (u <:+ new → u <:+ old) := by
      have hpos := List.length_pos_of_ne_nil hv
      have h := h u.length (by rw [hneedle, List.length_append]; omega) (List.length_pos_of_ne_nil hu)
      rwa [hneedle, List.take_left, List.drop_left] at h
    exact ⟨apart, long, fun u v hneedle hu hv => (hcut hneedle hu hv).1,
      fun u v hneedle hu hv => (hcut hneedle hu hv).2⟩

instance (needle old new : Text) : Decidable (Harmless needle old new) :=
  decidable_of_iff' _ harmless_iff

namespace Harmless

theorem ne_nil (h : Harmless needle old new) : needle ≠ [] := by
  rintro rfl
  exact h.apart List.nil_infix

end Harmless

end ProjectSetup.Text
