import Mathlib.Data.List.DropRight
import Mathlib.Data.List.TakeWhile
import Mathlib.Tactic.Conv
import ProjectSetup.Text.Blank

/-!
# Blanks at the ends of texts

Trimming takes blanks from one end of a text and leaves the rest. A text that holds blanks only is
told by its parts.
-/
namespace ProjectSetup.Text

@[simp] theorem blank_nil : blank [] = true := rfl

@[simp] theorem blank_cons (c : Char) (t : Text) : blank (c :: t) = (isBlank c && blank t) :=
  List.all_cons

@[simp] theorem blank_append (s t : Text) : blank (s ++ t) = (s.blank && t.blank) := List.all_append

theorem trimStart_cons_blank {c : Char} (hc : isBlank c = true) (t : Text) :
    trimStart (c :: t) = t.trimStart := List.dropWhile_cons_of_pos hc

theorem trimStart_cons {c : Char} (hc : isBlank c = false) (t : Text) :
    trimStart (c :: t) = c :: t := List.dropWhile_cons_of_neg (by simp [hc])

theorem trimStart_append (s t : Text) :
    (s ++ t).trimStart = if s.blank then t.trimStart else s.trimStart ++ t := by
  induction s with
  | nil => rfl
  | cons c s ih =>
    cases hc : isBlank c with
    | true =>
      rw [List.cons_append, trimStart_cons_blank hc, trimStart_cons_blank hc, ih, blank_cons, hc,
        Bool.true_and]
    | false =>
      rw [List.cons_append, trimStart_cons hc, trimStart_cons hc, blank_cons, hc]
      rfl

theorem trimStart_trimStart (t : Text) : t.trimStart.trimStart = t.trimStart :=
  List.dropWhile_idempotent isBlank t

theorem trimEnd_trimEnd (t : Text) : t.trimEnd.trimEnd = t.trimEnd :=
  List.rdropWhile_idempotent isBlank t

/-- Blanks at the end of a text are all that its trimmed form lacks. -/
theorem exists_trimEnd (t : Text) : ∃ s, s.blank = true ∧ t = t.trimEnd ++ s := by
  refine ⟨(t.reverse.takeWhile isBlank).reverse, ?_, ?_⟩
  · rw [blank, List.all_reverse, List.all_eq_true]
    exact fun c hc => List.mem_takeWhile_imp hc
  · rw [trimEnd, ← List.reverse_append, List.takeWhile_append_dropWhile, List.reverse_reverse]

theorem blank_trimEnd (t : Text) : t.trimEnd.blank = t.blank := by
  obtain ⟨s, hs, ht⟩ := exists_trimEnd t
  conv_rhs => rw [ht, blank_append, hs, Bool.and_true]

end ProjectSetup.Text
