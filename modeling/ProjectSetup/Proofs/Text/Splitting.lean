import Mathlib.Data.List.Basic
import ProjectSetup.Text.Basic

/-!
# Splitting and joining

Pieces between separators hold none of them, so that joined pieces are found again by splitting,
and a text has one piece more than separators. A filter that drops the separator sees the same
characters in the text and in its pieces.
-/
namespace ProjectSetup

namespace Text

variable {sep : Char}

theorem splitOn_cons_of_ne {c : Char} (h : c ≠ sep) (t : Text) :
    ∃ p ps, splitOn sep t = p :: ps ∧ splitOn sep (c :: t) = (c :: p) :: ps := by
  cases hs : splitOn sep t with
  | nil => exact absurd hs (splitOn_ne_nil sep t)
  | cons p ps =>
    refine ⟨p, ps, rfl, ?_⟩
    rw [splitOn, if_neg h, hs]

theorem not_mem_of_mem_splitOn {t p : Text} (h : p ∈ splitOn sep t) : sep ∉ p := by
  induction t generalizing p with
  | nil =>
    rw [List.mem_singleton.1 h]
    exact List.not_mem_nil
  | cons c t ih =>
    by_cases hc : c = sep
    · rw [splitOn, if_pos hc] at h
      rcases List.mem_cons.1 h with rfl | h
      · exact List.not_mem_nil
      · exact ih h
    · obtain ⟨q, qs, ht, hct⟩ := splitOn_cons_of_ne hc t
      rw [hct] at h
      rcases List.mem_cons.1 h with rfl | h
      · have hq : sep ∉ q := ih (by rw [ht]; exact List.mem_cons_self)
        simpa [Ne.symm hc] using hq
      · exact ih (by rw [ht]; exact List.mem_cons_of_mem q h)

theorem splitOn_of_not_mem {t : Text} (h : sep ∉ t) : splitOn sep t = [t] := by
  induction t with
  | nil => rfl
  | cons c t ih =>
    rw [List.mem_cons, not_or] at h
    rw [splitOn, if_neg (Ne.symm h.1), ih h.2]

/-- Splitting at one separator leaves the pieces of both sides. -/
theorem splitOn_append_cons (s t : Text) :
    splitOn sep (s ++ sep :: t) = splitOn sep s ++ splitOn sep t := by
  induction s with
  | nil => simp [splitOn]
  | cons c s ih =>
    by_cases hc : c = sep
    · rw [List.cons_append, splitOn, if_pos hc, ih, splitOn, if_pos hc, List.cons_append]
    · obtain ⟨p, ps, hs, hcs⟩ := splitOn_cons_of_ne hc s
      rw [List.cons_append, splitOn, if_neg hc, ih, hcs, hs]
      rfl

theorem splitOn_join {ps : List Text} (hne : ps ≠ []) (hps : ∀ p ∈ ps, sep ∉ p) :
    splitOn sep (join [sep] ps) = ps := by
  induction ps with
  | nil => exact absurd rfl hne
  | cons p ps ih =>
    have hp : sep ∉ p := hps p List.mem_cons_self
    by_cases he : ps = []
    · rw [he, join_singleton, splitOn_of_not_mem hp]
    · rw [join_cons _ _ _ he, List.append_assoc, List.singleton_append, splitOn_append_cons,
        splitOn_of_not_mem hp, ih he fun q hq => hps q (List.mem_cons_of_mem p hq)]
      rfl

theorem join_append (sep : Text) {ps qs : List Text} (hp : ps ≠ []) (hq : qs ≠ []) :
    join sep (ps ++ qs) = join sep ps ++ sep ++ join sep qs := by
  induction ps with
  | nil => exact absurd rfl hp
  | cons p ps ih =>
    by_cases he : ps = []
    · rw [he, List.singleton_append, join_cons _ _ _ hq, join_singleton]
    · rw [List.cons_append, join_cons _ _ _ (by simp [he]), ih he, join_cons _ _ _ he]
      simp only [List.append_assoc]

theorem length_splitOn (sep : Char) (t : Text) : (splitOn sep t).length = t.count sep + 1 := by
  induction t with
  | nil => rfl
  | cons c t ih =>
    by_cases hc : c = sep
    · rw [splitOn, if_pos hc, List.length_cons, ih, hc, List.count_cons_self]
    · obtain ⟨p, ps, ht, hct⟩ := splitOn_cons_of_ne hc t
      rw [ht] at ih
      rw [hct, List.count_cons_of_ne hc, ← ih]
      rfl

variable {p : Char → Bool}

theorem filter_join {sep : Text} (hsep : sep.filter p = []) (ps : List Text) :
    (join sep ps).filter p = ps.flatMap (List.filter p) := by
  induction ps with
  | nil => rfl
  | cons t ps ih =>
    cases ps with
    | nil => simp
    | cons u us =>
      rw [join_cons sep t (u :: us) (by simp), List.filter_append, List.filter_append, hsep, ih,
        List.append_nil]
      rfl

/-- A piece stands in the joined text behind the characters of the pieces ahead of it. -/
theorem exists_join {sep : Text} (hsep : sep.filter p = []) (ps : List Text) (t : Text)
    (qs : List Text) :
    ∃ u v, join sep (ps ++ t :: qs) = u ++ t ++ v ∧ u.filter p = ps.flatMap (List.filter p) := by
  obtain ⟨v, hv⟩ : ∃ v, join sep (t :: qs) = t ++ v := by
    by_cases hq : qs = []
    · exact ⟨[], by simp [hq]⟩
    · exact ⟨sep ++ join sep qs, by rw [join_cons _ _ _ hq, List.append_assoc]⟩
  by_cases hp : ps = []
  · exact ⟨[], v, by simp [hp, hv], by simp [hp]⟩
  · refine ⟨join sep ps ++ sep, v, ?_, ?_⟩
    · rw [join_append _ hp (List.cons_ne_nil _ _), hv]
      simp only [List.append_assoc]
    · rw [List.filter_append, filter_join hsep, hsep, List.append_nil]

theorem mem_of_mem_splitOn {c : Char} {t l : Text} (h : l ∈ splitOn sep t) (hc : c ∈ l) :
    c ∈ t := by
  obtain ⟨above, below, hcut⟩ := List.append_of_mem h
  obtain ⟨u, v, hjoin, -⟩ := exists_join (p := fun _ => false) (by simp) above l below
  rw [← join_splitOn sep t, hcut, hjoin]
  exact List.mem_append_left v (List.mem_append_right u hc)

/-- Splitting loses separators only. -/
theorem flatMap_splitOn (hsep : p sep = false) (t : Text) :
    (splitOn sep t).flatMap (List.filter p) = t.filter p := by
  have hnil : [sep].filter p = [] := by simp [hsep]
  rw [← filter_join hnil (splitOn sep t), join_splitOn]

end Text

end ProjectSetup
