import Mathlib.Data.List.DropRight
import ProjectSetup.Layout.Lines
import ProjectSetup.Proofs.Text.Blank
import ProjectSetup.Proofs.Text.Firm
import ProjectSetup.Proofs.Text.Splitting

/-!
# Tidy lines

Lines without blanks at their ends are tidied once and for all: a tidy text is split into the lines
that it was assembled from and an empty one, and these are squeezed already.
-/
namespace ProjectSetup

namespace Lines

/-- The lines of `ts`, none of them part of a literal. -/
def plain (ts : List Text) : List Line := ts.map fun t => { text := t }

@[simp] theorem plain_cons (t : Text) (ts : List Text) :
    plain (t :: ts) = { text := t } :: plain ts := rfl

theorem isBlank_plain (t : Text) : ({ text := t } : Line).isBlank = t.blank := by
  simp [Line.isBlank]

theorem tidy_eq (t : Text) :
    tidy t = assemble (plain ((Text.splitOn '\n' t).map Text.trimEnd)) := by
  rw [tidy, plain, List.map_map]
  rfl

theorem mem_squeeze {t : Text} {afterBlank : Bool} {ls : List Line}
    (h : t ∈ squeeze afterBlank ls) : t = [] ∨ ∃ l ∈ ls, t = l.text := by
  induction ls generalizing afterBlank with
  | nil => cases h
  | cons l ls ih =>
    have htail (b : Bool) (ht : t ∈ squeeze b ls) : t = [] ∨ ∃ k ∈ l :: ls, t = k.text := by
      rcases ih ht with h | ⟨k, hk, h⟩
      · exact .inl h
      · exact .inr ⟨k, List.mem_cons_of_mem l hk, h⟩
    rw [squeeze] at h
    split at h
    · split at h
      · exact htail true h
      · rcases List.mem_cons.1 h with rfl | h
        · exact .inl rfl
        · exact htail true h
    · rcases List.mem_cons.1 h with rfl | h
      · exact .inr ⟨l, List.mem_cons_self, rfl⟩
      · exact htail false h

theorem squeeze_squeeze (afterBlank : Bool) (ts : List Text) :
    squeeze afterBlank (plain (squeeze afterBlank (plain ts))) = squeeze afterBlank (plain ts) := by
  induction ts generalizing afterBlank with
  | nil => rfl
  | cons t ts ih =>
    rw [plain_cons, squeeze]
    by_cases ht : t.blank = true
    · rw [if_pos (by rw [isBlank_plain, ht])]
      cases afterBlank with
      | true => exact ih true
      | false =>
        have hnil : ({ text := [] } : Line).isBlank = true := rfl
        rw [if_neg Bool.false_ne_true, plain_cons, squeeze, if_pos hnil, if_neg Bool.false_ne_true,
          ih true]
    · rw [if_neg (by rw [isBlank_plain]; exact ht), plain_cons, squeeze,
        if_neg (by rw [isBlank_plain]; exact ht), ih false]

/-- Empty lines at the end stay at the end. -/
theorem squeeze_append_empty (afterBlank : Bool) (ts : List Text) {es : List Text}
    (hes : ∀ e ∈ es, e = []) : ∃ fs, (∀ f ∈ fs, f = []) ∧
      squeeze afterBlank (plain (ts ++ es)) = squeeze afterBlank (plain ts) ++ fs := by
  induction ts generalizing afterBlank with
  | nil =>
    refine ⟨squeeze afterBlank (plain es), ?_, rfl⟩
    intro f hf
    rcases mem_squeeze hf with h | ⟨l, hl, h⟩
    · exact h
    · obtain ⟨e, he, rfl⟩ := List.mem_map.1 hl
      rw [h]
      exact hes e he
  | cons t ts ih =>
    obtain ⟨fs, hfs, h⟩ := ih true
    obtain ⟨gs, hgs, h'⟩ := ih false
    rw [List.cons_append, plain_cons, plain_cons, squeeze, squeeze, h, h']
    split
    · split
      · exact ⟨fs, hfs, rfl⟩
      · exact ⟨fs, hfs, rfl⟩
    · exact ⟨gs, hgs, rfl⟩

theorem dropEmptyEnd_append_empty (ts : List Text) {es : List Text} (hes : ∀ e ∈ es, e = []) :
    dropEmptyEnd (ts ++ es) = dropEmptyEnd ts := by
  rw [dropEmptyEnd, List.reverse_append, List.dropWhile_append_of_pos]
  · rfl
  · intro e he
    rw [hes e (List.mem_reverse.1 he)]
    rfl

theorem exists_empty_end (ts : List Text) :
    ∃ es, (∀ e ∈ es, e = []) ∧ ts = dropEmptyEnd ts ++ es := by
  refine ⟨(ts.reverse.takeWhile List.isEmpty).reverse, ?_, ?_⟩
  · intro e he
    exact List.isEmpty_iff.1 (List.mem_takeWhile_imp (List.mem_reverse.1 he))
  · rw [dropEmptyEnd, ← List.reverse_append, List.takeWhile_append_dropWhile, List.reverse_reverse]

/-- Squeezed lines are kept as they are, with an empty line after them or without. -/
theorem dropEmptyEnd_squeeze (ts : List Text) {es : List Text} (hes : ∀ e ∈ es, e = []) :
    dropEmptyEnd (squeeze true (plain (dropEmptyEnd (squeeze true (plain ts)) ++ es))) =
      dropEmptyEnd (squeeze true (plain ts)) := by
  have hend {fs : List Text} (hfs : ∀ f ∈ fs, f = []) (ks : List Text) :
      dropEmptyEnd (squeeze true (plain (ks ++ fs))) = dropEmptyEnd (squeeze true (plain ks)) := by
    obtain ⟨gs, hgs, h⟩ := squeeze_append_empty true ks hfs
    rw [h, dropEmptyEnd_append_empty _ hgs]
  obtain ⟨fs, hfs, hsplit⟩ := exists_empty_end (squeeze true (plain ts))
  rw [hend hes, ← hend hfs, ← hsplit, squeeze_squeeze]

theorem mem_dropEmptyEnd {t : Text} {ts : List Text} (h : t ∈ dropEmptyEnd ts) : t ∈ ts :=
  (List.rdropWhile_prefix List.isEmpty ts).subset h

/-- A text is tidied once and for all. -/
theorem tidy_tidy (t : Text) : tidy (tidy t) = tidy t := by
  generalize hts : (Text.splitOn '\n' t).map Text.trimEnd = ts
  have htidy : tidy t = assemble (plain ts) := by rw [tidy_eq, hts]
  have hkept : ∀ l ∈ dropEmptyEnd (squeeze true (plain ts)), '\n' ∉ l ∧ l.trimEnd = l := by
    intro l hl
    rcases mem_squeeze (mem_dropEmptyEnd hl) with rfl | ⟨k, hk, rfl⟩
    · exact ⟨List.not_mem_nil, rfl⟩
    · obtain ⟨u, hu, rfl⟩ := List.mem_map.1 hk
      rw [← hts] at hu
      obtain ⟨v, hv, rfl⟩ := List.mem_map.1 hu
      refine ⟨fun hn => ?_, Text.trimEnd_trimEnd v⟩
      exact Text.not_mem_of_mem_splitOn hv (Text.mem_of_mem_trimEnd hn)
  have hempty : ∀ e ∈ [([] : Text)], e = [] := by simp
  have hsqueeze := dropEmptyEnd_squeeze ts hempty
  rw [htidy, assemble]
  generalize dropEmptyEnd (squeeze true (plain ts)) = kept at hkept hsqueeze
  cases kept with
  | nil => rfl
  | cons l ls =>
    have hsplit : Text.splitOn '\n' (Text.join ['\n'] (l :: ls) ++ ['\n']) = (l :: ls) ++ [[]] := by
      rw [Text.splitOn_append_cons,
        Text.splitOn_join (List.cons_ne_nil l ls) fun k hk => (hkept k hk).1]
      rfl
    have htrim : ((l :: ls) ++ [[]]).map Text.trimEnd = (l :: ls) ++ [[]] := by
      rw [List.map_append, List.map_congr_left (g := id) fun k hk => (hkept k hk).2, List.map_id]
      rfl
    rw [tidy_eq, hsplit, htrim, assemble, hsqueeze]

end Lines

end ProjectSetup
