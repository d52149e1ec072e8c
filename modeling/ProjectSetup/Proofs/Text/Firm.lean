import Mathlib.Data.List.Basic
import ProjectSetup.Text.Blank

/-!
# Firm text

The part of a text that laying it out keeps: all of it but blanks within a line, quotes and the
marks of comments. Firm text may still be pruned of line breaks, and of commas ahead of a closing
bracket.
-/
namespace ProjectSetup

namespace Text

/-- The characters that reading writes, drops or replaces as it sees fit: blanks within a line,
quotes and the marks of comments. -/
def isSoft (c : Char) : Bool := (isBlank c && c != '\n') || ['\'', '"', '/', '*'].contains c

/-- A text without its soft characters. -/
def firm (t : Text) : Text := t.filter fun c => !isSoft c

@[simp] theorem firm_append (s t : Text) : firm (s ++ t) = firm s ++ firm t := List.filter_append ..

theorem firm_cons_soft {c : Char} (h : isSoft c = true) (t : Text) : firm (c :: t) = firm t := by
  simp [firm, h]

theorem firm_cons_firm {c : Char} (h : isSoft c = false) (t : Text) :
    firm (c :: t) = c :: firm t := by
  simp [firm, h]

/-- Characters on which a filter says no can be dropped before it. -/
theorem filter_dropWhile {p q : Char → Bool} {t : Text} (h : ∀ c ∈ t, q c = true → p c = false) :
    (t.dropWhile q).filter p = t.filter p := by
  induction t with
  | nil => rfl
  | cons c t ih =>
    have ht : ∀ x ∈ t, q x = true → p x = false := fun x hx => h x (List.mem_cons_of_mem c hx)
    cases hq : q c with
    | true => rw [List.dropWhile_cons_of_pos hq, ih ht, List.filter_cons_of_neg (by simp [h c, hq])]
    | false => rw [List.dropWhile_cons_of_neg (by simp [hq])]

theorem filter_trimStart {p : Char → Bool} {t : Text}
    (h : ∀ c ∈ t, isBlank c = true → p c = false) : t.trimStart.filter p = t.filter p :=
  filter_dropWhile h

theorem filter_trimEnd {p : Char → Bool} {t : Text}
    (h : ∀ c ∈ t, isBlank c = true → p c = false) : t.trimEnd.filter p = t.filter p := by
  rw [trimEnd, List.filter_reverse, filter_dropWhile, List.filter_reverse, List.reverse_reverse]
  simpa using h

theorem mem_of_mem_trimStart {t : Text} {c : Char} (h : c ∈ t.trimStart) : c ∈ t :=
  (List.dropWhile_suffix isBlank).subset h

theorem mem_of_mem_trimEnd {t : Text} {c : Char} (h : c ∈ t.trimEnd) : c ∈ t := by
  rw [trimEnd, List.mem_reverse] at h
  exact List.mem_reverse.1 ((List.dropWhile_suffix isBlank).subset h)

/-- Within a line a blank is soft. -/
theorem not_soft_of_blank {t : Text} (ht : '\n' ∉ t) :
    ∀ c ∈ t, isBlank c = true → (!isSoft c) = false := by
  intro c hc hb
  have hne : c ≠ '\n' := fun he => ht (he ▸ hc)
  simp [isSoft, hb, hne]

theorem firm_trimEnd {t : Text} (ht : '\n' ∉ t) : firm t.trimEnd = firm t :=
  filter_trimEnd (not_soft_of_blank ht)

theorem firm_trim {t : Text} (ht : '\n' ∉ t) : firm t.trim = firm t := by
  have hs : '\n' ∉ t.trimStart := fun h => ht (mem_of_mem_trimStart h)
  rw [trim, firm_trimEnd hs]
  exact filter_trimStart (not_soft_of_blank ht)

/-- A filter that drops soft characters sees a text by its firm part. -/
theorem filter_firm {p : Char → Bool} (hp : ∀ c, isSoft c = true → p c = false) (t : Text) :
    (firm t).filter p = t.filter p := by
  rw [firm, List.filter_filter]
  refine List.filter_congr fun c _ => ?_
  cases hs : isSoft c with
  | false => simp
  | true => simp [hp c hs]

theorem firm_reverse (t : Text) : firm t.reverse = (firm t).reverse := List.filter_reverse

/-- The brackets that close. -/
def isCloser (c : Char) : Bool := c == ')' || c == ']' || c == '}'

/-- What reading may do to firm text, last character first: line breaks go, and commas ahead of
a closing bracket. -/
inductive Pruned : Text → Text → Prop where
  | nil : Pruned [] []
  | keep (c : Char) {a b : Text} : Pruned a b → Pruned (c :: a) (c :: b)
  | join {a b : Text} : Pruned a b → Pruned a ('\n' :: b)
  | comma {c : Char} {breaks a b : Text} : isCloser c = true → (∀ x ∈ breaks, x = '\n') →
      Pruned a b → Pruned (c :: a) (c :: (breaks ++ ',' :: b))

namespace Pruned

theorem append (w : Text) {a b : Text} (h : Pruned a b) : Pruned (w ++ a) (w ++ b) := by
  induction w with
  | nil => exact h
  | cons c w ih => exact .keep c ih

theorem joins {w a b : Text} (hw : ∀ c ∈ w, c = '\n') (h : Pruned a b) : Pruned a (w ++ b) := by
  induction w with
  | nil => exact h
  | cons c w ih =>
    rw [hw c List.mem_cons_self]
    exact .join (ih fun x hx => hw x (List.mem_cons_of_mem c hx))

/-- A comma at the end comes from a comma with nothing but line breaks after it. -/
theorem of_comma {a s : Text} (h : Pruned (',' :: a) s) :
    ∃ breaks b, (∀ x ∈ breaks, x = '\n') ∧ s = breaks ++ ',' :: b ∧ Pruned a b := by
  generalize he : ',' :: a = l at h
  induction h with
  | nil => cases he
  | @keep c a' b h _ =>
    cases he
    exact ⟨[], b, by simp, rfl, h⟩
  | @join a' b _ ih =>
    obtain ⟨breaks, b', hb, rfl, hp⟩ := ih he
    exact ⟨'\n' :: breaks, b', by simpa using hb, rfl, hp⟩
  | comma hc _ _ _ =>
    cases he
    cases hc

/-- Reading keeps the characters of a kind that holds neither line breaks nor commas. -/
theorem filter_eq {p : Char → Bool} (hn : p '\n' = false) (hc : p ',' = false) {a b : Text}
    (h : Pruned a b) : a.filter p = b.filter p := by
  induction h with
  | nil => rfl
  | keep c _ ih => simp only [List.filter_cons, ih]
  | join _ ih => rw [ih, List.filter_cons_of_neg (by simp [hn])]
  | @comma c breaks a b _ hb _ ih =>
    have hbreaks : breaks.filter p = [] := by
      rw [List.filter_eq_nil_iff]
      intro x hx
      rw [hb x hx, hn]
      exact Bool.false_ne_true
    simp only [List.filter_cons, List.filter_append, hbreaks, List.nil_append, hc, ih,
      Bool.false_eq_true, if_false]

theorem sublist {a b : Text} (h : Pruned a b) : a.Sublist b := by
  induction h with
  | nil => exact .slnil
  | keep c _ ih => exact ih.cons_cons c
  | join _ ih => exact ih.cons _
  | comma _ _ _ ih => exact ((ih.cons _).trans (List.sublist_append_right ..)).cons_cons _

end Pruned

end Text

end ProjectSetup
