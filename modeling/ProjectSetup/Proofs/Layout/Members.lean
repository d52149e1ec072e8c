import ProjectSetup.Layout.Members
import ProjectSetup.Proofs.Layout.Requoting
import ProjectSetup.Proofs.Text.Brackets

/-!
# Texts between braces

The search for the end of a pair of braces knows strings, comments and template literals, and counts
all other brackets. This module describes the texts over which its count goes from one number to
another, and shows that the search stops exactly behind such a text.
-/
namespace ProjectSetup

namespace Literal

variable {t body rest : Text}

/-- The text of a comment is found whatever stands behind it. -/
theorem comment?_append_of_self (h : comment? body = some (body, [])) (rest : Text) :
    comment? (body ++ rest) = some (body, rest) := by
  fun_induction comment? body with
  | case1 => cases h
  | case2 r =>
    obtain rfl : r = [] := by simpa using (Prod.mk.inj (Option.some.inj h)).2
    rfl
  | case3 c r hend ih =>
    obtain ⟨⟨b, _⟩, hb, he⟩ := Option.map_eq_some_iff.1 h
    cases he
    have hrest := ih hb
    rw [List.cons_append, comment?, hrest]
    · rfl
    · rintro x rfl hr
      cases r with
      | nil => cases hb
      | cons y r =>
        cases hr
        exact hend r rfl rfl

theorem comment?_self (h : comment? t = some (body, rest)) : comment? body = some (body, []) := by
  fun_induction comment? t generalizing body with
  | case1 => cases h
  | case2 r =>
    cases h
    rfl
  | case3 c r hend ih =>
    obtain ⟨⟨b, _⟩, hb, he⟩ := Option.map_eq_some_iff.1 h
    cases he
    rw [comment?, ih hb]
    · rfl
    · rintro x rfl rfl
      rw [comment?_append hb] at hend
      exact hend _ rfl rfl

end Literal

namespace Members

open Literal (Fits)

variable {s : Seen} {c q : Char} {n m : Nat} {t u after : Text} {oneLine : Bool}

/-- A text ahead of the backtick that the search takes for the end of a template literal. Inside `n`
braces of a substitution backticks and quotes do not count. -/
inductive Quasi : Nat → Text → Prop where
  | nil : Quasi 0 []
  | escape {n : Nat} (c : Char) {t : Text} : Quasi n t → Quasi n ('\\' :: c :: t)
  | plain {c : Char} {t : Text} : c ≠ '\\' → c ≠ '\x60' → (c = '$' → t.head? ≠ some '{') →
    Quasi 0 t → Quasi 0 (c :: t)
  | substitution {t : Text} : Quasi 1 t → Quasi 0 ('$' :: '{' :: t)
  | inside {n : Nat} {c : Char} {t : Text} : c ≠ '\\' → c ≠ '{' → c ≠ '}' → Quasi (n + 1) t →
    Quasi (n + 1) (c :: t)
  | opened {n : Nat} {t : Text} : Quasi (n + 2) t → Quasi (n + 1) ('{' :: t)
  | closed {n : Nat} {t : Text} : Quasi n t → Quasi (n + 1) ('}' :: t)

theorem skipString_of_fits (h : Fits q t) (hq : q ≠ '\\') (hc : c = q ∨ c = '\n') (rest : Text) :
    skipString q (t ++ c :: rest) = rest := by
  have hcons {x : Char} (hx : x ≠ '\\') (r : Text) :
      skipString q (x :: r) = if x = '\n' || x = q then r else skipString q r := by
    rw [skipString]
    · exact fun he _ => hx he
    · exact fun _ _ he _ => hx he
  induction h with
  | nil =>
    have hslash : c ≠ '\\' := by
      rcases hc with rfl | rfl
      · exact hq
      · decide
    rw [List.nil_append, hcons hslash, if_pos (by simpa using hc.symm)]
  | escape x _ ih => exact ih
  | plain hslash hline hquote _ ih =>
    rw [List.cons_append, hcons hslash, if_neg (by simp [hline, hquote]), ih]

/-- A string that ends ahead of some text has ended at a quote or at a line break. -/
theorem exists_fits_of_skipString (h : skipString q t ≠ []) :
    ∃ w c, t = w ++ c :: skipString q t ∧ Fits q w ∧ (c = q ∨ c = '\n') := by
  fun_induction skipString q t with
  | case1 | case2 => exact absurd rfl h
  | case3 x r ih =>
    obtain ⟨w, c, hr, hw, hc⟩ := ih h
    exact ⟨'\\' :: x :: w, c, congrArg ('\\' :: x :: ·) hr, .escape x hw, hc⟩
  | case4 c r _ _ hend => exact ⟨[], c, rfl, .nil, by simpa [or_comm] using hend⟩
  | case5 x r hlone hescape hend ih =>
    obtain ⟨w, c, hr, hw, hc⟩ := ih h
    simp only [Bool.or_eq_true, decide_eq_true_eq, not_or] at hend
    exact ⟨x :: w, c, congrArg (x :: ·) hr,
      .plain (Literal.ne_backslash hlone hescape) hend.1 hend.2 hw, hc⟩

theorem skipTemplate_of_quasi (h : Quasi n t) (rest : Text) :
    skipTemplate n (t ++ '\x60' :: rest) = rest := by
  induction h with
  | nil => rfl
  | escape _ _ ih | substitution _ ih => exact ih
  | @plain c t hslash htick hopen _ ih =>
    rw [List.cons_append, skipTemplate, if_neg htick, ih]
    · exact fun he _ => hslash he
    · exact fun _ _ he _ => hslash he
    · rintro r rfl hr
      cases t with
      | nil => cases hr
      | cons x t =>
        cases hr
        exact hopen rfl rfl
  | inside hslash hopen hclose _ ih =>
    rw [List.cons_append, skipTemplate, if_neg hopen, if_neg hclose, ih]
    · exact fun he _ => hslash he
    · exact fun _ _ he _ => hslash he
  | opened _ ih | closed _ ih => simpa [skipTemplate] using ih

theorem exists_quasi_of_skipTemplate (h : skipTemplate n t ≠ []) :
    ∃ w, t = w ++ '\x60' :: skipTemplate n t ∧ Quasi n w := by
  fun_induction skipTemplate n t with
  | case1 | case2 => exact absurd rfl h
  | case3 n c r ih =>
    obtain ⟨w, hr, hw⟩ := ih h
    exact ⟨'\\' :: c :: w, congrArg ('\\' :: c :: ·) hr, .escape c hw⟩
  | case4 r ih =>
    obtain ⟨w, hr, hw⟩ := ih h
    exact ⟨'$' :: '{' :: w, congrArg ('$' :: '{' :: ·) hr, .substitution hw⟩
  | case5 r => exact ⟨[], rfl, .nil⟩
  | case6 c r hlone hescape hopen htick ih =>
    obtain ⟨w, hr, hw⟩ := ih h
    refine ⟨c :: w, congrArg (c :: ·) hr, .plain (Literal.ne_backslash hlone hescape) htick ?_ hw⟩
    rintro rfl hhead
    obtain ⟨v, rfl⟩ := List.head?_eq_some_iff.1 hhead
    exact hopen _ rfl hr
  | case7 n r _ _ ih =>
    obtain ⟨w, hr, hw⟩ := ih h
    exact ⟨'{' :: w, congrArg ('{' :: ·) hr, .opened hw⟩
  | case8 n r _ _ _ ih =>
    obtain ⟨w, hr, hw⟩ := ih h
    exact ⟨'}' :: w, congrArg ('}' :: ·) hr, .closed hw⟩
  | case9 n c r hlone hescape hopen hclose ih =>
    obtain ⟨w, hr, hw⟩ := ih h
    exact ⟨c :: w, congrArg (c :: ·) hr,
      .inside (Literal.ne_backslash hlone hescape) hopen hclose hw⟩

/-- The characters at which the search does more than go on. -/
def marks : Text := ['\'', '"', '\x60', '/', '(', '[', '{', ')', ']', '}']

/-- A text over which the search goes from `n` open brackets to `m`, with at least one open all the
way. -/
inductive Leads : Nat → Text → Nat → Prop where
  | nil (n : Nat) : Leads n [] n
  | plain {n m : Nat} {c : Char} {t : Text} : c ∉ marks → Leads n t m → Leads n (c :: t) m
  | slash {n m : Nat} {t : Text} : t.head? ≠ some '/' → t.head? ≠ some '*' → Leads n t m →
    Leads n ('/' :: t) m
  | lineComment {n m : Nat} {w t : Text} : '\n' ∉ w → Leads n ('\n' :: t) m →
    Leads n ('/' :: '/' :: w ++ '\n' :: t) m
  | blockComment {n m : Nat} {w t : Text} : Literal.comment? w = some (w, []) → Leads n t m →
    Leads n ('/' :: '*' :: w ++ t) m
  | string {n m : Nat} {q c : Char} {w t : Text} : q = '\'' ∨ q = '"' → Fits q w →
    c = q ∨ c = '\n' → Leads n t m → Leads n (q :: w ++ c :: t) m
  | template {n m : Nat} {w t : Text} : Quasi 0 w → Leads n t m →
    Leads n ('\x60' :: w ++ '\x60' :: t) m
  | opened {n m : Nat} {c : Char} {t : Text} : (Text.closerOf? c).isSome → Leads (n + 1) t m →
    Leads n (c :: t) m
  | closed {n m : Nat} {c : Char} {t : Text} : Text.isCloser c = true → Leads (n + 1) t m →
    Leads (n + 2) (c :: t) m

theorem not_blank_of_mem_marks (h : c ∈ marks) : Text.isBlank c = false ∧ c ≠ '\n' := by
  have hmarks : marks.all (fun c => !Text.isBlank c && c != '\n') = true := by decide
  simpa using List.all_eq_true.1 hmarks c h

theorem closer_cases (h : Text.isCloser c = true) : c = ')' ∨ c = ']' ∨ c = '}' := by
  simpa [Text.isCloser, or_assoc] using h

theorem opener_cases (h : (Text.closerOf? c).isSome) : c = '(' ∨ c = '[' ∨ c = '{' := by
  unfold Text.closerOf? at h
  split_ifs at h <;> simp_all

theorem skipLiteral_of_opener (h : (Text.closerOf? c).isSome) (t : Text) : skipLiteral c t = t := by
  rcases opener_cases h with rfl | rfl | rfl <;> rfl

theorem skipLiteral_of_closer (h : Text.isCloser c = true) (t : Text) : skipLiteral c t = t := by
  rcases closer_cases h with rfl | rfl | rfl <;> rfl

theorem mem_marks_iff : c ∈ marks ↔ c = '\'' ∨ c = '"' ∨ c = '\x60' ∨ c = '/' ∨
    (Text.closerOf? c).isSome ∨ Text.isCloser c = true := by
  constructor
  · intro h
    have hmarks : marks.all (fun c => c = '\'' ∨ c = '"' ∨ c = '\x60' ∨ c = '/' ∨
        (Text.closerOf? c).isSome ∨ Text.isCloser c = true) = true := by decide
    exact of_decide_eq_true (List.all_eq_true.1 hmarks c h)
  · rintro (rfl | rfl | rfl | rfl | h | h)
    any_goals decide
    · rcases opener_cases h with rfl | rfl | rfl <;> decide
    · rcases closer_cases h with rfl | rfl | rfl <;> decide

theorem depth_next_of_opener (s : Seen) (h : (Text.closerOf? c).isSome) :
    (s.next c).depth = s.depth + 1 := by
  rcases opener_cases h with rfl | rfl | rfl <;> rfl

theorem depth_next_of_closer (s : Seen) (h : Text.isCloser c = true) :
    (s.next c).depth = s.depth - 1 := by
  rcases closer_cases h with rfl | rfl | rfl <;> rfl

theorem depth_next_of_plain (s : Seen) (ho : Text.closerOf? c = none)
    (hc : Text.isCloser c = false) : (s.next c).depth = s.depth := by
  have hopen : ¬(c = '{' ∨ c = '(' ∨ c = '[') := by
    rintro (rfl | rfl | rfl) <;> cases ho
  have hclose : ¬(c = '}' ∨ c = ')' ∨ c = ']') := by
    rintro (rfl | rfl | rfl) <;> cases hc
  simp only [not_or] at hopen hclose
  simp [Seen.next, hopen, hclose]

theorem closes_eq (s : Seen) (c : Char) :
    s.closes c = (decide (s.depth ≤ 1) && Text.isCloser c) := by
  simp only [Seen.closes, Text.isCloser]
  congr 1
  ac_rfl

theorem skipLiteral_of_not_mem (h : c ∉ marks) (t : Text) : skipLiteral c t = t := by
  simp only [marks, List.mem_cons, List.not_mem_nil, or_false, not_or] at h
  simp [skipLiteral, h]

theorem depth_next_of_not_mem (s : Seen) (h : c ∉ marks) : (s.next c).depth = s.depth := by
  simp only [marks, List.mem_cons, List.not_mem_nil, or_false, not_or] at h
  simp [Seen.next, h]

theorem holdsBody_next_of_not_mem (s : Seen) (h : c ∉ marks) :
    (s.next c).holdsBody = s.holdsBody := by
  simp only [marks, List.mem_cons, List.not_mem_nil, or_false, not_or] at h
  simp [Seen.next, h]

theorem closes_of_not_mem (s : Seen) (h : c ∉ marks) : s.closes c = false := by
  have hcloser : Text.isCloser c = false :=
    Bool.eq_false_iff.2 fun hc => h (mem_marks_iff.2 (by simp [hc]))
  rw [closes_eq, hcloser, Bool.and_false]

/-- One step of the search at a character that is no blank and begins no comment. -/
theorem search_cons (hblank : Text.isBlank c = false) (hline : c ≠ '\n')
    (hcomment : c = '/' → t.head? ≠ some '/' ∧ t.head? ≠ some '*') (s : Seen) :
    search s (c :: t) = if s.parts c then .parted
      else if s.closes c then .closed (!(s.multiline && s.holdsBody)) t
      else search (s.next c) (skipLiteral c t) := by
  rw [search, if_neg hline, if_neg (by simp [hblank]),
    if_neg (by simpa using fun h => (hcomment h).1),
    if_neg (by simpa using fun h => (hcomment h).2)]

/-- At a character that is no mark, the search goes on with what stands behind it. -/
theorem search_of_not_mem (hc : c ∉ marks) (hblank : Text.isBlank c = false)
    (hparts : s.parts c = false) (t : Text) : search s (c :: t) = search (s.next c) t := by
  have hline : c ≠ '\n' := by
    rintro rfl
    cases hblank
  have hslash : c ≠ '/' := by
    rintro rfl
    exact hc (by decide)
  rw [search_cons hblank hline fun h => absurd h hslash, hparts, closes_of_not_mem s hc,
    skipLiteral_of_not_mem hc, if_neg Bool.false_ne_true, if_neg Bool.false_ne_true]

/-- The end of a line ahead of some text is a line break. -/
theorem exists_line_end {x : Char} (hx : x ≠ '\n')
    (h : t.dropWhile (· ≠ '\n') = u ++ x :: after) :
    ∃ w v, '\n' ∉ w ∧ u = '\n' :: v ∧ t = w ++ '\n' :: v ++ x :: after := by
  have hw : '\n' ∉ t.takeWhile (· ≠ '\n') := fun hm => by simpa using List.mem_takeWhile_imp hm
  have hsplit := List.takeWhile_append_dropWhile (p := (· ≠ '\n')) (l := t)
  have hhead := List.head?_dropWhile_not (fun c => decide (c ≠ '\n')) t
  rw [h] at hsplit hhead
  cases u with
  | nil => exact absurd (by simpa using hhead) hx
  | cons c v =>
    obtain rfl : c = '\n' := by simpa using hhead
    exact ⟨_, v, hw, rfl, by rw [List.append_assoc, hsplit]⟩

theorem search_lineComment {w : Text} (hw : '\n' ∉ w) (s : Seen) (t : Text) :
    search s ('/' :: '/' :: (w ++ '\n' :: t)) = search s ('\n' :: t) := by
  have hdrop : ('/' :: (w ++ '\n' :: t)).dropWhile (· ≠ '\n') = '\n' :: t := by
    rw [← List.cons_append, List.dropWhile_append_of_pos, List.dropWhile_cons_of_neg (by simp)]
    intro c hc
    rw [decide_eq_true_eq]
    rintro rfl
    rcases List.mem_cons.1 hc with h | h
    · cases h
    · exact hw h
  rw [search, if_neg (by decide), if_neg (by decide), if_pos (by simp), hdrop]

theorem search_blockComment {w : Text} (h : Literal.comment? t = some (w, u)) (s : Seen) :
    search s ('/' :: '*' :: t) =
      search { s with multiline := s.multiline || w.contains '\n' } u := by
  rw [search, if_neg (by decide), if_neg (by decide), if_neg (by simp), if_pos (by simp)]
  split
  · next hnone => cases hnone.symm.trans h
  · next hsome =>
    cases hsome.symm.trans h
    rfl

/-- The search of `t` stops at a member on a new line, or goes on ahead of `rest` with `m` brackets
open. -/
def GoesOn (s : Seen) (t : Text) (m : Nat) (rest : Text) : Prop :=
  search s t = .parted ∨ ∃ s', s'.depth = m ∧ search s t = search s' rest

theorem GoesOn.of_eq {s' : Seen} (h : GoesOn s' u m after) (he : search s t = search s' u) :
    GoesOn s t m after := by
  rwa [GoesOn, he]

theorem GoesOn.next (h : GoesOn (s.next c) (skipLiteral c t) m after)
    (hblank : Text.isBlank c = false) (hline : c ≠ '\n')
    (hcomment : c = '/' → t.head? ≠ some '/' ∧ t.head? ≠ some '*') (hclose : s.closes c = false) :
    GoesOn s (c :: t) m after := by
  cases hparts : s.parts c with
  | true =>
    left
    rw [search_cons hblank hline hcomment, if_pos hparts]
  | false =>
    refine h.of_eq ?_
    rw [search_cons hblank hline hcomment, if_neg (by simp [hparts]), if_neg (by simp [hclose])]

/-- A mark other than a closing bracket is counted or skipped with its literal. -/
theorem GoesOn.mark (h : GoesOn (s.next c) (skipLiteral c t) m after) (hc : c ∈ marks)
    (hcomment : c = '/' → t.head? ≠ some '/' ∧ t.head? ≠ some '*')
    (hclose : s.depth ≤ 1 → Text.isCloser c = false) : GoesOn s (c :: t) m after := by
  refine h.next (not_blank_of_mem_marks hc).1 (not_blank_of_mem_marks hc).2 hcomment ?_
  rw [closes_eq, Bool.and_eq_false_imp, decide_eq_true_eq]
  exact hclose

theorem goesOn_plain (hc : c ∉ marks) (h : ∀ s : Seen, s.depth = n → GoesOn s t m after)
    (hs : s.depth = n) : GoesOn s (c :: t) m after := by
  by_cases hline : c = '\n'
  · refine (h s.lineBreak hs).of_eq ?_
    rw [search, if_pos hline]
  cases hblank : Text.isBlank c with
  | true =>
    refine (h s hs).of_eq ?_
    rw [search, if_neg hline, if_pos hblank]
  | false =>
    have hslash : c ≠ '/' := by
      rintro rfl
      exact hc (by decide)
    refine .next ?_ hblank hline (fun h => absurd h hslash) (closes_of_not_mem s hc)
    rw [skipLiteral_of_not_mem hc]
    exact h _ ((depth_next_of_not_mem s hc).trans hs)

/-- The search goes over such a text, or stops in it at a member on a new line. -/
theorem goesOn_of_leads (h : Leads n t m) (hs : s.depth = n) {rest : Text}
    (hrest : rest.head? ≠ some '/' ∧ rest.head? ≠ some '*') : GoesOn s (t ++ rest) m rest := by
  induction h generalizing s with
  | nil n => exact .inr ⟨s, hs, rfl⟩
  | plain hc _ ih => exact goesOn_plain hc (fun s hs => ih hs) hs
  | @slash n m t hslash hstar _ ih =>
    refine .mark (ih ((depth_next_of_plain s rfl rfl).trans hs)) (by decide) ?_ (fun _ => rfl)
    intro _
    cases t with
    | nil => exact hrest
    | cons x t => exact ⟨hslash, hstar⟩
  | @lineComment n m w t hw _ ih =>
    refine (ih hs).of_eq ?_
    rw [List.append_assoc, List.cons_append, List.cons_append, List.cons_append,
      search_lineComment hw]
  | @blockComment n m w t hw _ ih =>
    have hfound := Literal.comment?_append_of_self hw (t ++ rest)
    refine (ih (s := { s with multiline := s.multiline || w.contains '\n' }) hs).of_eq ?_
    rw [List.append_assoc, List.cons_append, List.cons_append, search_blockComment hfound]
  | @string n m q c w t hq hw hc _ ih =>
    have hmark : q ≠ '\\' ∧ q ≠ '/' ∧ q ∈ marks ∧ Text.closerOf? q = none ∧
        Text.isCloser q = false := by
      rcases hq with rfl | rfl <;> decide
    obtain ⟨hescape, hslash, hmem, hopener, hcloser⟩ := hmark
    have hskip : skipLiteral q (w ++ c :: (t ++ rest)) = t ++ rest := by
      rw [skipLiteral, if_pos (by simpa using hq), skipString_of_fits hw hescape hc]
    rw [List.append_assoc, List.cons_append, List.cons_append]
    refine .mark ?_ hmem (fun he => absurd he hslash) (fun _ => hcloser)
    rw [hskip]
    exact ih ((depth_next_of_plain s hopener hcloser).trans hs)
  | @template n m w t hw _ ih =>
    have hskip : skipLiteral '\x60' (w ++ '\x60' :: (t ++ rest)) = t ++ rest := by
      rw [skipLiteral, if_neg (by decide), if_pos rfl, skipTemplate_of_quasi hw]
    rw [List.append_assoc, List.cons_append, List.cons_append]
    refine .mark ?_ (by decide) (fun he => absurd he (by decide)) (fun _ => rfl)
    rw [hskip]
    exact ih ((depth_next_of_plain s rfl rfl).trans hs)
  | @opened n m c t ho _ ih =>
    have hmark : c ∈ marks ∧ c ≠ '/' ∧ Text.isCloser c = false ∧
        skipLiteral c (t ++ rest) = t ++ rest := by
      rcases opener_cases ho with rfl | rfl | rfl <;> exact ⟨by decide, by decide, rfl, rfl⟩
    obtain ⟨hmem, hslash, hcloser, hskip⟩ := hmark
    rw [List.cons_append]
    refine .mark ?_ hmem (fun he => absurd he hslash) (fun _ => hcloser)
    rw [hskip]
    exact ih (by rw [depth_next_of_opener s ho, hs])
  | @closed n m c t hc _ ih =>
    have hmark : c ∈ marks ∧ c ≠ '/' ∧ skipLiteral c (t ++ rest) = t ++ rest := by
      rcases closer_cases hc with rfl | rfl | rfl <;> exact ⟨by decide, by decide, rfl⟩
    obtain ⟨hmem, hslash, hskip⟩ := hmark
    rw [List.cons_append]
    refine .mark ?_ hmem (fun he => absurd he hslash) (fun hle => by omega)
    rw [hskip]
    exact ih (by rw [depth_next_of_closer s hc, hs]; rfl)

/-- A character that is no bracket leads over the literal that it opens, if it opens one. -/
theorem Leads.skip (h : Leads n u m) (hopener : Text.closerOf? c = none)
    (hcloser : Text.isCloser c = false)
    (hcomment : c = '/' → t.head? ≠ some '/' ∧ t.head? ≠ some '*') {x : Char}
    (hskip : skipLiteral c t = u ++ x :: after) :
    ∃ v, t = v ++ x :: after ∧ Leads n (c :: v) m := by
  have hne : u ++ x :: after ≠ [] := by simp
  unfold skipLiteral at hskip
  split_ifs at hskip with hquote htick
  · rw [← hskip] at hne
    obtain ⟨w, y, ht, hw, hy⟩ := exists_fits_of_skipString hne
    rw [hskip] at ht
    exact ⟨w ++ y :: u, by simp [ht], .string (by simpa using hquote) hw hy h⟩
  · rw [← hskip] at hne
    obtain ⟨w, ht, hw⟩ := exists_quasi_of_skipTemplate hne
    rw [hskip] at ht
    exact ⟨w ++ '\x60' :: u, by simp [ht], htick ▸ .template hw h⟩
  · refine ⟨u, hskip, ?_⟩
    subst hskip
    by_cases hslash : c = '/'
    · have hhead := hcomment hslash
      rw [hslash]
      cases u with
      | nil => exact .slash (by simp) (by simp) h
      | cons y u => exact .slash hhead.1 hhead.2 h
    · exact .plain (by simpa [mem_marks_iff, hslash, hopener, hcloser, htick] using hquote) h

/-- Where the search stops at a bracket, the text ahead of the bracket leads there. -/
theorem leads_of_search (h : search s t = .closed oneLine after) (hs : 1 ≤ s.depth) :
    ∃ inner c, t = inner ++ c :: after ∧ Text.isCloser c = true ∧ Leads s.depth inner 1 := by
  fun_induction search s t with
  | case1 | case5 | case7 => cases h
  | case2 s r ih =>
    obtain ⟨inner, x, rfl, hx, hinner⟩ := ih h hs
    exact ⟨'\n' :: inner, x, rfl, hx, .plain (by decide) hinner⟩
  | case3 s c r _ hblank ih =>
    obtain ⟨inner, x, rfl, hx, hinner⟩ := ih h hs
    have hplain : c ∉ marks := fun hc => by simp [not_blank_of_mem_marks hc] at hblank
    exact ⟨c :: inner, x, rfl, hx, .plain hplain hinner⟩
  | case4 s c r _ _ hcomment ih =>
    simp only [Bool.and_eq_true, decide_eq_true_eq] at hcomment
    obtain ⟨rfl, hhead⟩ := hcomment
    obtain ⟨r, rfl⟩ := List.head?_eq_some_iff.1 hhead
    obtain ⟨inner, x, hr, hx, hinner⟩ := ih h hs
    rw [List.dropWhile_cons_of_pos (by decide)] at hr
    obtain ⟨w, v, hw, rfl, rfl⟩ :=
      exists_line_end (by rintro rfl; cases hx) hr
    exact ⟨'/' :: '/' :: w ++ '\n' :: v, x, by simp, hx, .lineComment hw hinner⟩
  | case6 s c r hline hblank hcomment hblock body rest hsome ih =>
    simp only [Bool.and_eq_true, decide_eq_true_eq] at hblock
    obtain ⟨rfl, hhead⟩ := hblock
    obtain ⟨r, rfl⟩ := List.head?_eq_some_iff.1 hhead
    obtain ⟨inner, x, rfl, hx, hinner⟩ := ih h hs
    rw [List.tail_cons] at hsome
    refine ⟨'/' :: '*' :: body ++ inner, x, ?_, hx,
      .blockComment (Literal.comment?_self hsome) hinner⟩
    rw [Literal.comment?_append hsome]
    simp
  | case8 s c r _ _ _ _ _ hcloses =>
    cases h
    rw [closes_eq, Bool.and_eq_true, decide_eq_true_eq] at hcloses
    refine ⟨[], c, rfl, hcloses.2, ?_⟩
    rw [Nat.le_antisymm hcloses.1 hs]
    exact .nil 1
  | case9 s c r _ _ hcomment hblock _ hcloses ih =>
    have hnext := ih h
    by_cases hopener : (Text.closerOf? c).isSome
    · rw [skipLiteral_of_opener hopener, depth_next_of_opener s hopener] at hnext
      obtain ⟨inner, x, rfl, hx, hinner⟩ := hnext (Nat.le_add_left 1 _)
      exact ⟨c :: inner, x, rfl, hx, .opened hopener hinner⟩
    cases hcloser : Text.isCloser c with
    | true =>
      obtain ⟨n, hn⟩ : ∃ n, s.depth = n + 2 := by
        rw [closes_eq, hcloser, Bool.and_true, decide_eq_true_eq] at hcloses
        exact ⟨s.depth - 2, by omega⟩
      rw [skipLiteral_of_closer hcloser, depth_next_of_closer s hcloser, hn] at hnext
      obtain ⟨inner, x, rfl, hx, hinner⟩ := hnext (Nat.le_add_left 1 n)
      exact ⟨c :: inner, x, rfl, hx, hn ▸ .closed hcloser hinner⟩
    | false =>
      have hopener : Text.closerOf? c = none := by simpa using hopener
      rw [depth_next_of_plain s hopener hcloser] at hnext
      obtain ⟨inner, x, hr, hx, hinner⟩ := hnext hs
      simp only [Bool.and_eq_true, decide_eq_true_eq, not_and] at hcomment hblock
      obtain ⟨v, rfl, hv⟩ :=
        hinner.skip hopener hcloser (fun hc => ⟨hcomment hc, hblock hc⟩) hr
      exact ⟨c :: v, x, rfl, hx, hv⟩

/-- The search stops at the closing brace behind a text exactly if the text leads it there with one
bracket open. -/
theorem stops_behind_iff (h : search {} (t ++ '}' :: u) = .closed oneLine after) :
    after = u ↔ Leads 1 t 1 := by
  constructor
  · rintro rfl
    obtain ⟨inner, c, hsplit, -, hinner⟩ := leads_of_search h (Nat.le_refl 1)
    obtain ⟨rfl, -⟩ := List.append_inj' hsplit rfl
    exact hinner
  · intro ht
    have hgoesOn : GoesOn {} (t ++ '}' :: u) 1 ('}' :: u) := goesOn_of_leads ht rfl (by simp)
    rcases hgoesOn with hparted | ⟨s, hs, hgoes⟩
    · exact nomatch hparted.symm.trans h
    · have hcloses : s.closes '}' = true := by simp [closes_eq, hs, Text.isCloser]
      rw [hgoes, search_cons (by decide) (by decide) (fun hc => absurd hc (by decide))] at h
      split_ifs at h
      cases h
      rfl

end Members

end ProjectSetup
