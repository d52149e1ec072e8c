import Mathlib.Data.List.Destutter
import ProjectSetup.Proofs.Import.Header
import ProjectSetup.Proofs.Layout.Finishing

/-!
# Spacing of plain files

In a file that is no script the lines lose the blanks at their ends, no empty line stays at either
end of the file, and one stays of each run of empty lines between. Nothing else is touched, so a
file is spaced once and for all, and carriage returns ahead of line breaks do not matter.
-/
namespace ProjectSetup

namespace Text

/-- The lines of a text without the blanks at their ends. -/
def bareLines (t : Text) : List Text := (splitOn '\n' t).map trimEnd

/-- The text with a carriage return ahead of each line break. -/
def withReturns (t : Text) : Text := t.flatMap fun c => if c = '\n' then ['\r', '\n'] else [c]

/-- Blanks at the end of a text do not count for what is trimmed. -/
theorem trimEnd_append_of_blank (t : Text) {s : Text} (hs : s.blank = true) :
    (t ++ s).trimEnd = t.trimEnd := by
  have hall : ∀ c ∈ s.reverse, isBlank c = true := by
    intro c hc
    exact List.all_eq_true.1 hs c (List.mem_reverse.1 hc)
  rw [trimEnd, List.reverse_append, List.dropWhile_append_of_pos hall]
  rfl

theorem trimEnd_cons_trimEnd (c : Char) (t : Text) : trimEnd (c :: t.trimEnd) = trimEnd (c :: t) := by
  obtain ⟨s, hs, ht⟩ := exists_trimEnd t
  have hend := trimEnd_append_of_blank (c :: t.trimEnd) hs
  rw [List.cons_append, ← ht] at hend
  exact hend.symm

theorem bareLines_cons_break (t : Text) : bareLines ('\n' :: t) = [] :: bareLines t := by
  simp [bareLines, splitOn]

/-- The first line is longer by a character, and the others stay. -/
theorem bareLines_cons {c : Char} (hc : c ≠ '\n') (t : Text) :
    ∃ l ls, bareLines t = l :: ls ∧ bareLines (c :: t) = trimEnd (c :: l) :: ls := by
  obtain ⟨p, ps, ht, hct⟩ := splitOn_cons_of_ne hc t
  refine ⟨p.trimEnd, ps.map trimEnd, ?_, ?_⟩
  · rw [bareLines, ht, List.map_cons]
  · rw [bareLines, hct, List.map_cons, trimEnd_cons_trimEnd]

theorem bareLines_withReturns (t : Text) : bareLines t.withReturns = bareLines t := by
  induction t with
  | nil => rfl
  | cons c t ih =>
    rw [withReturns, List.flatMap_cons, ← withReturns]
    by_cases hc : c = '\n'
    · rw [if_pos hc, hc, bareLines_cons_break]
      obtain ⟨l, ls, hbreak, hreturn⟩ :=
        bareLines_cons (c := '\r') (by decide) ('\n' :: withReturns t)
      rw [bareLines_cons_break, ih, List.cons.injEq] at hbreak
      obtain ⟨rfl, rfl⟩ := hbreak
      exact hreturn
    · rw [if_neg hc]
      obtain ⟨l, ls, ht, hct⟩ := bareLines_cons hc t
      obtain ⟨l', ls', ht', hct'⟩ := bareLines_cons hc (withReturns t)
      rw [ih, ht, List.cons.injEq] at ht'
      rw [List.singleton_append, hct', hct, ht'.1, ht'.2]

/-- A line that has been trimmed is blank only if it is empty. -/
theorem blank_of_mem_bareLines {l t : Text} (h : l ∈ bareLines t) : l.blank = l.isEmpty := by
  obtain ⟨k, -, rfl⟩ := List.mem_map.1 h
  rw [Bool.eq_iff_iff, List.isEmpty_iff, blank_trimEnd, trimEnd_eq_nil]

theorem newline_not_mem_bareLines {l t : Text} (h : l ∈ bareLines t) : '\n' ∉ l := by
  obtain ⟨k, hk, rfl⟩ := List.mem_map.1 h
  exact fun hn => not_mem_of_mem_splitOn hk (mem_of_mem_trimEnd hn)

theorem filter_bareLines (t : Text) : (bareLines t).filter (!·.isEmpty) =
    ((splitOn '\n' t).filter (!·.blank)).map trimEnd := by
  have hkept (l : Text) : (!l.trimEnd.isEmpty) = !l.blank := by
    rw [Bool.not_inj_iff, Bool.eq_iff_iff, List.isEmpty_iff, trimEnd_eq_nil]
  rw [bareLines, List.filter_map]
  exact congrArg _ (List.filter_congr fun l _ => hkept l)

end Text

namespace Lines

open Text (bareLines)

/-- One of two lines has text. -/
def Apart (k l : Text) : Prop := k ≠ [] ∨ l ≠ []

instance : DecidableRel Apart := fun k l => inferInstanceAs (Decidable (k ≠ [] ∨ l ≠ []))

/-- The lines without the empty ones at both ends, and with the first one only of each run of empty
lines between. -/
def spaced (ls : List Text) : List Text :=
  ((ls.rdropWhile List.isEmpty).dropWhile List.isEmpty).destutter Apart

/-- The lines below `k` are squeezed as runs of empty lines are joined. -/
theorem destutter'_apart (k : Text) {ls : List Text} (h : ∀ l ∈ ls, l.blank = l.isEmpty) :
    ls.destutter' Apart k = k :: squeeze k.isEmpty (plain ls) := by
  induction ls generalizing k with
  | nil => rfl
  | cons l ls ih =>
    obtain ⟨hl, hls⟩ := List.forall_mem_cons.1 h
    rw [plain_cons, squeeze, isBlank_plain, hl]
    cases l with
    | nil =>
      cases k with
      | nil =>
        rw [List.destutter'_cons_neg _ (by simp [Apart]), ih [] hls]
        rfl
      | cons c k =>
        rw [List.destutter'_cons_pos _ (by simp [Apart]), ih [] hls]
        rfl
    | cons d l =>
      rw [List.destutter'_cons_pos _ (by simp [Apart]), ih (d :: l) hls]
      rfl

theorem squeeze_eq_destutter {ls : List Text} (h : ∀ l ∈ ls, l.blank = l.isEmpty) :
    squeeze true (plain ls) = (ls.dropWhile List.isEmpty).destutter Apart := by
  induction ls with
  | nil => rfl
  | cons l ls ih =>
    obtain ⟨hl, hls⟩ := List.forall_mem_cons.1 h
    rw [plain_cons, squeeze, isBlank_plain, hl]
    cases l with
    | nil => exact ih hls
    | cons c l =>
      rw [List.dropWhile_cons_of_neg (by simp), List.destutter_cons', destutter'_apart _ hls]
      rfl

/-- A line with text stays behind the lines ahead of it. -/
theorem squeeze_concat {l : Text} (hl : l.blank = false) (ls : List Text) (afterBlank : Bool) :
    squeeze afterBlank (plain (ls ++ [l])) = squeeze afterBlank (plain ls) ++ [l] := by
  induction ls generalizing afterBlank with
  | nil => simp [plain, squeeze, Line.isBlank, hl]
  | cons k ls ih =>
    rw [List.cons_append, plain_cons, plain_cons, squeeze, squeeze, ih, ih]
    split_ifs <;> rfl

/-- It is the same to drop the empty lines at the end before lines are squeezed or afterwards. -/
theorem dropEmptyEnd_squeeze_eq {ls : List Text} (h : ∀ l ∈ ls, l.blank = l.isEmpty) :
    dropEmptyEnd (squeeze true (plain ls)) = squeeze true (plain (ls.rdropWhile List.isEmpty)) := by
  obtain ⟨es, hes, hsplit⟩ := exists_empty_end ls
  obtain ⟨fs, hfs, hsqueeze⟩ := squeeze_append_empty true (dropEmptyEnd ls) hes
  rw [← hsplit] at hsqueeze
  rw [hsqueeze, dropEmptyEnd_append_empty _ hfs]
  change _ = squeeze true (plain (dropEmptyEnd ls))
  rcases List.eq_nil_or_concat' (dropEmptyEnd ls) with hnil | ⟨front, l, hlast⟩
  · rw [hnil]
    rfl
  · have hl : l ≠ [] := by
      have hend := List.rdropWhile_last_not List.isEmpty ls (by
        change dropEmptyEnd ls ≠ []
        simp [hlast])
      intro hnil
      apply hend
      change ((dropEmptyEnd ls).getLast _).isEmpty = true
      simp [hlast, hnil]
    have hmem : l ∈ ls := mem_dropEmptyEnd (by rw [hlast]; simp)
    have hblank : l.blank = false := by
      rw [h l hmem]
      simpa using hl
    rw [hlast, squeeze_concat hblank]
    have hkept := dropEmptyEnd_append (List.getLast?_concat (l := squeeze true (plain front))) hl []
    rw [List.append_nil] at hkept
    exact hkept.trans (List.append_nil _)

theorem dropEmptyEnd_squeeze_spaced {ls : List Text} (h : ∀ l ∈ ls, l.blank = l.isEmpty) :
    dropEmptyEnd (squeeze true (plain ls)) = spaced ls := by
  rw [dropEmptyEnd_squeeze_eq h]
  exact squeeze_eq_destutter fun l hl => h l ((List.rdropWhile_prefix _ ls).subset hl)

theorem tidy_eq_spaced (t : Text) : tidy t = Header.joinLines (spaced (bareLines t)) := by
  rw [tidy_eq, assemble_eq_joinLines]
  exact congrArg _ (dropEmptyEnd_squeeze_spaced fun l hl => Text.blank_of_mem_bareLines hl)

theorem spaced_sublist (ls : List Text) : (spaced ls).Sublist ls :=
  (List.destutter_sublist _ _).trans
    ((List.dropWhile_sublist _).trans (List.rdropWhile_prefix _ ls).sublist)

/-- No line with text is lost. -/
theorem filter_spaced {ls : List Text} (h : ∀ l ∈ ls, l.blank = l.isEmpty) :
    (spaced ls).filter (!·.isEmpty) = ls.filter (!·.isEmpty) := by
  have hsqueeze (b : Bool) : (squeeze b (plain ls)).filter (!·.isEmpty) =
      ls.filter (!·.isEmpty) := by
    induction ls generalizing b with
    | nil => rfl
    | cons l ls ih =>
      obtain ⟨hl, hls⟩ := List.forall_mem_cons.1 h
      rw [plain_cons, squeeze, isBlank_plain, hl]
      cases l with
      | nil => cases b <;> exact ih hls true
      | cons c l => exact congrArg ((c :: l) :: ·) (ih hls false)
  obtain ⟨es, hes, hsplit⟩ := exists_empty_end (squeeze true (plain ls))
  have hempty : es.filter (!·.isEmpty) = [] := by
    rw [List.filter_eq_nil_iff]
    intro e he
    simp [hes e he]
  rw [← hsqueeze true, hsplit, List.filter_append, hempty, List.append_nil,
    dropEmptyEnd_squeeze_spaced h]

/-- Lines with text are spaced, and so is a file that ends in a line break behind the last one. -/
theorem spaced_concat_nil {ls : List Text} (h : ∀ l ∈ ls, l ≠ []) : spaced (ls ++ [[]]) = ls := by
  have hend : ls.rdropWhile List.isEmpty = ls := by
    rw [List.rdropWhile_eq_self_iff]
    intro hne
    simpa using h _ (List.getLast_mem hne)
  have hfront : ls.dropWhile List.isEmpty = ls := by
    rw [List.dropWhile_eq_self_iff]
    intro hpos
    simpa using h _ (List.getElem_mem hpos)
  have hapart : ls.Pairwise Apart :=
    List.pairwise_of_forall_mem_list fun k hk _ _ => Or.inl (h k hk)
  rw [spaced, List.rdropWhile_concat_pos _ _ _ rfl, hend, hfront, List.destutter_eq_self_iff]
  exact hapart.isChain

/-- A file of such lines stays as it is, if no blank stands at the end of one. -/
theorem tidy_joinLines {ls : List Text} (h : ∀ l ∈ ls, l ≠ [] ∧ l.trimEnd = l ∧ '\n' ∉ l) :
    tidy (Header.joinLines ls) = Header.joinLines ls := by
  have hsplit := splitOn_joinLines (fun l hl => (h l hl).2.2) []
  rw [List.append_nil] at hsplit
  have hbare : bareLines (Header.joinLines ls) = ls ++ [[]] := by
    rw [bareLines, hsplit, List.map_append]
    congr 1
    exact (List.map_congr_left fun l hl => (h l hl).2.1).trans (List.map_id ls)
  rw [tidy_eq_spaced, hbare, spaced_concat_nil fun l hl => (h l hl).1]

end Lines

open Text (bareLines)

/-- A file that is no script is given its lines without blanks at their ends, spaced. So nothing
changes when that is done again, its lines with text stay in their order, and it does not matter
whether carriage returns stand ahead of the line breaks. -/
theorem normalize_spaces_plain_file {path : String} (plain : isScript path = false)
    (o : StyleOverrides) (source : Text) :
    ∃ y, normalize path o source = .ok y ∧
      y = (Lines.spaced (bareLines source)).flatMap (· ++ ['\n']) ∧
      normalize path o y = .ok y ∧
      (Text.splitOn '\n' y).filter (!·.blank) =
        ((Text.splitOn '\n' source).filter (!·.blank)).map Text.trimEnd ∧
      normalize path o source.withReturns = .ok y := by
  have hlines : ∀ l ∈ bareLines source, l.blank = l.isEmpty :=
    fun l hl => Text.blank_of_mem_bareLines hl
  refine ⟨Lines.tidy source, normalize_of_plain plain o source, Lines.tidy_eq_spaced source, ?_,
    ?_, ?_⟩
  · rw [normalize_of_plain plain, Lines.tidy_tidy]
  · have hkept : ∀ l ∈ Lines.spaced (bareLines source), '\n' ∉ l ∧ l.blank = l.isEmpty := by
      intro l hl
      have hmem := (Lines.spaced_sublist _).subset hl
      exact ⟨Text.newline_not_mem_bareLines hmem, hlines l hmem⟩
    have hsplit := Lines.splitOn_joinLines (fun l hl => (hkept l hl).1) []
    rw [List.append_nil, ← Lines.tidy_eq_spaced] at hsplit
    rw [hsplit, List.filter_append, ← Text.filter_bareLines, ← Lines.filter_spaced hlines]
    rw [List.filter_congr fun l hl => congrArg _ (hkept l hl).2]
    exact List.append_nil _
  · rw [normalize_of_plain plain, Lines.tidy_eq_spaced, Text.bareLines_withReturns,
      ← Lines.tidy_eq_spaced]

/-- Blank lines at both ends and in a run, with other blanks than spaces among them. -/
theorem normalize_spaces_plain_file_read_me :
    isScript "README.md" = false ∧
      normalize "README.md" {} "\n\u00a0\n# A \t\n \n\n\r\n b\n\n".toList = .ok "# A\n\n b\n".toList ∧
      normalize "README.md" {} (Text.withReturns "\n\u00a0\n# A \t\n \n\n\r\n b\n\n".toList) =
        .ok "# A\n\n b\n".toList := by
  have plain : isScript "README.md" = false := by decide
  obtain ⟨y, hy, hlines, -, -, hreturns⟩ :=
    normalize_spaces_plain_file plain {} "\n\u00a0\n# A \t\n \n\n\r\n b\n\n".toList
  have hvalue : y = "# A\n\n b\n".toList := by
    rw [hlines]
    decide
  rw [hvalue] at hy hreturns
  exact ⟨plain, hy, hreturns⟩

end ProjectSetup
