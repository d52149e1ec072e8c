import ProjectSetup.Proofs.Import.Rows
import ProjectSetup.Proofs.Layout.Semicolons
import ProjectSetup.Proofs.Layout.Tidying

/-!
# Headers in normal forms

A script that begins with rows is laid out row by row, and the text behind them as it is below any
line that ends like the last row. Rows end as the style asks: only the last one may need its
semicolon, if the text behind it would go on with its statement.
-/
namespace ProjectSetup

open Lines (NamedImport)

namespace Lines

theorem join_lines_of_ne_nil {ts : List Text} (hne : ts ≠ []) :
    Text.join ['\n'] ts ++ ['\n'] = Header.joinLines ts := by
  induction ts with
  | nil => exact absurd rfl hne
  | cons t ts ih =>
    cases ts with
    | nil => simp [Header.joinLines]
    | cons t' ts =>
      have hrest := ih (List.cons_ne_nil t' ts)
      rw [Text.join_cons _ _ _ (List.cons_ne_nil t' ts), List.append_assoc, hrest]
      rfl

/-- The lines of a text that is laid out, as one text. -/
theorem assemble_eq_joinLines (ls : List Line) :
    assemble ls = Header.joinLines (dropEmptyEnd (squeeze true ls)) := by
  rw [assemble]
  split
  · next h => rw [h]; rfl
  · next h => exact join_lines_of_ne_nil h

theorem dropEmptyEnd_append {ts : List Text} {t : Text} (hlast : ts.getLast? = some t) (ht : t ≠ [])
    (us : List Text) : dropEmptyEnd (ts ++ us) = ts ++ dropEmptyEnd us := by
  obtain ⟨front, rfl⟩ := List.getLast?_eq_some_iff.1 hlast
  have hkeep : (t :: front.reverse).dropWhile List.isEmpty = t :: front.reverse :=
    List.dropWhile_cons_of_neg (by simpa using ht)
  rw [dropEmptyEnd, List.reverse_append, List.dropWhile_append, List.reverse_concat]
  split
  · next h =>
    rw [hkeep, dropEmptyEnd, List.isEmpty_iff.1 h]
    simp
  · simp [dropEmptyEnd]

theorem dropEmptyEnd_cons_of_ne_nil (t : Text) {ts : List Text} (h : dropEmptyEnd ts ≠ []) :
    dropEmptyEnd (t :: ts) = t :: dropEmptyEnd ts := by
  have hne : ¬(ts.reverse.dropWhile List.isEmpty).isEmpty = true := by simpa [dropEmptyEnd] using h
  rw [dropEmptyEnd, List.reverse_cons, List.dropWhile_append, if_neg hne]
  simp [dropEmptyEnd]

/-- Lines that are not blank stay, and a blank line may follow them. -/
theorem squeeze_append_of_not_blank {ts : List Text} (hts : ∀ t ∈ ts, t.blank = false)
    (e : LineEnd) (ls : List Line) (afterBlank : Bool) :
    squeeze afterBlank (ts.map (⟨·, e⟩) ++ ls) =
      ts ++ squeeze (afterBlank && ts.isEmpty) ls := by
  induction ts generalizing afterBlank with
  | nil => simp
  | cons t ts ih =>
    have ht : (⟨t, e⟩ : Line).isBlank = false := by simp [Line.isBlank, hts t List.mem_cons_self]
    have hrest := ih (fun u hu => hts u (List.mem_cons_of_mem t hu)) false
    rw [List.map_cons, List.cons_append, squeeze, if_neg (by simp [ht]), hrest]
    simp

theorem not_blank_iff {t : Text} : t.blank = false ↔ ∃ c ∈ t, Text.isBlank c = false := by
  rw [← Bool.not_eq_true, Text.blank, List.all_eq_true]
  simp

theorem exists_of_mem_itemLines {l : Text} {comma : Bool} {items : List Text}
    (hl : l ∈ NamedImport.itemLines comma items) : ∃ i ∈ items, ∀ c ∈ i, c ∈ l := by
  fun_induction NamedImport.itemLines comma items with
  | case1 => cases hl
  | case2 i =>
    rw [List.mem_singleton.1 hl]
    exact ⟨i, List.mem_cons_self, fun c hc => by simp [hc]⟩
  | case3 i is _ ih =>
    rcases List.mem_cons.1 hl with rfl | hl
    · exact ⟨i, List.mem_cons_self, fun c hc => by simp [hc]⟩
    · obtain ⟨j, hj, hmem⟩ := ih hl
      exact ⟨j, List.mem_cons_of_mem i hj, hmem⟩

/-- Wrapping makes no blank lines. -/
theorem not_blank_of_mem_wrapWide {line : Text} (hline : line.blank = false) (style : Style) :
    ∀ l ∈ wrapWide style line, l.blank = false := by
  rcases wrapWide_cases style line with hone | ⟨i, hi, hwrap⟩
  · rw [hone]
    simpa using hline
  · rw [hwrap]
    obtain ⟨list, -, hitems, -⟩ := ofLine?_eq_some hi
    intro l hl
    rw [not_blank_iff]
    rcases List.mem_append.1 hl with hl | hl
    · rcases List.mem_cons.1 hl with rfl | hl
      · exact ⟨'{', by simp, by decide⟩
      · obtain ⟨item, hitem, hmem⟩ := exists_of_mem_itemLines hl
        rw [hitems, List.mem_filter] at hitem
        obtain ⟨t, -, rfl⟩ := List.mem_map.1 hitem.1
        have hblank : t.trim.blank = false := by
          rw [← Bool.not_eq_true, ← Text.trimEnd_eq_nil, Text.trim, Text.trimEnd_trimEnd]
          simpa [Text.trim] using hitem.2
        obtain ⟨c, hc, hnot⟩ := not_blank_iff.1 hblank
        exact ⟨c, hmem c hc, hnot⟩
    · rw [List.mem_singleton.1 hl]
      exact ⟨'}', by simp, by decide⟩

theorem wrapWide_ne_nil (style : Style) (line : Text) : wrapWide style line ≠ [] := by
  obtain ⟨front, last, h, -⟩ := exists_last_wrapWide style line
  rw [h]
  simp

end Lines

namespace Import

namespace Row

variable {q : Char} {i : Import} {closed : Bool} {r : Row} {rows : List Row}

/-- The last character of a row that is not blank. -/
def mark (quote : Char) (closed : Bool) : Char := if closed then ';' else quote

theorem exists_text (i : Import) (q : Char) (closed : Bool) :
    ∃ x, (statement i closed).text q = x ++ [mark q closed] := by
  cases closed with
  | false => exact ⟨"import ".toList ++ (i.clause ++ q :: i.source), by simp [text, line_eq, mark]⟩
  | true => exact ⟨i.line q, rfl⟩

theorem getLast?_text (i : Import) (q : Char) (closed : Bool) :
    ((statement i closed).text q).getLast? = some (mark q closed) := by
  obtain ⟨x, hx⟩ := exists_text i q closed
  rw [hx, List.getLast?_concat]

theorem head?_text (i : Import) (q : Char) (closed : Bool) :
    ∃ t, (statement i closed).text q = "import ".toList ++ t :=
  ⟨_, List.append_assoc ..⟩

theorem not_blank_mark (hq : IsMark q) (closed : Bool) : Text.isBlank (mark q closed) = false := by
  cases closed with
  | false => exact isBlank_of_isMark hq
  | true => exact (by decide : Text.isBlank ';' = false)

theorem trimEnd_text (hq : IsMark q) (r : Row) : (r.text q).trimEnd = r.text q := by
  cases r with
  | blank => rfl
  | statement i closed =>
    exact Text.trimEnd_of_getLast? (getLast?_text i q closed) (not_blank_mark hq closed)

theorem not_blank_text (hq : IsMark q) (i : Import) (closed : Bool) :
    ((statement i closed).text q).blank = false :=
  Lines.not_blank_iff.2
    ⟨_, List.mem_of_getLast? (getLast?_text i q closed), not_blank_mark hq closed⟩

/-- The row with its end as the style asks, ahead of a line that may go on with its statement. -/
def ended (semi hazard : Bool) : Row → Row
  | blank => blank
  | statement i closed => statement i (semi || (closed && hazard))

theorem isModuleDeclaration_text (i : Import) (q : Char) (closed : Bool) :
    Lines.isModuleDeclaration ((statement i closed).text q) = true := by
  obtain ⟨t, ht⟩ := head?_text i q closed
  rw [ht]
  rfl

theorem startsHazardously_text (i : Import) (q : Char) (closed : Bool) :
    Lines.startsHazardously ((statement i closed).text q) = false := by
  obtain ⟨t, ht⟩ := head?_text i q closed
  rw [ht]
  rfl

theorem endStatement_text (hq : IsMark q) (semi : Bool) (r : Row) (following : List Text) :
    Lines.endStatement semi (r.text q) following =
      (r.ended semi (Lines.hazardAhead following)).text q := by
  cases r with
  | blank => cases semi <;> rfl
  | statement i closed =>
    have hmark : q ≠ ';' := by rcases hq with rfl | rfl <;> decide
    have hopen : (statement i false).text q = i.line q := List.append_nil _
    have hclosed : (statement i true).text q = i.line q ++ [';'] := rfl
    have hlast := getLast?_text i q closed
    cases semi with
    | true =>
      have hquote : ['\'', '"'].contains (mark q closed) = !closed := by
        cases closed with
        | false => rcases hq with rfl | rfl <;> rfl
        | true => rfl
      rw [Lines.endStatement, if_pos rfl, isModuleDeclaration_text, hlast, Option.any_some, hquote]
      cases closed with
      | false => exact congrArg (· ++ [';']) hopen
      | true => rfl
    | false =>
      rw [Lines.endStatement, if_neg Bool.false_ne_true, hlast]
      cases closed with
      | false =>
        rw [if_neg (by simp [mark, hmark])]
        rfl
      | true =>
        cases Lines.hazardAhead following with
        | true => rfl
        | false =>
          change Text.trimEnd ((statement i true).text q).dropLast = (statement i false).text q
          rw [hclosed, List.dropLast_concat, ← hopen, trimEnd_text hq]

/-- An import does not go on with the statement before it. -/
theorem hazardAhead_rows (hq : IsMark q) (rows : List Row) (ys : List Text) :
    Lines.hazardAhead (rows.map (text q) ++ ys) =
      (rows.all (· == blank) && Lines.hazardAhead ys) := by
  induction rows with
  | nil => simp
  | cons r rows ih =>
    cases r with
    | blank => exact ih
    | statement i closed =>
      have hfind : (text q (statement i closed) :: (rows.map (text q) ++ ys)).find?
          (fun l => !l.blank) = some (text q (statement i closed)) :=
        List.find?_cons_of_pos (by simp [not_blank_text hq])
      rw [List.map_cons, List.cons_append, Lines.hazardAhead, hfind, Option.any_some,
        startsHazardously_text, List.all_cons]
      rfl

/-- The rows with their ends as the style asks, ahead of lines that may go on with a statement. -/
def endAll (semi hazard : Bool) : List Row → List Row
  | [] => []
  | r :: rows => r.ended semi (rows.all (· == blank) && hazard) :: endAll semi hazard rows

theorem finishLines_rows {style : Style} (rows : List Row) (ys : List Text) (es : List LineEnd) :
    Lines.finishLines style (rows.map (text style.quote) ++ ys)
        (List.replicate rows.length .statement ++ es) =
      ((endAll style.semi (Lines.hazardAhead ys) rows).flatMap (lines style)).map
        (⟨·, .statement⟩) ++ Lines.finishLines style ys es := by
  have hq := isMark_quote style
  induction rows with
  | nil => rfl
  | cons r rows ih =>
    have hline : Lines.finishLine style ⟨r.text style.quote, .statement⟩
        (rows.map (text style.quote) ++ ys) =
          (lines style (r.ended style.semi (rows.all (· == blank) && Lines.hazardAhead ys))).map
            (⟨·, .statement⟩) := by
      rw [Lines.finishLine, trimEnd_text hq, endStatement_text hq, hazardAhead_rows hq]
      rfl
    rw [List.map_cons, List.cons_append, List.length_cons, List.replicate_succ, List.cons_append,
      Lines.finishLines, hline, ih, endAll, List.flatMap_cons, List.map_append, List.append_assoc]

/-- The rows without the blank ones that follow another, and without the first if `afterBlank`. -/
def squeezed (afterBlank : Bool) : List Row → List Row
  | [] => []
  | blank :: rows => if afterBlank then squeezed true rows else blank :: squeezed true rows
  | statement i closed :: rows => statement i closed :: squeezed false rows

theorem lines_blank (style : Style) : lines style blank = [[]] := Lines.wrapWide_of_none rfl style

theorem lines_ne_nil (style : Style) (r : Row) : lines style r ≠ [] := Lines.wrapWide_ne_nil style _

theorem not_blank_of_mem_lines (style : Style) (i : Import) (closed : Bool) :
    ∀ l ∈ lines style (statement i closed), l.blank = false :=
  Lines.not_blank_of_mem_wrapWide (not_blank_text (isMark_quote style) i closed) style

/-- Behind rows that end with an import, a blank line stays. -/
theorem squeeze_rows {style : Style} (hlast : rows.getLast? ≠ some blank) (afterBlank : Bool)
    (hne : rows = [] → afterBlank = false) (ls : List Line) :
    Lines.squeeze afterBlank ((rows.flatMap (lines style)).map (⟨·, .statement⟩) ++ ls) =
      (squeezed afterBlank rows).flatMap (lines style) ++ Lines.squeeze false ls := by
  induction rows generalizing afterBlank with
  | nil => rw [hne rfl]; rfl
  | cons r rows ih =>
    have hlast' : rows.getLast? ≠ some blank := by
      cases rows with
      | nil => simp
      | cons r' rows => rwa [List.getLast?_cons_cons] at hlast
    cases r with
    | blank =>
      have hrest := ih hlast' true (by rintro rfl; exact absurd rfl hlast)
      have hblank : (⟨[], .statement⟩ : Line).isBlank = true := rfl
      rw [List.flatMap_cons, lines_blank, List.map_append, List.map_singleton, List.append_assoc,
        List.singleton_append, Lines.squeeze, if_pos hblank, hrest, squeezed]
      split
      · rfl
      · rw [List.flatMap_cons, lines_blank]
        rfl
    | statement i closed =>
      have hempty : (lines style (statement i closed)).isEmpty = false := by
        simpa using lines_ne_nil style (statement i closed)
      rw [List.flatMap_cons, List.map_append, List.append_assoc,
        Lines.squeeze_append_of_not_blank (not_blank_of_mem_lines style i closed), hempty,
        Bool.and_false, ih hlast' false fun _ => rfl, squeezed, List.flatMap_cons,
        List.append_assoc]

theorem getLast?_endAll (semi hazard : Bool) (rows : List Row) :
    (endAll semi hazard rows).getLast? = rows.getLast?.map (ended semi hazard) := by
  induction rows with
  | nil => rfl
  | cons r rows ih =>
    cases rows with
    | nil => rfl
    | cons r' rows =>
      rw [List.getLast?_cons_cons, ← ih]
      rfl

theorem getLast?_squeezed (hlast : rows.getLast? ≠ some blank) (afterBlank : Bool) :
    (squeezed afterBlank rows).getLast? = rows.getLast? := by
  induction rows generalizing afterBlank with
  | nil => rfl
  | cons r rows ih =>
    have hlast' : rows.getLast? ≠ some blank := by
      cases rows with
      | nil => simp
      | cons r' rows => rwa [List.getLast?_cons_cons] at hlast
    cases r with
    | blank =>
      rw [squeezed]
      split
      · cases rows with
        | nil => exact absurd rfl hlast
        | cons r' rows => rw [ih hlast', List.getLast?_cons_cons]
      · rw [List.getLast?_cons, List.getLast?_cons, ih hlast']
    | statement i closed => rw [squeezed, List.getLast?_cons, List.getLast?_cons, ih hlast']

/-- The rows as finishing leaves them. -/
def finished (semi hazard : Bool) (rows : List Row) : List Row :=
  squeezed true (endAll semi hazard rows)

theorem getLast?_finished (semi hazard : Bool)
    (hlast : rows.getLast? = some (statement i closed)) :
    (finished semi hazard rows).getLast? = some (statement i (semi || (closed && hazard))) := by
  have hended : (endAll semi hazard rows).getLast? =
      some (statement i (semi || (closed && hazard))) := by
    rw [getLast?_endAll, hlast]
    rfl
  rw [finished, getLast?_squeezed (by simp [hended]), hended]

theorem exists_last_line (style : Style) (hlast : rows.getLast? = some (statement i closed)) :
    ∃ l, (rows.flatMap (lines style)).getLast? = some l ∧ l ≠ [] := by
  obtain ⟨front, rfl⟩ := List.getLast?_eq_some_iff.1 hlast
  have hne := lines_ne_nil style (statement i closed)
  refine ⟨(lines style (statement i closed)).getLast hne, ?_, ?_⟩
  · rw [List.flatMap_append, List.flatMap_singleton, List.getLast?_append_of_ne_nil _ hne,
      List.getLast?_eq_some_getLast hne]
  · intro he
    have hblank := not_blank_of_mem_lines style i closed _ (List.getLast_mem hne)
    rw [he] at hblank
    cases hblank

theorem newline_not_mem_text (hq : IsMark q) (hr : r.Plain) : '\n' ∉ r.text q := by
  cases r with
  | blank => exact List.not_mem_nil
  | statement i closed =>
    have hi := hr.newline_not_mem hq
    cases closed <;> simp [text, hi]

end Row

end Import

namespace Lines

open Import (Row)

/-- What finishing makes of a text below a line that is not blank. -/
def finishBelow (style : Style) (y : Text) (es : List LineEnd) : Text :=
  Header.joinLines (dropEmptyEnd (squeeze false
    (finishLines style (Text.splitOn '\n' y) (es ++ [.statement]))))

theorem splitOn_joinLines {ls : List Text} (hls : ∀ l ∈ ls, '\n' ∉ l) (y : Text) :
    Text.splitOn '\n' (Header.joinLines ls ++ y) = ls ++ Text.splitOn '\n' y := by
  induction ls with
  | nil => rfl
  | cons l ls ih =>
    rw [Header.joinLines_cons, List.append_assoc, List.cons_append, Text.splitOn_append_cons,
      Text.splitOn_of_not_mem (hls l List.mem_cons_self),
      ih fun k hk => hls k (List.mem_cons_of_mem l hk)]
    rfl

/-- Rows are finished by themselves, and the text behind them below a line that is not blank. -/
theorem finish_rows {style : Style} {rows : List Row} {i : Import} {closed : Bool}
    (hrows : ∀ r ∈ rows, r.Plain) (hlast : rows.getLast? = some (.statement i closed)) (y : Text)
    (es : List LineEnd) :
    finish style (Header.joinLines (rows.map (Row.text style.quote)) ++ y)
        (List.replicate rows.length .statement ++ (es ++ [.statement])) =
      Header.joinLines ((Row.finished style.semi (hazardAhead (Text.splitOn '\n' y)) rows).flatMap
        (Row.lines style)) ++ finishBelow style y es := by
  have hq := Import.isMark_quote style
  have hlines : ∀ l ∈ rows.map (Row.text style.quote), '\n' ∉ l := by
    intro l hl
    obtain ⟨r, hr, rfl⟩ := List.mem_map.1 hl
    exact Row.newline_not_mem_text hq (hrows r hr)
  have hended : (Row.endAll style.semi (hazardAhead (Text.splitOn '\n' y)) rows).getLast? =
      some (.statement i (style.semi || (closed && hazardAhead (Text.splitOn '\n' y)))) := by
    rw [Row.getLast?_endAll, hlast]
    rfl
  have hne : Row.endAll style.semi (hazardAhead (Text.splitOn '\n' y)) rows ≠ [] := by
    intro he
    rw [he] at hended
    cases hended
  obtain ⟨l, hl, hline⟩ := Row.exists_last_line style (Row.getLast?_finished style.semi
    (hazardAhead (Text.splitOn '\n' y)) hlast)
  rw [finish, splitOn_joinLines hlines, Row.finishLines_rows, assemble_eq_joinLines,
    Row.squeeze_rows (by simp [hended]) true (fun he => absurd he hne), ← Row.finished,
    dropEmptyEnd_append hl hline, Header.joinLines_append]
  rfl

end Lines

section Normal

open Import (Row)

variable {style style' : Style} {rows : List Row} {i : Import} {closed : Bool} {t : Text}

namespace Draft

variable {q m : Char} {ls : List Text} {s y : Text} {es : List LineEnd}

theorem follows_addLines_of_getLast? (hmark : m = '\'' ∨ m = '"' ∨ m = ';') {l : Text}
    (hl : ls.getLast? = some l) (hm : l.getLast? = some m) (b : Draft) :
    (b.addLines ls).Follows m := by
  obtain ⟨front, rfl⟩ := List.getLast?_eq_some_iff.1 hl
  obtain ⟨x, rfl⟩ := List.getLast?_eq_some_iff.1 hm
  refine ⟨⟨x.reverse ++ ((Header.joinLines front).reverse ++ b.back), ?_⟩, hmark⟩
  rw [back_addLines, Header.joinLines_append]
  simp [Header.joinLines]

theorem follows_addLines (hq : IsMark q) (hlast : rows.getLast? = some (.statement i closed)) :
    (({} : Draft).addLines (rows.map (Row.text q))).Follows (Row.mark q closed) := by
  refine follows_addLines_of_getLast? ?_ (by rw [List.getLast?_map, hlast]; rfl)
    (Row.getLast?_text i q closed) _
  cases closed with
  | false => exact hq.imp id .inl
  | true => exact .inr (.inr rfl)

theorem Follows.recount {b : Draft} (h : b.Follows m) (n : Nat) :
    (b.recount n).Follows m := ⟨h.above, h.mark⟩

theorem free_lines (ls : List Text) (n : Nat) : ((({} : Draft).addLines ls).recount n).Free :=
  (Free.addLines ⟨rfl, rfl⟩ _).recount n

theorem text_of_back {e : Draft} {n : Nat}
    (hback : e.back = y.reverse ++ ((({} : Draft).addLines ls).recount n).back) :
    e.text = Header.joinLines ls ++ y := by
  have hlines := back_addLines {} ls
  rw [text, hback]
  simp [Draft.recount, hlines]

theorem lineEnds_of_ends {e : Draft} {n : Nat}
    (hends : e.ends = es.reverse ++ ((({} : Draft).addLines ls).recount n).ends) :
    e.lineEnds = List.replicate ls.length .statement ++ (es ++ [.statement]) := by
  have hlines := ends_addLines {} ls
  rw [lineEnds, hends]
  simp [Draft.recount, hlines]

/-- A script that begins with lines is read as they are written, and then as below them. -/
theorem exists_collapse_below (hs : Takes q {} s (({} : Draft).addLines ls))
    (hfollows : (({} : Draft).addLines ls).Follows m) (hbelow : Below q m t y es) :
    ∃ e, collapse q (s ++ t) = .ok e ∧ e.text = Header.joinLines ls ++ y ∧
      e.lineEnds = List.replicate ls.length .statement ++ (es ++ [.statement]) := by
  obtain ⟨n, hread⟩ := hs t
  have hfree := free_lines ls n
  obtain ⟨e, he, hback, hends, hframes⟩ := hbelow _ (hfollows.recount n) hfree.frames hfree.pad
  refine ⟨e, ?_, text_of_back hback, lineEnds_of_ends hends⟩
  rw [collapse, hread, he]
  simp only [hframes]

/-- What a script holds below its first lines is read as below their last one. -/
theorem exists_below_of_collapse (hq : IsMark q) (hs : Takes q {} s (({} : Draft).addLines ls))
    (hfollows : (({} : Draft).addLines ls).Follows m) {e : Draft}
    (h : collapse q (s ++ t) = .ok e) :
    ∃ y es, (∀ m', m = m' ∨ Text.opensSlash t = false → Below q m' t y es) ∧
      e.text = Header.joinLines ls ++ y ∧
        e.lineEnds = List.replicate ls.length .statement ++ (es ++ [.statement]) := by
  obtain ⟨n, hread⟩ := hs t
  have hfree := free_lines ls n
  have hreads := read_of_collapse h
  rw [hread] at hreads
  obtain ⟨y, es, hbelow, hback, hends⟩ := exists_below (hfollows.recount n)
    (isBlank_of_isMark hq) hfree.frames hfree.pad hreads (frames_of_collapse h)
  exact ⟨y, es, hbelow, text_of_back hback, lineEnds_of_ends hends⟩

/-- Rows at the beginning of a script are read as lines of their own. -/
theorem takes_header (hrows : ∀ r ∈ rows, r.Plain) (hquote : style'.quote = style.quote) :
    Takes style.quote {} (Header.joinLines (rows.flatMap (Row.lines style')))
      (({} : Draft).addLines (rows.map (Row.text style.quote))) := by
  have htakes := atLine_empty.takes_rows hrows style'
  rwa [hquote] at htakes

end Draft

/-- A script that begins with rows is laid out row by row, and the text behind them as below any
line that ends like the last row. -/
theorem normalizeScript_rows (hrows : ∀ r ∈ rows, r.Plain)
    (hlast : rows.getLast? = some (.statement i closed)) (hquote : style'.quote = style.quote)
    {y : Text} {es : List LineEnd}
    (hbelow : Draft.Below style.quote (Row.mark style.quote closed) t y es) :
    normalizeScript style (Header.joinLines (rows.flatMap (Row.lines style')) ++ t) =
      .ok (Header.joinLines ((Row.finished style.semi
        (Lines.hazardAhead (Text.splitOn '\n' y)) rows).flatMap (Row.lines style)) ++
          Lines.finishBelow style y es) := by
  obtain ⟨e, he, htext, hends⟩ := Draft.exists_collapse_below (Draft.takes_header hrows hquote)
    (Draft.follows_addLines (Import.isMark_quote style) hlast) hbelow
  rw [List.length_map] at hends
  rw [normalizeScript, he, Except.map, htext, hends, Lines.finish_rows hrows hlast]

/-- If a script that begins with rows has a normal form, the text behind them can be read. -/
theorem exists_below_rows (hrows : ∀ r ∈ rows, r.Plain)
    (hlast : rows.getLast? = some (.statement i closed)) (hquote : style'.quote = style.quote)
    {c : Text}
    (h : normalizeScript style (Header.joinLines (rows.flatMap (Row.lines style')) ++ t) = .ok c) :
    ∃ y es, Draft.Below style.quote (Row.mark style.quote closed) t y es ∧
      c = Header.joinLines ((Row.finished style.semi
        (Lines.hazardAhead (Text.splitOn '\n' y)) rows).flatMap (Row.lines style)) ++
          Lines.finishBelow style y es := by
  have hq := Import.isMark_quote style
  obtain ⟨d, hd, -⟩ := normalizeScript_eq_ok_iff.1 h
  obtain ⟨y, es, hbelow, -⟩ := Draft.exists_below_of_collapse hq
    (Draft.takes_header hrows hquote) (Draft.follows_addLines hq hlast) hd
  rw [normalizeScript_rows hrows hlast hquote (hbelow _ (.inl rfl))] at h
  exact ⟨y, es, hbelow _ (.inl rfl), (Except.ok.inj h).symm⟩

end Normal

end ProjectSetup
