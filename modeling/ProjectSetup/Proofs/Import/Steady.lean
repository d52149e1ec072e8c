import ProjectSetup.Proofs.Import.Header

/-!
# Steady headers

A file that a command leaves behind is the normal form of its single-line form. Where such a file
begins with rows, the rows have nothing left to lose: each of them ends as the style asks, and none
of them is a second blank line.
-/
namespace ProjectSetup

namespace Import

namespace Row

variable {q : Char} {i : Import} {closed : Bool} {r : Row} {rows : List Row}

theorem mem_endAll {semi hazard : Bool} (h : r ∈ endAll semi hazard rows) :
    ∃ r' ∈ rows, ∃ hazard', r = r'.ended semi hazard' := by
  induction rows with
  | nil => cases h
  | cons r' rows ih =>
    rcases List.mem_cons.1 h with rfl | h
    · exact ⟨r', List.mem_cons_self, _, rfl⟩
    · obtain ⟨r'', hr, hended⟩ := ih h
      exact ⟨r'', List.mem_cons_of_mem _ hr, hended⟩

theorem squeezed_sublist (afterBlank : Bool) (rows : List Row) :
    (squeezed afterBlank rows).Sublist rows := by
  fun_induction squeezed afterBlank rows with
  | case1 => exact List.Sublist.refl _
  | case2 rows ih => exact ih.cons blank
  | case3 _ rows _ ih => exact ih.cons_cons blank
  | case4 _ i closed rows ih => exact ih.cons_cons _

theorem mem_finished {semi hazard : Bool} (h : r ∈ finished semi hazard rows) :
    ∃ r' ∈ rows, ∃ hazard', r = r'.ended semi hazard' :=
  mem_endAll ((squeezed_sublist true _).subset h)

theorem length_endAll (semi hazard : Bool) (rows : List Row) :
    (endAll semi hazard rows).length = rows.length := by
  induction rows with
  | nil => rfl
  | cons r rows ih => rw [endAll, List.length_cons, List.length_cons, ih]

theorem ended_beq_blank (semi hazard : Bool) (r : Row) :
    (r.ended semi hazard == blank) = (r == blank) := by
  cases r with
  | blank => rfl
  | statement i closed => rfl

theorem all_blank_endAll (semi hazard : Bool) (rows : List Row) :
    (endAll semi hazard rows).all (· == blank) = rows.all (· == blank) := by
  induction rows with
  | nil => rfl
  | cons r rows ih => rw [endAll, List.all_cons, List.all_cons, ih, ended_beq_blank]

theorem countP_squeezed (afterBlank : Bool) (rows : List Row) :
    (squeezed afterBlank rows).countP (· != blank) = rows.countP (· != blank) := by
  fun_induction squeezed afterBlank rows with
  | case1 => rfl
  | case2 rows ih => simpa using ih
  | case3 _ rows _ ih => simpa using ih
  | case4 _ i closed rows ih => rw [List.countP_cons, List.countP_cons, ih]

theorem countP_endAll (semi hazard : Bool) (rows : List Row) :
    (endAll semi hazard rows).countP (· != blank) = rows.countP (· != blank) := by
  induction rows with
  | nil => rfl
  | cons r rows ih =>
    have hr : (r.ended semi (rows.all (· == blank) && hazard) != blank) = (r != blank) :=
      congrArg not (ended_beq_blank _ _ r)
    rw [endAll, List.countP_cons, List.countP_cons, ih, hr]

/-- Finishing keeps the number of imports. -/
theorem countP_finished (semi hazard : Bool) (rows : List Row) :
    (finished semi hazard rows).countP (· != blank) = rows.countP (· != blank) := by
  rw [finished, countP_squeezed, countP_endAll]

theorem ended_of_twice {semi hazard hazard' : Bool}
    (h : ((r.ended semi hazard).ended semi hazard').text q = r.text q) :
    r.ended semi hazard = r := by
  cases r with
  | blank => rfl
  | statement i closed =>
    have hstop := List.append_cancel_left h
    have hflag : (semi || ((semi || (closed && hazard)) && hazard')) = closed := by
      cases hc : (semi || ((semi || (closed && hazard)) && hazard')) with
      | false => cases closed <;> simp_all
      | true => cases closed <;> simp_all
    rw [ended, statement.injEq]
    refine ⟨rfl, ?_⟩
    cases semi <;> cases closed <;> simp_all

/-- Rows that two passes leave unchanged are left unchanged by each. -/
theorem endAll_of_twice {semi hazard hazard' : Bool}
    (h : (endAll semi hazard' (endAll semi hazard rows)).map (text q) = rows.map (text q)) :
    endAll semi hazard rows = rows := by
  induction rows with
  | nil => rfl
  | cons r rows ih =>
    rw [endAll, endAll, all_blank_endAll, List.map_cons, List.map_cons, List.cons.injEq] at h
    rw [endAll, ended_of_twice h.1, ih h.2]

/-- The two passes over rows: if both together leave their lines as they are, so does the first. -/
theorem finished_of_twice {semi hazard hazard' : Bool}
    (h : (finished semi hazard' (finished semi hazard rows)).map (text q) = rows.map (text q)) :
    endAll semi hazard rows = rows ∧ squeezed true rows = rows := by
  have hlength := congrArg List.length h
  rw [List.length_map, List.length_map] at hlength
  have hfirst : (finished semi hazard rows).length ≤ rows.length := by
    have hle := (squeezed_sublist true (endAll semi hazard rows)).length_le
    rwa [length_endAll] at hle
  have hsecond : (finished semi hazard' (finished semi hazard rows)).length ≤
      (finished semi hazard rows).length := by
    have hle := (squeezed_sublist true (endAll semi hazard' (finished semi hazard rows))).length_le
    rwa [length_endAll] at hle
  have hkeep : finished semi hazard rows = endAll semi hazard rows :=
    (squeezed_sublist true _).eq_of_length <| by
      rw [length_endAll]
      exact hfirst.antisymm (hlength ▸ hsecond)
  have hkeep' : finished semi hazard' (endAll semi hazard rows) =
      endAll semi hazard' (endAll semi hazard rows) := by
    rw [hkeep] at hlength
    refine (squeezed_sublist true _).eq_of_length ?_
    rw [length_endAll, length_endAll]
    exact hlength
  rw [hkeep, hkeep'] at h
  have hended := endAll_of_twice h
  exact ⟨hended, by rwa [finished, hended] at hkeep⟩

/-- The import of the row is shorter than `n` on one line. -/
def Fits (n : Nat) (quote : Char) : Row → Prop
  | blank => True
  | statement i _ => (i.line quote).length < n

theorem Plain.ended (hr : r.Plain) (semi hazard : Bool) : (r.ended semi hazard).Plain := by
  cases r with
  | blank => exact hr
  | statement i closed => exact hr

theorem Fits.ended {n : Nat} (hr : r.Fits n q) (semi hazard : Bool) :
    (r.ended semi hazard).Fits n q := by
  cases r with
  | blank => exact hr
  | statement i closed => exact hr

theorem plain_finished {semi hazard : Bool} (h : ∀ r ∈ rows, r.Plain) :
    ∀ r ∈ finished semi hazard rows, r.Plain := by
  intro r hr
  obtain ⟨r', hr', hazard', rfl⟩ := mem_finished hr
  exact (h r' hr').ended semi hazard'

theorem fits_finished {n : Nat} {semi hazard : Bool} (h : ∀ r ∈ rows, r.Fits n q) :
    ∀ r ∈ finished semi hazard rows, r.Fits n q := by
  intro r hr
  obtain ⟨r', hr', hazard', rfl⟩ := mem_finished hr
  exact (h r' hr').ended semi hazard'

/-- Under a great width, each row takes one line. -/
theorem flatMap_lines {style : Style} (h : ∀ r ∈ rows, r.Fits style.printWidth style.quote) :
    rows.flatMap (lines style) = rows.map (text style.quote) := by
  have hone (r : Row) (hr : r.Fits style.printWidth style.quote) :
      lines style r = [r.text style.quote] := by
    cases r with
    | blank => exact lines_blank style
    | statement i closed =>
      have hle : ((statement i closed).text style.quote).length ≤ style.printWidth := by
        have hfits : (i.line style.quote).length < style.printWidth := hr
        have hstop : (if closed then [';'] else [] : Text).length ≤ 1 := by cases closed <;> decide
        rw [text, List.length_append]
        omega
      rw [lines, Lines.wrapWide, if_neg (Nat.not_lt.2 hle)]
  induction rows with
  | nil => rfl
  | cons r rows ih =>
    rw [List.flatMap_cons, hone r (h r List.mem_cons_self),
      ih fun r hr => h r (List.mem_cons_of_mem _ hr)]
    rfl

theorem countP_map_text (hq : IsMark q) (rows : List Row) :
    (rows.map (text q)).countP (fun l => !l.blank) = rows.countP (· != blank) := by
  rw [List.countP_map]
  refine List.countP_congr fun r _ => ?_
  cases r with
  | blank => rfl
  | statement i closed => simp [not_blank_text hq]

end Row

end Import

/-- Two ways to cut a list behind as many members of a kind, the last of them at the cut. -/
theorem append_inj_of_countP {α : Type} {p : α → Bool} {ks ls xs ys : List α}
    (h : ks ++ xs = ls ++ ys) (hcount : ks.countP p = ls.countP p)
    (hks : ∀ a ∈ ks.getLast?, p a = true) (hls : ∀ a ∈ ls.getLast?, p a = true) : ks = ls := by
  have hend {ks us : List α} (hlast : ∀ a ∈ (ks ++ us).getLast?, p a = true)
      (hcount : (ks ++ us).countP p = ks.countP p) : us = [] := by
    rw [List.countP_append] at hcount
    have hnone : us.countP p = 0 := by omega
    rcases List.eq_nil_or_concat' us with hus | ⟨front, a, rfl⟩
    · exact hus
    · have ha := hlast a (by simp)
      rw [List.countP_eq_zero] at hnone
      exact absurd ha (hnone a (by simp))
  rcases List.append_eq_append_iff.1 h with ⟨us, rfl, -⟩ | ⟨us, rfl, -⟩
  · rw [hend hls hcount.symm, List.append_nil]
  · rw [hend hks hcount, List.append_nil]

namespace Import.Row

/-- Rows that end with an import are cut off a text in one way, once it is known how many imports
they hold. -/
theorem map_text_eq_of_cut {q : Char} (hq : IsMark q) {rows rows' : List Row}
    (hplain : ∀ r ∈ rows, r.Plain) (hplain' : ∀ r ∈ rows', r.Plain) {i i' : Import}
    {closed closed' : Bool} (hlast : rows.getLast? = some (.statement i closed))
    (hlast' : rows'.getLast? = some (.statement i' closed'))
    (hcount : rows.countP (· != .blank) = rows'.countP (· != .blank)) {t t' : Text}
    (hcut : Header.joinLines (rows.map (text q)) ++ t =
      Header.joinLines (rows'.map (text q)) ++ t') : rows.map (text q) = rows'.map (text q) := by
  have hnewline {rows : List Row} (hrows : ∀ r ∈ rows, r.Plain) :
      ∀ l ∈ rows.map (text q), '\n' ∉ l := by
    intro l hl
    obtain ⟨r, hr, rfl⟩ := List.mem_map.1 hl
    exact newline_not_mem_text hq (hrows r hr)
  have hend {rows : List Row} {i : Import} {closed : Bool}
      (hlast : rows.getLast? = some (.statement i closed)) :
      ∀ l ∈ (rows.map (text q)).getLast?, (!l.blank) = true := by
    intro l hl
    rw [List.getLast?_map, hlast] at hl
    cases hl
    simp [not_blank_text hq]
  have hsplit := congrArg (Text.splitOn '\n') hcut
  rw [Lines.splitOn_joinLines (hnewline hplain), Lines.splitOn_joinLines (hnewline hplain')]
    at hsplit
  refine append_inj_of_countP hsplit ?_ (hend hlast) (hend hlast')
  rw [countP_map_text hq, countP_map_text hq, hcount]

end Import.Row

open Import (Row)

/-- The style without a limit on the width of lines. -/
def Style.wide (s : Style) : Style := { s with printWidth := StyleOverrides.widest }

theorem Style.quote_wide (s : Style) : s.wide.quote = s.quote := rfl

/-- The file `c` is the normal form of its single-line form, which is `rows` and `after`. -/
structure Headed (style : Style) (rows : List Row) (after c : Text) : Prop where
  plain : ∀ r ∈ rows, r.Plain
  fits : ∀ r ∈ rows, r.Fits StyleOverrides.widest style.quote
  flat : normalizeScript style.wide c =
    .ok (Header.joinLines (rows.map (Row.text style.quote)) ++ after)
  settled : normalizeScript style (Header.joinLines (rows.map (Row.text style.quote)) ++ after) =
    .ok c

variable {style : Style} {rows : List Row} {after c : Text} {i : Import} {closed : Bool}

/-- Flat rows are rows that are laid out without a limit. -/
theorem joinLines_rows (hfits : ∀ r ∈ rows, r.Fits StyleOverrides.widest style.quote) :
    Header.joinLines (rows.map (Row.text style.quote)) =
      Header.joinLines (rows.flatMap (Row.lines style.wide)) := by
  have hlines : rows.flatMap (Row.lines style.wide) = rows.map (Row.text style.wide.quote) :=
    Row.flatMap_lines hfits
  rw [hlines, style.quote_wide]

/-- The rows of a steady file are finished, and its two forms are read below the same line. -/
theorem Headed.steady (h : Headed style rows after c)
    (hlast : rows.getLast? = some (.statement i closed)) :
    Row.squeezed true rows = rows ∧
      ∃ y es, Draft.Below style.quote (Row.mark style.quote closed) after y es ∧
        Row.endAll style.semi (Lines.hazardAhead (Text.splitOn '\n' y)) rows = rows ∧
        c = Header.joinLines (rows.flatMap (Row.lines style)) ++ Lines.finishBelow style y es ∧
        ∃ y' es', Draft.Below style.quote (Row.mark style.quote closed)
            (Lines.finishBelow style y es) y' es' ∧
          after = Lines.finishBelow style.wide y' es' := by
  have hq := Import.isMark_quote style
  have hsettled := h.settled
  rw [joinLines_rows h.fits] at hsettled
  obtain ⟨y, es, hbelow, hc⟩ := exists_below_rows h.plain hlast style.quote_wide hsettled
  obtain ⟨hazard, hhazard⟩ : ∃ hazard, Lines.hazardAhead (Text.splitOn '\n' y) = hazard := ⟨_, rfl⟩
  rw [hhazard] at hc
  have hlast₁ := Row.getLast?_finished style.semi hazard hlast
  have hflat := h.flat
  rw [hc] at hflat
  obtain ⟨y', es', hbelow', hafter⟩ := exists_below_rows (Row.plain_finished h.plain) hlast₁
    style.quote_wide.symm hflat
  generalize Lines.hazardAhead (Text.splitOn '\n' y') = hazard' at hafter
  -- the second pass gives the rows back, so that neither pass has changed them
  let rows' := Row.finished style.semi hazard' (Row.finished style.semi hazard rows)
  have hplain' : ∀ r ∈ rows', r.Plain := Row.plain_finished (Row.plain_finished h.plain)
  have hfits' : ∀ r ∈ rows', r.Fits StyleOverrides.widest style.quote :=
    Row.fits_finished (Row.fits_finished h.fits)
  have hcut : Header.joinLines (rows'.map (Row.text style.quote)) ++
      Lines.finishBelow style.wide y' es' =
        Header.joinLines (rows.map (Row.text style.quote)) ++ after := by
    rw [joinLines_rows hfits']
    exact hafter.symm
  have hcount : rows'.countP (· != .blank) = rows.countP (· != .blank) := by
    rw [Row.countP_finished, Row.countP_finished]
  have hlines : rows'.map (Row.text style.quote) = rows.map (Row.text style.quote) :=
    Row.map_text_eq_of_cut hq hplain' h.plain (Row.getLast?_finished _ _ hlast₁) hlast hcount hcut
  obtain ⟨hended, hsqueezed⟩ := Row.finished_of_twice hlines
  have hfinished : Row.finished style.semi hazard rows = rows := by
    rw [Row.finished, hended, hsqueezed]
  rw [hfinished, hlast, Option.some.injEq, Row.statement.injEq] at hlast₁
  rw [hfinished] at hc
  rw [hlines] at hcut
  refine ⟨hsqueezed, y, es, hbelow, by rw [hhazard, hended], hc, y', es', ?_,
    (List.append_cancel_left hcut).symm⟩
  rw [hlast₁.2]
  exact hbelow'

/-- In a style with semicolons, the last row of a steady file has one. -/
theorem Headed.closed_of_semi (h : Headed style rows after c)
    (hlast : rows.getLast? = some (.statement i closed)) (hsemi : style.semi = true) :
    closed = true := by
  obtain ⟨-, y, es, -, hended, -⟩ := h.steady hlast
  have hsame := Row.getLast?_endAll style.semi (Lines.hazardAhead (Text.splitOn '\n' y)) rows
  rw [hended, hlast, hsemi] at hsame
  simpa [Row.ended] using hsame

end ProjectSetup
