import ProjectSetup.Proofs.Import.Insertion

/-!
# Inserting and removing an import

An import that is inserted into a steady file and removed again leaves the file as it was, unless
the last row of the header kept its semicolon against the style. Above another import it does not,
and removing the import does not put the semicolon back.
-/
namespace ProjectSetup

open Import (Row)
open Text (fixed)

namespace Import

namespace Row

variable {q : Char} {i : Import} {closed semi : Bool} {r : Row} {rows : List Row}

theorem squeezed_concat (rows : List Row) (i : Import) (closed afterBlank : Bool) :
    squeezed afterBlank (rows ++ [statement i closed]) =
      squeezed afterBlank rows ++ [statement i closed] := by
  fun_induction squeezed afterBlank rows with
  | case1 => rfl
  | case2 rows ih => exact ih
  | case3 _ rows h ih =>
    rw [List.cons_append, squeezed, if_neg h, ih]
    rfl
  | case4 _ j closed' rows ih =>
    rw [List.cons_append, squeezed, ih]
    rfl

theorem endAll_concat (semi hazard : Bool) (rows : List Row) (i : Import) (closed : Bool) :
    endAll semi hazard (rows ++ [statement i closed]) =
      rows.map (ended semi false) ++ [(statement i closed).ended semi hazard] := by
  induction rows with
  | nil => rfl
  | cons r rows ih =>
    have hall : (rows ++ [statement i closed]).all (· == blank) = false := by
      rw [List.all_append]
      exact Bool.and_false _
    rw [List.cons_append, endAll, hall, ih]
    rfl

theorem squeezed_map_ended (semi hazard : Bool) (afterBlank : Bool) (rows : List Row) :
    squeezed afterBlank (rows.map (ended semi hazard)) =
      (squeezed afterBlank rows).map (ended semi hazard) := by
  fun_induction squeezed afterBlank rows with
  | case1 => rfl
  | case2 rows ih => exact ih
  | case3 _ rows h ih =>
    rw [List.map_cons, ended, squeezed, if_neg h, ih]
    rfl
  | case4 _ i closed rows ih =>
    rw [List.map_cons, ended, squeezed, ih]
    rfl

theorem ended_ended (semi : Bool) (r : Row) :
    (r.ended semi false).ended semi false = r.ended semi false := by
  cases r with
  | blank => rfl
  | statement i closed => simp [ended]

/-- An import in the form of the style, behind rows that have nothing left to lose: the semicolons
that only the last row needed go. -/
theorem finished_concat (hsqueezed : squeezed true rows = rows) (semi hazard : Bool) (i : Import) :
    finished semi hazard (rows ++ [statement i semi]) =
      rows.map (ended semi false) ++ [statement i semi] := by
  have hended : (statement i semi).ended semi hazard = statement i semi := by
    cases semi <;> rfl
  rw [finished, endAll_concat, hended, squeezed_concat, squeezed_map_ended, hsqueezed]

/-- Once they are gone, nothing is left to lose. -/
theorem finished_ended_concat (hsqueezed : squeezed true rows = rows) (semi hazard : Bool)
    (i : Import) :
    finished semi hazard (rows.map (ended semi false) ++ [statement i semi]) =
      rows.map (ended semi false) ++ [statement i semi] := by
  have htwice : ended semi false ∘ ended semi false = ended semi false := funext (ended_ended semi)
  have hsqueezed' : squeezed true (rows.map (ended semi false)) = rows.map (ended semi false) := by
    rw [squeezed_map_ended, hsqueezed]
  rw [finished_concat hsqueezed', List.map_map, htwice]

theorem plain_map_ended {hazard : Bool} (h : ∀ r ∈ rows, r.Plain) :
    ∀ r ∈ rows.map (ended semi hazard), r.Plain := by
  intro r hr
  obtain ⟨r', hr', rfl⟩ := List.mem_map.1 hr
  exact (h r' hr').ended semi hazard

theorem fits_map_ended {n : Nat} {hazard : Bool} (h : ∀ r ∈ rows, r.Fits n q) :
    ∀ r ∈ rows.map (ended semi hazard), r.Fits n q := by
  intro r hr
  obtain ⟨r', hr', rfl⟩ := List.mem_map.1 hr
  exact (h r' hr').ended semi hazard

theorem imports_ended (source : Text) (semi hazard : Bool) (r : Row) :
    (r.ended semi hazard).imports source = r.imports source := by
  cases r with
  | blank => rfl
  | statement i closed => rfl

/-- Above a row that ends as the style asks without regard to what follows, all rows do. -/
theorem map_ended_of_steady {hazard : Bool} (h : endAll semi hazard rows = rows)
    (hlast : rows.getLast? = some (statement i semi)) : rows.map (ended semi false) = rows := by
  obtain ⟨front, rfl⟩ := List.getLast?_eq_some_iff.1 hlast
  have hended : (statement i semi).ended semi false = statement i semi := by
    cases semi <;> rfl
  rw [endAll_concat] at h
  rw [List.map_append, (List.append_inj' h rfl).1]
  exact congrArg (front ++ [·]) hended

end Row

end Import

variable {style : Style} {rows : List Row} {after c : Text} {i d : Import} {closed : Bool}

/-- If the last row ends as the style asks anyway, the file with the import is steady, too. -/
theorem Headed.insert_even (h : Headed style rows after c)
    (hlast : rows.getLast? = some (.statement i style.semi)) (hd : d.Plain)
    (hfits : (Row.statement d style.semi).Fits StyleOverrides.widest style.quote) :
    ∃ r, Headed style (rows ++ [.statement d style.semi]) after r := by
  obtain ⟨hsqueezed, y, es, hbelow, hended, hc, y', es', hbelow', hafter⟩ := h.steady hlast
  let s := Row.statement d style.semi
  have heven (hazard : Bool) : Row.finished style.semi hazard (rows ++ [s]) = rows ++ [s] := by
    rw [Row.finished_concat hsqueezed, Row.map_ended_of_steady hended hlast]
  have hplain : ∀ r ∈ rows ++ [s], r.Plain := by
    simpa [or_imp, forall_and] using ⟨h.plain, hd⟩
  have hfit : ∀ r ∈ rows ++ [s], r.Fits StyleOverrides.widest style.quote := by
    simpa [or_imp, forall_and] using ⟨h.fits, hfits⟩
  have hend : (rows ++ [s]).getLast? = some s := List.getLast?_concat
  have hflat := normalizeScript_rows hplain hend style.quote_wide.symm hbelow'
  have hsettled := normalizeScript_rows hplain hend style.quote_wide hbelow
  have hwide (hazard : Bool) : Row.finished style.wide.semi hazard (rows ++ [s]) = rows ++ [s] :=
    heven hazard
  rw [hwide, ← joinLines_rows hfit, ← hafter] at hflat
  rw [heven, ← joinLines_rows hfit] at hsettled
  exact ⟨_, hplain, hfit, hflat, hsettled⟩

/-- Without semicolons, no normal form has more fixed characters than its script. -/
theorem length_fixed_normalizeScript_le (hsemi : style.semi = false) {source y : Text}
    (h : normalizeScript style source = .ok y) : (fixed y).length ≤ (fixed source).length := by
  obtain ⟨e, he, rfl⟩ := normalizeScript_eq_ok_iff.1 h
  let ts := Text.splitOn '\n' e.text
  have hfinish : fixed (Lines.finish style e.text e.lineEnds) =
      (Lines.finishLines style ts e.lineEnds).flatMap fun l => fixed l.text :=
    Lines.filter_assemble lasting_fixed _
  have htake : ((ts.take e.lineEnds.length).flatMap fixed).length ≤ (ts.flatMap fixed).length := by
    conv_rhs => rw [← List.take_append_drop e.lineEnds.length ts, List.flatMap_append,
      List.length_append]
    exact Nat.le_add_right _ _
  have hsource : ts.flatMap fixed = fixed source := by
    rw [← Text.fixed_join_lines, Text.join_splitOn, Draft.fixed_collapse he]
  rw [hfinish, ← hsource]
  rcases Lines.settled_or_loses hsemi ts e.lineEnds with hs | hs
  · refine le_trans (le_of_eq (congrArg _ ?_)) htake
    exact Lines.flatMap_finishLines_of_settled lasting_fixed hs
  · exact hs.le.trans htake

theorem fixed_joinLines (ls : List Text) : fixed (Header.joinLines ls) = ls.flatMap fixed :=
  Header.filter_joinLines (by decide) ls

theorem length_fixed_rows_le (q : Char) (rows : List Row) :
    (fixed (Header.joinLines ((rows.map (Row.ended false false)).map (Row.text q)))).length ≤
      (fixed (Header.joinLines (rows.map (Row.text q)))).length := by
  have hrow (r : Row) :
      (fixed ((r.ended false false).text q)).length ≤ (fixed (r.text q)).length := by
    cases r with
    | blank => exact le_rfl
    | statement i closed => cases closed <;> simp [Row.ended, Row.text]
  rw [fixed_joinLines, fixed_joinLines]
  induction rows with
  | nil => exact le_rfl
  | cons r rows ih =>
    simp only [List.map_cons, List.flatMap_cons, List.length_append]
    exact Nat.add_le_add (hrow r) ih

/-- Rows that lose the semicolon of the last of them lose a fixed character. -/
theorem length_fixed_rows_lt {q : Char} (hlast : rows.getLast? = some (.statement i true)) :
    (fixed (Header.joinLines ((rows.map (Row.ended false false)).map (Row.text q)))).length <
      (fixed (Header.joinLines (rows.map (Row.text q)))).length := by
  obtain ⟨front, rfl⟩ := List.getLast?_eq_some_iff.1 hlast
  have hfront := length_fixed_rows_le q front
  have hclosed : (Row.statement i true).text q = (Row.statement i false).text q ++ [';'] := by
    simp [Row.text]
  have hopen : (Row.statement i true).ended false false = .statement i false := rfl
  have hstop : fixed [';'] = [';'] := by decide
  rw [fixed_joinLines, fixed_joinLines] at hfront ⊢
  simp only [List.map_append, List.map_singleton, List.flatMap_append, List.flatMap_singleton,
    List.length_append, hopen, hclosed, Text.fixed_append, hstop, List.length_singleton]
  omega

/-- If the last row keeps a semicolon against the style, it is gone once an import stands below:
what is left of the file without the import has fewer fixed characters than the file. -/
theorem Headed.insert_odd (h : Headed style rows after c) (hsemi : style.semi = false)
    (hlast : rows.getLast? = some (.statement i true)) (hd : d.Plain)
    (hfits : (Row.statement d false).Fits StyleOverrides.widest style.quote) {r f : Text}
    (hinsert : normalizeScript style (Header.joinLines
      ((rows ++ [Row.statement d false]).map (Row.text style.quote)) ++ after) = .ok r)
    (hflat : normalizeScript style.wide r = .ok f) :
    ∃ after', f = Header.joinLines ((rows.map (Row.ended false false) ++
        [Row.statement d false]).map (Row.text style.quote)) ++ after' ∧
      (fixed (Header.joinLines ((rows.map (Row.ended false false)).map (Row.text style.quote)) ++
        after')).length < (fixed c).length := by
  obtain ⟨hsqueezed, -⟩ := h.steady hlast
  let s := Row.statement d false
  let rows' := rows.map (Row.ended false false)
  have hplain (rows : List Row) (hrows : ∀ r ∈ rows, r.Plain) : ∀ r ∈ rows ++ [s], r.Plain := by
    simpa [or_imp, forall_and] using ⟨hrows, hd⟩
  have hfit (rows : List Row) (hrows : ∀ r ∈ rows, r.Fits StyleOverrides.widest style.quote) :
      ∀ r ∈ rows ++ [s], r.Fits StyleOverrides.widest style.quote := by
    simpa [or_imp, forall_and] using ⟨hrows, hfits⟩
  have hend (rows : List Row) : (rows ++ [s]).getLast? = some s := List.getLast?_concat
  have hplain' : ∀ r ∈ rows' ++ [s], r.Plain := hplain _ (Row.plain_map_ended h.plain)
  have hfit' : ∀ r ∈ rows' ++ [s], r.Fits StyleOverrides.widest style.quote :=
    hfit _ (Row.fits_map_ended h.fits)
  have hfinished (hazard : Bool) : Row.finished false hazard (rows ++ [s]) = rows' ++ [s] :=
    Row.finished_concat hsqueezed false hazard d
  have hfinished' (hazard : Bool) : Row.finished false hazard (rows' ++ [s]) = rows' ++ [s] :=
    Row.finished_ended_concat hsqueezed false hazard d
  -- the file with the import is also the normal form of its text without the semicolon
  rw [joinLines_rows (hfit rows h.fits)] at hinsert
  obtain ⟨y, es, hbelow, hr⟩ := exists_below_rows (hplain rows h.plain) (hend rows)
    style.quote_wide hinsert
  have hagain := normalizeScript_rows hplain' (hend rows') style.quote_wide hbelow
  rw [hsemi, hfinished] at hr
  rw [hsemi, hfinished', ← hr, ← joinLines_rows hfit'] at hagain
  have hle := length_fixed_normalizeScript_le hsemi hagain
  have hsemi' : style.wide.semi = false := hsemi
  have hle' := length_fixed_normalizeScript_le hsemi' hflat
  have hle'' := length_fixed_normalizeScript_le hsemi' h.flat
  have hlt := length_fixed_rows_lt (q := style.quote) hlast
  rw [hr] at hflat
  obtain ⟨y', es', -, hf⟩ := exists_below_rows hplain' (hend rows') style.quote_wide.symm hflat
  rw [hsemi', hfinished', ← joinLines_rows hfit'] at hf
  refine ⟨Lines.finishBelow style.wide y' es', hf, ?_⟩
  rw [hf] at hle'
  simp only [List.map_append, Header.joinLines_append, Text.fixed_append, List.length_append]
    at hle hle' hle'' ⊢
  omega

namespace Import

variable {path : String} {o : StyleOverrides} {r : Text}

theorem strip_eq {f : Text} {source : Text} (hflat : flatten path o c = .ok f) :
    strip path o source c = settle path o (without source f) := by
  rw [strip, hflat]
  rfl

/-- Where the last row ends as the style asks anyway, the file is restored. -/
theorem strip_of_even (hpath : isScript path = true) (h : Headed o.resolve rows after c)
    (hlast : rows.getLast? = some (.statement i o.resolve.semi)) (hd : d.Plain)
    (hfits : (Row.statement d o.resolve.semi).Fits StyleOverrides.widest o.resolve.quote)
    (hother : ∀ r ∈ rows, r.imports d.source = false) (hafter : without d.source after = after)
    (hinsert : normalizeScript o.resolve (Header.joinLines
      ((rows ++ [Row.statement d o.resolve.semi]).map (Row.text o.resolve.quote)) ++ after) =
        .ok r) : strip path o d.source r = .ok c := by
  obtain ⟨r', hr⟩ := h.insert_even hlast hd hfits
  cases hinsert.symm.trans hr.settled
  have hwithout := Row.without_concat (r := .statement d o.resolve.semi) h.plain hd
    (isMark_quote o.resolve) hd.source hother (by simp [Row.imports]) after
  rw [strip_eq ((flatten_eq_ok_iff hpath).2 hr.flat), hwithout, hafter, settle_eq_ok_iff hpath]
  exact h.settled

/-- Where the last row keeps a semicolon against the style, the file is not restored. -/
theorem not_strip_of_odd (hpath : isScript path = true) (h : Headed o.resolve rows after c)
    (hsemi : o.resolve.semi = false) (hlast : rows.getLast? = some (.statement i true))
    (hd : d.Plain)
    (hfits : (Row.statement d false).Fits StyleOverrides.widest o.resolve.quote)
    (hother : ∀ r ∈ rows, r.imports d.source = false)
    (hinsert : normalizeScript o.resolve (Header.joinLines
      ((rows ++ [Row.statement d false]).map (Row.text o.resolve.quote)) ++ after) = .ok r) :
    strip path o d.source r ≠ .ok c := by
  intro hstrip
  cases hflat : flatten path o r with
  | error e =>
    rw [strip, hflat] at hstrip
    cases hstrip
  | ok f =>
    rw [strip_eq hflat, settle_eq_ok_iff hpath] at hstrip
    obtain ⟨after', rfl, hlt⟩ := h.insert_odd hsemi hlast hd hfits hinsert
      ((flatten_eq_ok_iff hpath).1 hflat)
    have hother' : ∀ r ∈ rows.map (Row.ended false false), r.imports d.source = false := by
      simpa [Row.imports_ended] using hother
    have hwithout := Row.without_concat (r := .statement d false) (Row.plain_map_ended h.plain) hd
      (isMark_quote o.resolve) hd.source hother' (by simp [Row.imports]) after'
    rw [hwithout] at hstrip
    have hle := length_fixed_normalizeScript_le hsemi hstrip
    have hsub := ((without_sublist d.source after').filter Text.isFixed).length_le
    rw [Text.fixed_append, List.length_append] at hle hlt
    exact absurd (hle.trans (Nat.add_le_add_left hsub _)) (Nat.not_le.2 hlt)

/-- Inserting an import into a file that a command left behind and removing it again restores the
file exactly if the style keeps semicolons or the last import of the header ends without one. -/
theorem strip_insert_iff {f : Text} {h : Header} (hpath : isScript path = true)
    (hflat : flatten path o c = .ok f) (hsettled : settle path o f = .ok c)
    (hheader : Header.ofText? f = some h) (hplain : h.Plain o.resolve.quote) (hd : d.Plain)
    (hsize : f.length + d.statement.length < StyleOverrides.widest)
    (hnew : without d.source f = f) (hinsert : insert path o d c = .ok r) :
    strip path o d.source r = .ok c ↔
      (o.resolve.semi = true ∨ ∀ l ∈ h.imports.getLast?, l.getLast? ≠ some ';') := by
  have hq := isMark_quote o.resolve
  obtain ⟨rows, i, closed, himports, hlast, hheaded⟩ :=
    exists_headed hpath hflat hsettled hheader hplain (by omega)
  obtain ⟨hcut, -⟩ := Header.ofText?_eq_some hheader
  have hf : f = Header.joinLines (rows.map (Row.text o.resolve.quote)) ++ h.after := by
    rw [hcut, Header.before, himports]
  have hkept : without d.source
      (Header.joinLines (rows.map (Row.text o.resolve.quote)) ++ h.after) =
        Header.joinLines (rows.map (Row.text o.resolve.quote)) ++ h.after := by
    rw [← hf, hnew]
  obtain ⟨hother, hafter⟩ := Row.other_of_without_eq hheaded.plain hq hd.source hkept
  rw [insert_eq_of_rows hpath hflat hheader hheaded.plain himports hother hd (by omega),
    settle_eq_ok_iff hpath] at hinsert
  have hfits : (Row.statement d.tidied o.resolve.semi).Fits StyleOverrides.widest
      o.resolve.quote := by
    change (d.tidied.line o.resolve.quote).length < StyleOverrides.widest
    rw [length_line_tidied]
    omega
  have hend : (∀ l ∈ h.imports.getLast?, l.getLast? ≠ some ';') ↔ closed = false := by
    rw [himports, List.getLast?_map, hlast]
    simp only [Option.map_some, Option.mem_some_iff, forall_eq', Row.getLast?_text]
    rcases hq with hq | hq <;> cases closed <;> simp [Row.mark, hq]
  have heven (hclosed : closed = o.resolve.semi) : strip path o d.source r = .ok c :=
    strip_of_even (d := d.tidied) hpath hheaded (hclosed ▸ hlast) hd.tidied hfits hother hafter
      hinsert
  rw [hend]
  cases hsemi : o.resolve.semi with
  | true =>
    have hclosed := hheaded.closed_of_semi hlast hsemi
    exact iff_of_true (heven (hclosed.trans hsemi.symm)) (.inl rfl)
  | false =>
    cases closed with
    | false => exact iff_of_true (heven hsemi.symm) (.inr rfl)
    | true =>
      rw [hsemi] at hinsert hfits
      have hlost := not_strip_of_odd (d := d.tidied) hpath hheaded hsemi hlast hd.tidied hfits
        hother hinsert
      exact iff_of_false hlost (by simp)

/-- An import that ends without a semicolon is as it was when the one below is gone. -/
theorem strip_insert_above_call :
    Import.insert "a.js" {} (Import.sideEffect "./b".toList)
        "import a from 'a'\nb()\n".toList =
      .ok "import a from 'a'\nimport './b'\nb()\n".toList ∧
    Import.strip "a.js" {} "./b".toList "import a from 'a'\nimport './b'\nb()\n".toList =
      .ok "import a from 'a'\nb()\n".toList := by
  have hrow : Plain (ofDefault "a".toList "a".toList) :=
    plain_ofDefault ⟨by decide, by decide⟩ (by decide)
  have hplain : Header.Plain (StyleOverrides.resolve {}).quote
      ⟨["import a from 'a'".toList], [], "b()\n".toList⟩ :=
    ⟨[.statement (ofDefault "a".toList "a".toList) false], by simpa [Row.Plain] using hrow, rfl⟩
  have hd : Plain (sideEffect "./b".toList) := plain_sideEffect (by decide)
  have hinsert : Import.insert "a.js" {} (sideEffect "./b".toList)
      "import a from 'a'\nb()\n".toList =
        .ok "import a from 'a'\nimport './b'\nb()\n".toList := by decide +kernel
  have hflat : flatten "a.js" {} "import a from 'a'\nb()\n".toList =
      .ok "import a from 'a'\nb()\n".toList := by decide +kernel
  have hheader : Header.ofText? "import a from 'a'\nb()\n".toList =
      some ⟨["import a from 'a'".toList], [], "b()\n".toList⟩ := by decide +kernel
  exact ⟨hinsert, (strip_insert_iff (by decide) hflat (by decide +kernel) hheader hplain hd
    (by decide +kernel) (by decide +kernel) hinsert).2 (.inr (by decide))⟩

/-- An import above a parenthesis has a semicolon, and has none when the one below is gone. -/
theorem strip_insert_lost :
    normalize "a.js" {} "import a from 'a';\n(b)\n".toList =
      .ok "import a from 'a';\n(b)\n".toList ∧
    Import.without "./b".toList "import a from 'a';\n(b)\n".toList =
      "import a from 'a';\n(b)\n".toList ∧
    (Import.sideEffect "./b".toList).Plain ∧
    Import.insert "a.js" {} (Import.sideEffect "./b".toList)
        "import a from 'a';\n(b)\n".toList =
      .ok "import a from 'a'\nimport './b'\n(b)\n".toList ∧
    Import.strip "a.js" {} "./b".toList "import a from 'a'\nimport './b'\n(b)\n".toList ≠
      .ok "import a from 'a';\n(b)\n".toList := by
  have hstrip : Import.strip "a.js" {} "./b".toList
      "import a from 'a'\nimport './b'\n(b)\n".toList = .ok "import a from 'a'\n(b)\n".toList := by
    decide +kernel
  refine ⟨by decide +kernel, by decide +kernel, plain_sideEffect (by decide), by decide +kernel, ?_⟩
  rw [hstrip]
  decide

end Import

end ProjectSetup
