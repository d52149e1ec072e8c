import ProjectSetup.Proofs.Import.Removal
import ProjectSetup.Proofs.Import.Steady

/-!
# Where an import is inserted

The statement of an import, laid out by itself, is a row. It goes behind the last import of the
header, unless a line of the header equals it.
-/
namespace ProjectSetup

open Import (Row)

variable {path : String} {o : StyleOverrides} {style : Style} {rows : List Row} {c : Text}
  {d : Import}

theorem mapError_eq_ok_iff {α ε δ : Type} {f : ε → δ} {e : Except ε α} {a : α} :
    e.mapError f = .ok a ↔ e = .ok a := by
  cases e with
  | error x => simp [Except.mapError]
  | ok x => simp [Except.mapError]

theorem flatten_eq_ok_iff (hpath : isScript path = true) {t f : Text} :
    flatten path o t = .ok f ↔ normalizeScript o.resolve.wide t = .ok f := by
  rw [flatten, mapError_eq_ok_iff, normalize_of_script hpath]
  rfl

theorem settle_eq_ok_iff (hpath : isScript path = true) {t c : Text} :
    settle path o t = .ok c ↔ normalizeScript o.resolve t = .ok c := by
  rw [settle, mapError_eq_ok_iff, normalize_of_script hpath]

/-- A statement that ends a text is laid out as a row that ends as the style asks. -/
theorem finish_statement (hd : d.Plain) (closed : Bool) :
    Lines.finish style ((Row.statement d closed).text style.quote) [.statement] =
      Header.joinLines ((Row.statement d style.semi).lines style) := by
  have hq := Import.isMark_quote style
  have hsplit : Text.splitOn '\n' ((Row.statement d closed).text style.quote) =
      [(Row.statement d closed).text style.quote] :=
    Text.splitOn_of_not_mem (Row.newline_not_mem_text (r := .statement d closed) hq hd)
  have hended : Row.endAll style.semi false [Row.statement d closed] =
      [Row.statement d style.semi] := by
    simp [Row.endAll, Row.ended]
  have hlines : Lines.finishLines style [(Row.statement d closed).text style.quote] [.statement] =
      ((Row.endAll style.semi false [Row.statement d closed]).flatMap (Row.lines style)).map
        (⟨·, .statement⟩) ++ Lines.finishLines style [] [] :=
    Row.finishLines_rows [Row.statement d closed] [] []
  have hlast : [Row.statement d style.semi].getLast? = some (.statement d style.semi) := rfl
  obtain ⟨l, hl, hline⟩ := Row.exists_last_line style hlast
  rw [List.flatMap_singleton] at hl
  rw [Lines.finish, hsplit, hlines, hended, List.flatMap_singleton, Lines.assemble_eq_joinLines,
    Lines.squeeze_append_of_not_blank (Row.not_blank_of_mem_lines style d style.semi),
    Lines.dropEmptyEnd_append hl hline]
  exact congrArg Header.joinLines (List.append_nil _)

/-- The statement of an import by itself is laid out as a row, whatever quotes its module stands
between and whether a semicolon ends it or not. -/
theorem normalizeScript_row (hd : d.Plain) {q : Char} (hq : IsMark q) (closed : Bool) :
    normalizeScript style ((Row.statement d closed).text q) =
      .ok (Header.joinLines ((Row.statement d style.semi).lines style)) := by
  have hstop : ∀ c ∈ (if closed then [';'] else [] : Text), Draft.isOpen c = true := by
    cases closed with
    | false => decide
    | true => decide
  have hfree : Draft.Free {} := Draft.atLine_empty.toFree
  have htakes := (hd.takes_line Draft.atLine_empty (Import.isMark_quote style) hq).write
    fun n => ((hfree.recount n).write _).takes hstop
  obtain ⟨n, hread⟩ := htakes []
  rw [List.append_nil] at hread
  let read := ({} : Draft).write ((Row.statement d closed).text style.quote)
  have hcollapse : Draft.collapse style.quote ((Row.statement d closed).text q) =
      .ok (read.recount n) := by
    rw [Draft.collapse, Row.text, hread, Draft.read]
    rfl
  have htext : read.text = (Row.statement d closed).text style.quote := by
    simp [read, Draft.text, Draft.write]
  rw [normalizeScript, hcollapse, ← finish_statement hd closed, ← htext]
  rfl

/-- Where the statement is not wrapped, its normal form is one line. -/
theorem normalizeScript_statement (hd : d.Plain)
    (hfits : (Row.statement d.tidied false).Fits style.printWidth style.quote) :
    normalizeScript style d.statement =
      .ok ((Row.statement d.tidied style.semi).text style.quote ++ ['\n']) := by
  have hone : [Row.statement d.tidied style.semi].flatMap (Row.lines style) =
      [(Row.statement d.tidied style.semi).text style.quote] :=
    Row.flatMap_lines fun r hr => by
      rw [List.mem_singleton.1 hr]
      exact hfits
  have hopen : (Row.statement d.tidied false).text '\'' = d.statement := by
    rw [Import.statement_eq, Row.text]
    exact List.append_nil _
  rw [List.flatMap_singleton] at hone
  rw [← hopen, normalizeScript_row hd.tidied (.inl rfl), hone]
  simp [Header.joinLines]

theorem Import.length_line_tidied (d : Import) (q : Char) :
    (d.tidied.line q).length = d.statement.length := by
  rw [statement_eq, line_eq, line_eq]
  simp

/-- An import is inserted as a row that ends as the style asks. -/
theorem Import.styled_eq (hpath : isScript path = true) (hd : d.Plain)
    (hsize : d.statement.length < StyleOverrides.widest) :
    d.styled path o = .ok ((Row.statement d.tidied o.resolve.semi).text o.resolve.quote) := by
  have hfits : (Row.statement d.tidied false).Fits o.resolve.wide.printWidth
      o.resolve.wide.quote := by
    change (d.tidied.line o.resolve.quote).length < StyleOverrides.widest
    rwa [length_line_tidied]
  have htrim : ((Row.statement d.tidied o.resolve.semi).text o.resolve.quote ++ ['\n']).trimEnd =
      (Row.statement d.tidied o.resolve.semi).text o.resolve.quote := by
    have hrow := Row.trimEnd_text (isMark_quote o.resolve) (Row.statement d.tidied o.resolve.semi)
    have hbreak : Text.isBlank '\n' = true := by decide
    rw [Text.trimEnd, List.reverse_concat, List.dropWhile_cons_of_pos hbreak]
    exact hrow
  have hflat := (flatten_eq_ok_iff (o := o) hpath).2 (normalizeScript_statement hd hfits)
  rw [styled, hflat]
  exact congrArg Except.ok htrim

theorem Header.isImport_of_getLast?_cutLines (ls : List Text) :
    ∀ l ∈ (Header.cutLines ls).1.getLast?, Header.isImport l = true := by
  induction ls with
  | nil => exact fun l hl => by cases hl
  | cons l ls ih =>
    rw [Header.cutLines]
    cases hcut : Header.cutLines ls with
    | mk imports rest =>
      cases imports with
      | nil =>
        simp only
        split
        · next himport =>
          intro l' hl'
          cases hl'
          exact himport
        · exact fun l' hl' => by cases hl'
      | cons k imports =>
        rw [hcut] at ih
        intro l' hl'
        exact ih l' (by rwa [List.getLast?_cons_cons] at hl')

theorem Header.not_isImport_of_mem_cutLines {ls : List Text} :
    ∀ l ∈ (Header.cutLines ls).2, Header.isImport l = false := by
  induction ls with
  | nil => exact fun l hl => by cases hl
  | cons l ls ih =>
    rw [Header.cutLines]
    cases hcut : Header.cutLines ls with
    | mk imports rest =>
      rw [hcut] at ih
      cases imports with
      | nil =>
        simp only
        split
        · exact ih
        · next himport =>
          intro l' hl'
          rcases List.mem_cons.1 hl' with rfl | hl'
          · exact Bool.eq_false_iff.2 himport
          · exact ih l' hl'
      | cons k imports => exact ih

theorem trim_of_all_isSpace {l : Text} (h : l.all Header.isSpace = true) : l.trim = [] := by
  have hblank : l.blank = true := List.all_eq_true.2 fun c hc => by
    have hspace := List.all_eq_true.1 h c hc
    simp only [Header.isSpace, Bool.or_eq_true, beq_iff_eq] at hspace
    rcases hspace with rfl | rfl <;> decide
  rw [Text.trim, Text.trimStart_eq_nil.2 hblank]
  rfl

theorem join_append_eq_joinLines (ls : List Text) {ks : List Text} (hne : ks ≠ []) :
    Text.join ['\n'] (ls ++ ks) = Header.joinLines ls ++ Text.join ['\n'] ks := by
  induction ls with
  | nil => rfl
  | cons l ls ih =>
    rw [List.cons_append, Text.join_cons _ _ _ (by simp [hne]), ih, Header.joinLines_cons]
    simp

/-- A text with a header is cut behind the last import, and blank lines follow it. -/
theorem Header.ofText?_eq_some {t : Text} {h : Header} (hh : Header.ofText? t = some h) :
    t = h.before ++ h.after ∧ (∃ l, h.imports.getLast? = some l ∧ Header.isImport l = true) ∧
      ∀ l ∈ h.blanks, l.trim = [] := by
  let leading := (Text.splitOn '\n' t).dropLast.takeWhile Header.belongs
  have hlast := Header.isImport_of_getLast?_cutLines leading
  have hblanks : ∀ l ∈ (Header.cutLines leading).2, l.trim = [] := by
    intro l hl
    have hmem : l ∈ leading := by
      rw [← Header.cutLines_append leading]
      exact List.mem_append_right _ hl
    have hbelongs : Header.belongs l = true := List.mem_takeWhile_imp hmem
    rw [Header.belongs, Header.not_isImport_of_mem_cutLines l hl, Bool.false_or] at hbelongs
    exact trim_of_all_isSpace hbelongs
  have hparts := Header.cutLines_append leading
  have hlength : leading.length < (Text.splitOn '\n' t).length := by
    have hle : leading.length ≤ (Text.splitOn '\n' t).dropLast.length :=
      (List.takeWhile_prefix _).length_le
    have hpos := List.length_pos_iff.2 (Text.splitOn_ne_nil '\n' t)
    rw [List.length_dropLast] at hle
    omega
  have hprefix : leading ++ (Text.splitOn '\n' t).drop leading.length = Text.splitOn '\n' t :=
    List.prefix_iff_eq_append.1 ((List.takeWhile_prefix _).trans (List.dropLast_prefix _))
  have htext := Text.join_splitOn '\n' t
  rw [← hprefix, join_append_eq_joinLines leading (by simpa using hlength)] at htext
  simp only [Header.ofText?] at hh
  split at hh
  · cases hh
  · next imports blanks hne hcut =>
    cases hh
    change Header.cutLines leading = (imports, blanks) at hcut
    rw [hcut] at hlast hparts hblanks
    have hjoin : Header.joinLines leading =
        Header.joinLines imports ++ Header.joinLines blanks := by
      rw [← hparts, Header.joinLines_append]
    rw [hjoin, List.append_assoc] at htext
    have hend := List.getLast?_eq_some_getLast hne
    exact ⟨htext.symm, ⟨_, hend, hlast _ hend⟩, hblanks⟩

/-- The imports of the header have the plain form, with modules between the given quotes. -/
def Header.Plain (quote : Char) (h : Header) : Prop :=
  ∃ rows : List Row, (∀ r ∈ rows, r.Plain) ∧ h.imports = rows.map (Row.text quote)

namespace Import

theorem spliced_eq {f s : Text} {h : Header} (hheader : Header.ofText? f = some h)
    (hstyled : d.styled path o = .ok s) :
    d.spliced path o f = .ok (if h.holds s then f else h.splice s) := by
  rw [spliced, hheader]
  simp only [hstyled]
  rfl

/-- An insertion lays out the single-line text with the import in its header. -/
theorem insert_eq_settle {f t : Text} (hvalid : d.valid = true) (hflat : flatten path o c = .ok f)
    (hspliced : d.spliced path o f = .ok t) : insert path o d c = settle path o t := by
  rw [insert, (check_eq_ok_iff d).2 hvalid, hflat]
  change (d.spliced path o f >>= fun t => settle path o t) = _
  rw [hspliced]
  rfl

/-- Inserting an import that the header does not hold puts its statement behind the last import. -/
theorem insert_eq {f s : Text} {h : Header} (hvalid : d.valid = true)
    (hflat : flatten path o c = .ok f) (hheader : Header.ofText? f = some h)
    (hstyled : d.styled path o = .ok s) (hnew : h.holds s = false) :
    insert path o d c = settle path o (h.splice s) := by
  refine insert_eq_settle hvalid hflat ?_
  rw [spliced_eq hheader hstyled, hnew]
  rfl

theorem Row.trim_text {q : Char} (hq : IsMark q) (r : Row) : (r.text q).trim = r.text q := by
  have hstart : (r.text q).trimStart = r.text q := by
    cases r with
    | blank => rfl
    | statement i closed =>
      obtain ⟨t, ht⟩ := Row.head?_text i q closed
      rw [ht]
      rfl
  rw [Text.trim, hstart, Row.trimEnd_text hq]

/-- A header whose rows import other modules does not hold the statement. -/
theorem holds_eq_false {q : Char} {source : Text} {h : Header} {s : Row} (hq : IsMark q)
    (hrows : ∀ r ∈ rows, r.Plain) (himports : h.imports = rows.map (Row.text q))
    (hblanks : ∀ l ∈ h.blanks, l.trim = []) (hother : ∀ r ∈ rows, r.imports source = false)
    (hs : s.Plain) (hsource : Bare source) (himport : s.imports source = true) :
    h.holds (s.text q) = false := by
  have hremoved (r : Row) (hr : r.Plain) := Row.removed?_text hr hq hsource []
  rw [Header.holds, List.any_eq_false]
  intro l hl
  rw [beq_iff_eq]
  intro he
  have hs' := hremoved s hs
  rw [if_pos himport, ← he] at hs'
  rcases List.mem_append.1 hl with hl | hl
  · rw [himports] at hl
    obtain ⟨r, hr, rfl⟩ := List.mem_map.1 hl
    rw [Row.trim_text hq, hremoved r (hrows r hr), hother r hr] at hs'
    cases hs'
  · rw [hblanks l hl] at hs'
    cases hs'

/-- An import that the rows do not hold is inserted as one more row. -/
theorem insert_eq_of_rows {f : Text} {h : Header} (hpath : isScript path = true)
    (hflat : flatten path o c = .ok f) (hheader : Header.ofText? f = some h)
    (hrows : ∀ r ∈ rows, r.Plain) (himports : h.imports = rows.map (Row.text o.resolve.quote))
    (hother : ∀ r ∈ rows, r.imports d.source = false) (hd : d.Plain)
    (hsize : d.statement.length < StyleOverrides.widest) :
    insert path o d c = settle path o (Header.joinLines
      ((rows ++ [Row.statement d.tidied o.resolve.semi]).map (Row.text o.resolve.quote)) ++
        h.after) := by
  obtain ⟨-, -, hblanks⟩ := Header.ofText?_eq_some hheader
  have hholds := holds_eq_false (s := .statement d.tidied o.resolve.semi)
    (isMark_quote o.resolve) hrows himports hblanks hother hd.tidied hd.source
    (by simp [Row.imports, Import.tidied])
  rw [insert_eq hd.valid hflat hheader (styled_eq hpath hd hsize) hholds]
  simp [Header.splice, Header.before, himports, Header.joinLines]

theorem length_le_joinLines {l : Text} {ls : List Text} (hl : l ∈ ls) :
    l.length ≤ (Header.joinLines ls).length := by
  obtain ⟨front, back, rfl⟩ := List.append_of_mem hl
  simp only [Header.joinLines, List.flatMap_append, List.flatMap_cons, List.length_append]
  omega

/-- A file with a header in the plain form that a command leaves behind is headed by rows. -/
theorem exists_headed {f : Text} {h : Header} (hpath : isScript path = true)
    (hflat : flatten path o c = .ok f) (hsettled : settle path o f = .ok c)
    (hheader : Header.ofText? f = some h) (hplain : h.Plain o.resolve.quote)
    (hsize : f.length < StyleOverrides.widest) :
    ∃ rows i closed, h.imports = rows.map (Row.text o.resolve.quote) ∧
      rows.getLast? = some (.statement i closed) ∧ Headed o.resolve rows h.after c := by
  obtain ⟨hcut, ⟨l, hl, himport⟩, -⟩ := Header.ofText?_eq_some hheader
  obtain ⟨rows, hrows, himports⟩ := hplain
  have hbefore : f = Header.joinLines (rows.map (Row.text o.resolve.quote)) ++ h.after := by
    rw [hcut, Header.before, himports]
  rw [flatten_eq_ok_iff hpath] at hflat
  rw [settle_eq_ok_iff hpath] at hsettled
  rw [himports, List.getLast?_map] at hl
  obtain ⟨r, hr, rfl⟩ := Option.map_eq_some_iff.1 hl
  have hfits : ∀ r ∈ rows, r.Fits StyleOverrides.widest o.resolve.quote := by
    intro r hr
    cases r with
    | blank => trivial
    | statement j closed =>
      have hmem := length_le_joinLines (List.mem_map_of_mem (f := Row.text o.resolve.quote) hr)
      have hlength := congrArg List.length hbefore
      change (j.line o.resolve.quote).length < StyleOverrides.widest
      rw [List.length_append] at hlength
      rw [Row.text, List.length_append] at hmem
      omega
  rw [hbefore] at hflat hsettled
  cases r with
  | blank => cases himport
  | statement i closed => exact ⟨rows, i, closed, himports, hr, hrows, hfits, hflat, hsettled⟩

end Import

end ProjectSetup
