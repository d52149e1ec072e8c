import ProjectSetup.Proofs.Import.Canonical
import ProjectSetup.Proofs.Layout.Loss

/-!
# Inserting an import that is there

An import is not inserted where a line of the header equals its statement, with its semicolon. The
statement is laid out by itself, and a line of the header above the next line: without semicolons,
the two differ where a statement keeps its semicolon above a hazard.
-/
namespace ProjectSetup

open Text (essence)

namespace Text

/-- The text without a semicolon at its end. -/
def unclosed (t : Text) : Text := if t.getLast? = some ';' then t.dropLast else t

theorem unclosed_eq_iff {t x : Text} (hx : x.getLast? ≠ some ';') :
    unclosed t = x ↔ t = x ∨ t = x ++ [';'] := by
  rw [unclosed]
  split
  · next h =>
    constructor
    · rintro rfl
      exact .inr (List.dropLast_append_getLast? ';' h).symm
    · rintro (rfl | rfl)
      · exact absurd h hx
      · exact List.dropLast_concat
  · next h =>
    refine ⟨.inl, fun ht => ht.resolve_right ?_⟩
    rintro rfl
    exact h List.getLast?_concat

/-- A text that ends with no blank is its trimmed form behind blanks. -/
theorem exists_trim {t : Text} (h : t.trimEnd = t) : ∃ s, s.blank = true ∧ t = s ++ t.trim := by
  have hlast : ∀ c ∈ t.reverse.head?, isBlank c = false :=
    trimStart_eq_self.1 (List.reverse_injective ((List.reverse_reverse _).symm ▸ h))
  have hsplit : t = t.takeWhile isBlank ++ t.trimStart := List.takeWhile_append_dropWhile.symm
  have htrim : t.trim = t.trimStart := by
    refine List.reverse_injective ?_
    rw [trim, trimEnd, List.reverse_reverse]
    refine trimStart_eq_self.2 fun c hc => hlast c ?_
    rw [hsplit, List.reverse_append, List.head?_append, Option.mem_def.1 hc]
    rfl
  exact ⟨_, List.all_takeWhile, by rw [htrim, ← hsplit]⟩

end Text

namespace Header

open Import (Row)
open Lines (endStatement)

variable {style : Style} {ls : List Text} {l : Text} {d : Import}

theorem getLast?_text_ne (d : Import) {q : Char} (hq : IsMark q) :
    ((Row.statement d false).text q).getLast? ≠ some ';' := by
  rw [Row.getLast?_text d q false]
  rcases hq with rfl | rfl <;> decide

theorem Canonical.line_eq (style : Style) (d : Import) : Canonical.line style d =
    (Row.statement d false).text style.quote ++ if style.semi then [';'] else [] := by
  simp [Canonical.line, Row.text]

theorem Canonical.unclosed_line (style : Style) (d : Import) :
    (Canonical.line style d).unclosed = (Row.statement d false).text style.quote := by
  rw [Text.unclosed_eq_iff (getLast?_text_ne d (Import.isMark_quote style)), line_eq]
  cases style.semi with
  | true => exact .inr rfl
  | false => exact .inl (List.append_nil _)

/-- A line of a canonical header that is a statement but for a semicolon is the statement. -/
theorem Canonical.trim_eq (h : Canonical style ls) (hl : l ∈ ls)
    (hline : l.trim.unclosed = (Canonical.line style d).unclosed) :
    l.trim = Canonical.line style d := by
  have hq := Import.isMark_quote style
  have hquote := Row.getLast?_text d style.quote false
  rw [unclosed_line, Text.unclosed_eq_iff (getLast?_text_ne d hq)] at hline
  obtain ⟨indent, hindent, hsplit⟩ := Text.exists_trim (h.written l hl).trimEnd
  have hended := h.ended l hl
  rw [line_eq]
  cases hsemi : style.semi with
  | true =>
    rw [if_pos rfl]
    refine hline.resolve_left fun htrim => ?_
    have hdeclares : Lines.isModuleDeclaration l = true := by
      have hstart : l.trimStart = Text.trimStart ((Row.statement d false).text style.quote) := by
        rw [hsplit, htrim, Text.trimStart_append, if_pos hindent]
      have hdeclares := Row.isModuleDeclaration_text d style.quote false
      rw [Lines.isModuleDeclaration] at hdeclares ⊢
      rwa [hstart]
    have hlast : l.getLast?.any ['\'', '"'].contains = true := by
      rw [hsplit, htrim, List.getLast?_append, hquote]
      rcases hq with hq | hq <;> rw [hq] <;> rfl
    rw [hsemi, endStatement, if_pos rfl, hdeclares, hlast] at hended
    simp at hended
  | false =>
    rw [if_neg Bool.false_ne_true, List.append_nil]
    refine hline.resolve_right fun htrim => ?_
    rw [hsemi] at hended
    refine Lines.getLast?_of_ended hended ?_
    rw [hsplit, htrim, ← List.append_assoc, List.getLast?_concat]

end Header

namespace Import

variable {path : String} {o : StyleOverrides} {c f s r y : Text} {h : Header} {d : Import}

theorem essence_statement_ne_nil (d : Import) : essence d.statement ≠ [] := by
  obtain ⟨t, ht⟩ : ∃ t, d.statement = "import ".toList ++ t := by
    rw [statement]
    split
    · exact ⟨_, by simp only [List.append_assoc]; rfl⟩
    · split
      · exact ⟨_, rfl⟩
      · exact ⟨_, by simp only [List.append_assoc]; rfl⟩
  rw [ht, Text.essence_append]
  exact List.append_ne_nil_of_left_ne_nil (by decide) _

theorem holds_iff : h.holds s = true ↔ ∃ l ∈ h.imports ++ h.blanks, l.trim = s := by
  rw [Header.holds, List.any_eq_true]
  simp only [beq_iff_eq]

/-- The layout of a single-line text cannot hold what an insertion adds to it. -/
theorem holds_of_settle_eq (hheader : Header.ofText? f = some h)
    (hstyled : d.styled path o = .ok s) (hy : settle path o f = .ok r)
    (hkept : ∀ t, d.spliced path o f = .ok t → essence r = essence t)
    (hstatement : essence s = essence d.statement) : h.holds s = true := by
  by_contra hs
  have hsplice : d.spliced path o f = .ok (h.splice s) := by
    rw [spliced_eq hheader hstyled, if_neg hs]
  have hmore := congrArg List.length (hkept _ hsplice)
  rw [settle, mapError_eq_ok_iff] at hy
  have hle := (normalize_loses_end hy).length_le
  have hpos := List.length_pos_iff.2 d.essence_statement_ne_nil
  rw [(Header.ofText?_eq_some hheader).1] at hle
  simp only [Header.splice, Text.essence_append, List.length_append, hstatement] at hmore hle
  omega

/-- In a header that is laid out, a line that equals the statement but for a semicolon equals it,
unless the style has no semicolons and a hazard follows. -/
theorem present_of_unclosed (hpath : isScript path = true) (hstable : flatten path o f = .ok f)
    (hheader : Header.ofText? f = some h) (hlines : ∀ l ∈ h.imports, Header.StaticLine l)
    (hd : d.Plain) (hsize : d.statement.length < StyleOverrides.widest)
    (hstyled : d.styled path o = .ok s)
    (hbody : o.resolve.semi = true ∨ Lines.startsHazardously h.after = false)
    (hpresent : ∃ l ∈ h.imports ++ h.blanks, l.trim.unclosed = s.unclosed) :
    ∃ l ∈ h.imports ++ h.blanks, l.trim = s := by
  obtain ⟨hcut, ⟨last, hlast, himport⟩, hblanks⟩ := Header.ofText?_eq_some hheader
  rw [flatten_eq_ok_iff hpath, hcut] at hstable
  have hne : last ≠ [] := by
    rintro rfl
    cases himport
  have hsemi : o.resolve.wide.semi = true ∨ Lines.startsHazardously h.after = false := hbody
  obtain ⟨hcanonical, -⟩ := exists_canonical hlines hlast hne hsemi hstable
  rw [styled_eq hpath hd hsize, Except.ok.injEq] at hstyled
  have hline : Header.Canonical.line o.resolve.wide d.tidied = s := hstyled
  obtain ⟨l, hl, hpresent⟩ := hpresent
  refine ⟨l, hl, ?_⟩
  rw [← hline] at hpresent ⊢
  rcases List.mem_append.1 hl with hl | hl
  · exact hcanonical.trim_eq hl hpresent
  · rw [hblanks l hl, Header.Canonical.unclosed_line] at hpresent
    have hblank := Row.not_blank_text (isMark_quote o.resolve.wide) d.tidied false
    rw [← hpresent] at hblank
    cases hblank

/-- The lines of the header decide whether an import is inserted. Where a line equals the statement,
the file is laid out as it is; elsewhere the statement is added, and the result differs unless text
is lost. In a header that is laid out, a line that equals the statement up to a semicolon equals it,
unless the style has no semicolons and a hazard follows. -/
theorem insert_present_iff (hvalid : d.valid = true) (hflat : flatten path o c = .ok f)
    (hheader : Header.ofText? f = some h) (hstyled : d.styled path o = .ok s) :
    ((∃ l ∈ h.imports ++ h.blanks, l.trim = s) → insert path o d c = settle path o f) ∧
    (∀ r y, insert path o d c = .ok r → settle path o f = .ok y →
      (∀ t, d.spliced path o f = .ok t → essence r = essence t) →
      essence s = essence d.statement →
        (r = y ↔ ∃ l ∈ h.imports ++ h.blanks, l.trim = s)) ∧
    (isScript path = true → flatten path o f = .ok f → (∀ l ∈ h.imports, Header.StaticLine l) →
      d.Plain → d.statement.length < StyleOverrides.widest →
      o.resolve.semi = true ∨ Lines.startsHazardously h.after = false →
      (∃ l ∈ h.imports ++ h.blanks, l.trim.unclosed = s.unclosed) →
        ∃ l ∈ h.imports ++ h.blanks, l.trim = s) := by
  rw [← holds_iff]
  have hkeep (hs : h.holds s = true) : insert path o d c = settle path o f := by
    refine insert_eq_settle hvalid hflat ?_
    rw [spliced_eq hheader hstyled, if_pos hs]
  refine ⟨hkeep, fun r y hr hy hkept hstatement => ⟨?_, fun hs => ?_⟩,
    fun hpath hstable hlines hd hsize hbody hpresent => holds_iff.2 (present_of_unclosed hpath
      hstable hheader hlines hd hsize hstyled hbody hpresent)⟩
  · rintro rfl
    exact holds_of_settle_eq hheader hstyled hy hkept hstatement
  · rw [hkeep hs, hy, Except.ok.injEq] at hr
    exact hr.symm

/-- An import that is there under the other quote, with a semicolon, is not inserted again. -/
theorem insert_present_above_call :
    flatten "a.js" {} "import \"./b\";\nb()\n".toList = .ok "import './b'\nb()\n".toList ∧
    Import.insert "a.js" {} (sideEffect "./b".toList) "import \"./b\";\nb()\n".toList =
      settle "a.js" {} "import './b'\nb()\n".toList := by
  have hflat : flatten "a.js" {} "import \"./b\";\nb()\n".toList =
      .ok "import './b'\nb()\n".toList := by decide +kernel
  have hline : ∀ k ∈ ["import './b'".toList], Header.StaticLine k := by
    intro k hk
    rw [List.mem_singleton.1 hk]
    exact staticLine_of_open [' '] "./b".toList [] (by decide) (by decide) (.inl rfl) (by decide)
  obtain ⟨hkeep, -, hlaid⟩ := insert_present_iff (d := sideEffect "./b".toList)
    (h := ⟨["import './b'".toList], [], "b()\n".toList⟩) (s := "import './b'".toList)
    rfl hflat (by decide +kernel) (by decide +kernel)
  refine ⟨hflat, hkeep (hlaid (by decide) (by decide +kernel) hline
    (plain_sideEffect (by decide)) (by decide +kernel) (.inr (by decide))
    ⟨"import './b'".toList, List.mem_singleton_self _, by decide⟩)⟩

/-- An import keeps its semicolon above a parenthesis, and is inserted once more. -/
theorem insert_present_twice :
    let c := "import './b';\n(b)\n".toList
    flatten "a.js" {} c = .ok c ∧ settle "a.js" {} c = .ok c ∧
      Header.ofText? c = some ⟨["import './b';".toList], [], "(b)\n".toList⟩ ∧
      (sideEffect "./b".toList).styled "a.js" {} = .ok "import './b'".toList ∧
      Text.unclosed (Text.trim "import './b';".toList) = Text.unclosed "import './b'".toList ∧
      Import.insert "a.js" {} (sideEffect "./b".toList) c =
        .ok "import './b'\nimport './b'\n(b)\n".toList ∧
      Import.insert "a.js" {} (sideEffect "./b".toList) c ≠ settle "a.js" {} c := by
  refine ⟨?_, ?_, ?_, ?_, ?_, ?_, ?_⟩
  all_goals decide +kernel

end Import

end ProjectSetup
