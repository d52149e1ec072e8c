import ProjectSetup.Proofs.Import.Static
import ProjectSetup.Proofs.Layout.Stability

/-!
# Insertion into canonical files

A canonical file is its own normal form, and so are its header and the text below it: the header is
read and laid out line by line as it stands. An import that is inserted takes a line of its own at
its end. The text below sees of the header only the last character of its last line.
-/
namespace ProjectSetup

open Import (Row)

/-- A line of a header with modules between the quotes `q`. -/
def Header.Written (q : Char) (k : Text) : Prop :=
  k = [] ∨ ∃ i : StaticImport, i.Framed ∧ i.quote = q ∧ i.text = k

namespace Header.Written

variable {q : Char} {k : Text}

theorem unbroken (h : Written q k) : '\n' ∉ k := by
  rcases h with rfl | ⟨i, hi, -, rfl⟩
  · exact List.not_mem_nil
  · exact hi.unbroken_text

theorem tame (h : Written q k) : Lines.startsHazardously k = false := by
  rcases h with rfl | ⟨i, hi, -, rfl⟩
  · rfl
  · exact hi.tame

theorem trimEnd (h : Written q k) : k.trimEnd = k := by
  rcases h with rfl | ⟨i, hi, -, rfl⟩
  · rfl
  · exact hi.trimEnd_text

/-- A line that is not blank ends with its quote or with a semicolon. -/
theorem exists_mark (h : Written q k) (hne : k ≠ []) :
    ∃ m, k.getLast? = some m ∧ (m = q ∨ m = ';') := by
  obtain ⟨i, hi, rfl, rfl⟩ := h.resolve_left hne
  rw [hi.getLast?_text]
  split
  · exact ⟨_, rfl, .inl rfl⟩
  · exact ⟨_, rfl, .inr rfl⟩

end Header.Written

theorem Echo.written {q : Char} {ls ks : List Text} (hq : IsMark q)
    (h : List.Forall₂ (Echo q) ls ks) : ∀ k ∈ ks, Header.Written q k := by
  induction h with
  | nil => exact fun k hk => by cases hk
  | cons hk hks ih =>
    intro k' hk'
    rcases List.mem_cons.1 hk' with rfl | hk'
    · cases hk with
      | blank => exact .inl rfl
      | statement hi hc => exact .inr ⟨_, hi.echo hc hq, rfl, rfl⟩
    · exact ih k' hk'

/-- An import on one line does not end with a brace, as the first line of a wide one does. -/
theorem StaticImport.Framed.getLast?_ne_brace {i : StaticImport} (h : i.Framed) :
    i.text.getLast? ≠ some '{' := by
  rw [h.getLast?_text]
  split
  · rcases h.quote with hmark | hmark
    · rw [hmark]
      decide
    · rw [hmark]
      decide
  · decide

namespace Lines

variable {style : Style}

/-- A wrapped statement begins with a line that ends with its brace. -/
theorem wrapWide_eq_or_brace (style : Style) (line : Text) : wrapWide style line = [line] ∨
    ∃ head back rest,
      wrapWide style line = (head ++ ['{']) :: back ∧ line = head ++ '{' :: rest := by
  refine (wrapWide_cases style line).imp_right ?_
  rintro ⟨i, hi, hwrap⟩
  obtain ⟨list, hline, -⟩ := ofLine?_eq_some hi
  refine ⟨"import ".toList ++ i.head, _, ' ' :: (list ++ ' ' :: ("\x7d from ".toList ++ i.tail)),
    hwrap, ?_⟩
  rw [hline]
  simp

/-- The header as it is laid out. -/
def layHeader (style : Style) (ks : List Text) : List Line :=
  (ks.flatMap (wrapWide style)).map (⟨·, .statement⟩)

theorem layHeader_cons (k : Text) (ks : List Text) : layHeader style (k :: ks) =
    (wrapWide style k).map (⟨·, .statement⟩) ++ layHeader style ks := by
  rw [layHeader, List.flatMap_cons, List.map_append]
  rfl

theorem layLines_header {ks : List Text} (hks : ∀ k ∈ ks, k.trimEnd = k) (ys : List Text)
    (es : List LineEnd) :
    layLines style (ks ++ ys) (List.replicate ks.length .statement ++ es) =
      layHeader style ks ++ layLines style ys es := by
  induction ks with
  | nil => rfl
  | cons k ks ih =>
    rw [List.cons_append, List.length_cons, List.replicate_succ, List.cons_append, layLines,
      ih fun k' hk' => hks k' (List.mem_cons_of_mem k hk'), layLine, hks k List.mem_cons_self,
      layHeader_cons, List.append_assoc]

/-- Where two lines stand first in one text, they are one line. -/
theorem line_eq {l k t u : Text} (hl : '\n' ∉ l) (hk : '\n' ∉ k)
    (h : l ++ '\n' :: t = k ++ '\n' :: u) : l = k ∧ t = u := by
  have hsplit := congrArg (Text.splitOn '\n') h
  rw [Text.splitOn_append_cons, Text.splitOn_append_cons, Text.splitOn_of_not_mem hl,
    Text.splitOn_of_not_mem hk] at hsplit
  obtain rfl : l = k := List.head_eq_of_cons_eq hsplit
  exact ⟨rfl, List.tail_eq_of_cons_eq (List.append_cancel_left h)⟩

/-- The first line of a statement that is laid out. -/
theorem exists_first_line (hq : IsMark style.quote) {i : StaticImport} {clause : Text}
    (hi : i.Framed) (hc : '\n' ∉ clause) :
    ∃ p ps, wrapWide style { i with clause, quote := style.quote }.text = p :: ps ∧ '\n' ∉ p ∧
      p.blank = false ∧ (ps = [] ∧ p = { i with clause, quote := style.quote }.text ∨
        p.getLast? = some '{') := by
  have hecho := hi.echo hc hq
  rcases wrapWide_eq_or_brace style { i with clause, quote := style.quote }.text with
    hone | ⟨head, back, rest, hwrap, hline⟩
  · exact ⟨_, [], hone, hecho.unbroken_text, hecho.not_blank, .inl ⟨rfl, rfl⟩⟩
  · have hhead : '\n' ∉ head := fun hmem => hecho.unbroken_text (by
      rw [hline]
      exact List.mem_append_left _ hmem)
    have hbrace : Text.isBlank '{' = false := by decide
    exact ⟨_, back, hwrap, by simp [hhead], by simp [hbrace], .inr (by simp)⟩

theorem layHeader_blank (ks : List Text) (zs : List Line) : layHeader style ([] :: ks) ++ zs =
    ⟨[], .statement⟩ :: (layHeader style ks ++ zs) := by
  rw [layHeader_cons, wrapWide_of_none rfl style]
  rfl

/-- The first line of a statement stays, whatever lies above it. -/
theorem squeeze_statement {k p : Text} {ps : List Text} (hwrap : wrapWide style k = p :: ps)
    (hp : p.blank = false) (afterBlank : Bool) (ks : List Text) (zs : List Line) :
    squeeze afterBlank (layHeader style (k :: ks) ++ zs) =
      p :: squeeze false (ps.map (⟨·, .statement⟩) ++ (layHeader style ks ++ zs)) := by
  rw [layHeader_cons, hwrap, List.map_cons, List.cons_append, List.cons_append, squeeze,
    if_neg (by simp [Line.isBlank, hp]), List.append_assoc]

/-- Below a blank line, lines with an import among them begin with a line that is not blank. -/
theorem exists_first_squeezed (hq : IsMark style.quote) {ls ks : List Text}
    (h : List.Forall₂ (Echo style.quote) ls ks) (hne : ∃ l ∈ ls, l ≠ []) (zs : List Line) :
    ∃ p ps, squeeze true (layHeader style ks ++ zs) = p :: ps ∧ '\n' ∉ p ∧ p ≠ [] := by
  induction h with
  | nil =>
    obtain ⟨l, hl, -⟩ := hne
    cases hl
  | @cons l k ls ks hk hks ih =>
    cases hk with
    | blank =>
      rw [layHeader_blank]
      exact ih (by simpa using hne)
    | @statement i clause hi hc =>
      obtain ⟨p, ps, hwrap, hunbroken, hblank, -⟩ := exists_first_line hq hi hc
      refine ⟨p, _, squeeze_statement hwrap hblank true ks zs, hunbroken, ?_⟩
      rintro rfl
      cases hblank

theorem dropEmptyEnd_cons {p : Text} (hp : p ≠ []) (ps : List Text) :
    dropEmptyEnd (p :: ps) = p :: dropEmptyEnd ps := by
  have h : dropEmptyEnd ([p] ++ ps) = [p] ++ dropEmptyEnd ps := dropEmptyEnd_append rfl hp ps
  exact h

/-- The header of a canonical file is written and laid out as it stands, and the text below it by
itself. -/
theorem header_canonical (hq : IsMark style.quote) {ls ks : List Text}
    (h : List.Forall₂ (Echo style.quote) ls ks) (hlast : ls.getLast? ≠ some [])
    {afterBlank : Bool} {zs : List Line} {body : Text}
    (hlaid : Header.joinLines (dropEmptyEnd (squeeze afterBlank (layHeader style ks ++ zs))) =
      Header.joinLines ls ++ body) :
    ks = ls ∧ (∀ zs', squeeze afterBlank (layHeader style ks ++ zs') =
      ls ++ squeeze (afterBlank && ls.isEmpty) zs') ∧
        Header.joinLines (dropEmptyEnd (squeeze (afterBlank && ls.isEmpty) zs)) = body := by
  induction h generalizing afterBlank with
  | nil =>
    refine ⟨rfl, fun _ => by simp [layHeader], ?_⟩
    simpa [layHeader, Header.joinLines] using hlaid
  | @cons l k ls ks hk hks ih =>
    have hlast' : ls.getLast? ≠ some [] := by
      rcases ls.eq_nil_or_concat with rfl | ⟨front, last, rfl⟩
      · simp
      · rwa [List.getLast?_cons_of_ne_nil (by simp)] at hlast
    rw [Header.joinLines_cons, List.append_assoc, List.cons_append] at hlaid
    cases hk with
    | blank =>
      have hne : ls ≠ [] := by
        rintro rfl
        exact hlast rfl
      have himport : ∃ l ∈ ls, l ≠ [] := ⟨ls.getLast hne, List.getLast_mem hne, fun he =>
        hlast' (by rw [List.getLast?_eq_some_getLast hne, he])⟩
      cases afterBlank with
      | true =>
        -- a blank line at the top is dropped, and the text would begin with an import
        obtain ⟨l, hl, himport⟩ := himport
        obtain ⟨p, ps, hsqueezed, hunbroken, hp⟩ := exists_first_squeezed hq
          (.cons .blank hks) ⟨l, List.mem_cons_of_mem [] hl, himport⟩ zs
        rw [hsqueezed, dropEmptyEnd_cons hp, Header.joinLines_cons] at hlaid
        exact absurd (line_eq hunbroken List.not_mem_nil hlaid).1 hp
      | false =>
        have hkept (zs' : List Line) : squeeze false (layHeader style ([] :: ks) ++ zs') =
            [] :: squeeze true (layHeader style ks ++ zs') := by
          rw [layHeader_blank]
          rfl
        have hdrop : dropEmptyEnd ([] :: squeeze true (layHeader style ks ++ zs)) =
            [] :: dropEmptyEnd (squeeze true (layHeader style ks ++ zs)) := by
          obtain ⟨p, ps, hsqueezed, -, hp⟩ := exists_first_squeezed hq hks himport zs
          refine dropEmptyEnd_cons_of_ne_nil [] ?_
          rw [hsqueezed, dropEmptyEnd_cons hp]
          exact List.cons_ne_nil _ _
        rw [hkept, hdrop, Header.joinLines_cons] at hlaid
        obtain ⟨hks', hall, hbelow⟩ := ih hlast'
          (line_eq List.not_mem_nil List.not_mem_nil hlaid).2
        have hempty : ls.isEmpty = false := by simpa using hne
        rw [hempty] at hall hbelow
        refine ⟨by rw [hks'], fun zs' => ?_, hbelow⟩
        rw [hkept, hall, List.cons_append]
        rfl
    | @statement i clause hi hc =>
      obtain ⟨p, ps, hwrap, hunbroken, hblank, hform⟩ := exists_first_line hq hi hc
      have hp : p ≠ [] := by
        rintro rfl
        cases hblank
      have hkept := squeeze_statement hwrap hblank afterBlank ks
      rw [hkept, dropEmptyEnd_cons hp, Header.joinLines_cons] at hlaid
      obtain ⟨hline, hrest⟩ := line_eq hunbroken hi.unbroken_text hlaid
      rcases hform with ⟨rfl, hsame⟩ | hbrace
      · obtain ⟨hks', hall, hbelow⟩ := ih hlast' hrest
        refine ⟨by rw [hks', ← hsame, hline], fun zs' => ?_, ?_⟩
        · rw [hkept, hline, List.map_nil, List.nil_append, hall]
          simp
        · simpa using hbelow
      · rw [hline] at hbrace
        exact absurd hbrace hi.getLast?_ne_brace

theorem startsHazardously_of_fixed {t : Text} (h : Text.fixed t = []) :
    startsHazardously t = false := by
  have hmarks : ['(', '[', '\x60'].all Text.isFixed = true := by decide
  rw [startsHazardously, Option.any_eq_false]
  intro c hc
  rw [← Bool.not_eq_true, List.contains_iff_mem]
  intro hmark
  have hmem : c ∈ t := (List.dropWhile_suffix _).subset (List.mem_of_mem_head? hc)
  have hfixed : c ∈ Text.fixed t := List.mem_filter.2 ⟨hmem, List.all_eq_true.1 hmarks c hmark⟩
  rw [h] at hfixed
  cases hfixed

/-- Lines that hold nothing but blanks and commas are no hazard, wherever lines are cut. -/
theorem hazardAhead_of_drop {ts : List Text} {n : Nat} (h : hazardAhead (ts.take n) = false)
    (hbeyond : (ts.drop n).flatMap Text.fixed = []) : hazardAhead ts = false := by
  rw [← List.take_append_drop n ts, hazardAhead_append]
  split
  · rw [← startsHazardously_join]
    exact startsHazardously_of_fixed (by rw [Text.fixed_join_lines, hbeyond])
  · exact h

/-- Lines that are laid out as a text that is no hazard are none. -/
theorem hazardAhead_of_laid {ts : List Text} {es : List LineEnd} {body : Text}
    (hlaid : Header.joinLines (dropEmptyEnd (squeeze false (finishLines style ts es))) = body)
    (hbody : startsHazardously body = false)
    (hbeyond : (ts.drop es.length).flatMap Text.fixed = []) : hazardAhead ts = false := by
  have htake : hazardAhead (ts.take es.length) = false := by
    rw [← hazardAhead_finishLines style, ← hazardAhead_squeeze false, ← hazardAhead_dropEmptyEnd,
      ← startsHazardously_joinLines, hlaid, hbody]
  exact hazardAhead_of_drop htake hbeyond

theorem hazardAhead_append_of_tame {ks ys : List Text}
    (hks : ∀ k ∈ ks, startsHazardously k = false) (hys : hazardAhead ys = false) :
    hazardAhead (ks ++ ys) = false := by
  induction ks with
  | nil => exact hys
  | cons k ks ih =>
    rw [List.cons_append, hazardAhead_cons]
    split
    · exact ih fun k' hk' => hks k' (List.mem_cons_of_mem k hk')
    · exact hks k List.mem_cons_self

theorem Settled.of_append {ks ys : List Text} {es : List LineEnd}
    (h : Settled style (ks ++ ys) (List.replicate ks.length .statement ++ es)) :
    Settled style ys es := by
  induction ks with
  | nil => exact h
  | cons k ks ih => exact ih h.2

/-- With semicolons, or above lines that begin with no hazard, each line of a header ends as it
would by itself. -/
theorem Settled.ended {ks ys : List Text} {es : List LineEnd}
    (h : Settled style (ks ++ ys) (List.replicate ks.length .statement ++ es))
    (hks : ∀ k ∈ ks, startsHazardously k = false) (hys : style.semi = true ∨ hazardAhead ys = false)
    (htrim : ∀ k ∈ ks, k.trimEnd = k) : ∀ k ∈ ks, endStatement style.semi k [] = k := by
  induction ks with
  | nil => exact fun k hk => by cases hk
  | cons k ks ih =>
    have hks' : ∀ k' ∈ ks, startsHazardously k' = false := fun k' hk' =>
      hks k' (List.mem_cons_of_mem k hk')
    have hnone : style.semi = true ∨ hazardAhead [] = hazardAhead (ks ++ ys) :=
      hys.imp_right fun hys => (hazardAhead_append_of_tame hks' hys).symm
    have hend := h.1 rfl
    rw [htrim k List.mem_cons_self] at hend
    intro k' hk'
    rcases List.mem_cons.1 hk' with rfl | hk'
    · exact (endStatement_congr hnone k').trans hend
    · exact ih h.2 hks' (fun k' hk' => htrim k' (List.mem_cons_of_mem k hk')) k' hk'

/-- A line that has ended is laid out as it stands. -/
theorem finishLines_ended {k : Text} {ts : List Text} (htrim : k.trimEnd = k)
    (hended : endStatement style.semi k ts = k) (es : List LineEnd) :
    finishLines style (k :: ts) (.statement :: es) =
      (wrapWide style k).map (⟨·, .statement⟩) ++ finishLines style ts es := by
  rw [finishLines, finishLine, htrim, hended]

/-- Lines of a header that have ended are laid out above lines that begin with no hazard. -/
theorem finishLines_header {ks ys : List Text} (hks : ∀ k ∈ ks, startsHazardously k = false)
    (htrim : ∀ k ∈ ks, k.trimEnd = k) (hended : ∀ k ∈ ks, endStatement style.semi k [] = k)
    (hys : hazardAhead ys = false) (es : List LineEnd) :
    finishLines style (ks ++ ys) (List.replicate ks.length .statement ++ es) =
      layHeader style ks ++ finishLines style ys es := by
  induction ks with
  | nil => rfl
  | cons k ks ih =>
    have hrest {p : Text → Prop} (h : ∀ k' ∈ k :: ks, p k') : ∀ k' ∈ ks, p k' := fun k' hk' =>
      h k' (List.mem_cons_of_mem k hk')
    have hnone : hazardAhead (ks ++ ys) = hazardAhead [] :=
      hazardAhead_append_of_tame (hrest hks) hys
    have hend : endStatement style.semi k (ks ++ ys) = k :=
      (endStatement_congr (.inr hnone) k).trans (hended k List.mem_cons_self)
    rw [List.cons_append, List.length_cons, List.replicate_succ, List.cons_append,
      finishLines_ended (htrim k List.mem_cons_self) hend,
      ih (hrest hks) (hrest htrim) (hrest hended), layHeader_cons, List.append_assoc]

end Lines

/-- What stands beyond the records of a draft that is laid out as its source is blank, or commas. -/
theorem LaidOut.fixed_beyond {style : Style} {source : Text} {d : Draft}
    (h : LaidOut style source d) :
    ((Text.splitOn '\n' d.text).drop d.lineEnds.length).flatMap Text.fixed = [] := by
  have hkept : ((Text.splitOn '\n' d.text).take d.lineEnds.length).flatMap Text.fixed =
      Text.fixed source := by
    have hlines := Lines.flatMap_finishLines_of_settled lasting_fixed h.settled
    rw [← Lines.filter_assemble lasting_fixed] at hlines
    rw [← h.laid, ← Lines.finish_of_settled h.settled]
    exact hlines.symm
  have hsplit := Text.fixed_join_lines (Text.splitOn '\n' d.text)
  rw [Text.join_splitOn, Draft.fixed_collapse h.read, ← hkept,
    ← List.take_append_drop d.lineEnds.length (Text.splitOn '\n' d.text), List.flatMap_append,
    List.take_append_drop] at hsplit
  simpa using hsplit

namespace Header

/-- Whether the first line that is not blank is an import. -/
def importAhead (t : Text) : Bool :=
  ((Text.splitOn '\n' t).find? fun l => !l.blank).any isImport

theorem not_blank_of_isImport {l : Text} (h : isImport l = true) : l.blank = false := by
  cases hb : l.blank with
  | false => rfl
  | true =>
    have hblank : (l.dropWhile isSpace).all Text.isBlank = true :=
      List.all_eq_true.2 fun c hc =>
        List.all_eq_true.1 hb c ((List.dropWhile_suffix isSpace).subset hc)
    rw [isImport] at h
    split at h
    · next r hr =>
      rw [Text.after?_eq_some_iff] at hr
      rw [hr] at hblank
      cases hblank
    · cases h

/-- Ahead of another line that is not blank, only blank lines belong to a header. -/
theorem not_isImport_of_leading {ls : List Text}
    (h : (ls.find? fun l => !l.blank).any isImport = false) :
    ∀ l ∈ ls.takeWhile belongs, isImport l = false := by
  induction ls with
  | nil => exact fun l hl => by cases hl
  | cons l ls ih =>
    cases hblank : l.blank with
    | true =>
      have hl : isImport l = false := by
        cases himport : isImport l with
        | false => rfl
        | true => exact hblank.symm.trans (not_blank_of_isImport himport)
      rw [List.find?_cons_of_neg (by simp [hblank])] at h
      intro k hk
      rw [List.takeWhile_cons] at hk
      split at hk
      · rcases List.mem_cons.1 hk with rfl | hk
        · exact hl
        · exact ih h k hk
      · cases hk
    | false =>
      rw [List.find?_cons_of_pos (by simp [hblank]), Option.any_some] at h
      have hspace : l.all isSpace = false := by
        cases hall : l.all isSpace with
        | false => rfl
        | true =>
          have hb : l.blank = true := List.all_eq_true.2 fun c hc =>
            StaticImport.isBlank_of_isSpace (List.all_eq_true.1 hall c hc)
          exact hb.symm.trans hblank
      rw [List.takeWhile_cons_of_neg (by simp [belongs, h, hspace])]
      exact fun k hk => by cases hk

theorem cutLines_append_of_not {ls ks : List Text} (hlast : ∀ l ∈ ls.getLast?, isImport l = true)
    (hks : ∀ k ∈ ks, isImport k = false) : cutLines (ls ++ ks) = (ls, ks) := by
  induction ls with
  | nil =>
    induction ks with
    | nil => rfl
    | cons k ks ih =>
      have hrest := ih fun k' hk' => hks k' (List.mem_cons_of_mem k hk')
      rw [List.nil_append] at hrest ⊢
      rw [cutLines, hrest]
      simp [hks k List.mem_cons_self]
  | cons l ls ih =>
    cases ls with
    | nil =>
      have hrest := ih (by simp)
      rw [List.nil_append] at hrest
      rw [List.singleton_append, cutLines, hrest]
      simp [hlast l rfl]
    | cons l' ls =>
      rw [List.cons_append, cutLines, ih (by rwa [List.getLast?_cons_cons] at hlast)]

/-- The header of a text ends behind its imports, if no import is the first line below them that is
not blank. -/
theorem exists_ofText? {ls : List Text} (hunbroken : ∀ l ∈ ls, '\n' ∉ l)
    (hbelongs : ∀ l ∈ ls, belongs l = true) {l : Text} (hlast : ls.getLast? = some l)
    (himport : isImport l = true) {body : Text} (hbody : importAhead body = false) :
    ∃ h, ofText? (joinLines ls ++ body) = some h ∧ h.imports = ls ∧ h.after = body := by
  let ks := (Text.splitOn '\n' body).dropLast.takeWhile belongs
  have hks : ∀ k ∈ ks, isImport k = false := by
    refine not_isImport_of_leading ((Option.any_eq_false _ _).2 fun k hk => ?_)
    have hfirst := (List.dropLast_prefix (Text.splitOn '\n' body)).find?_eq_some hk
    rw [importAhead, hfirst] at hbody
    exact hbody
  have hleading : (Text.splitOn '\n' (joinLines ls ++ body)).dropLast.takeWhile belongs =
      ls ++ ks := by
    rw [Lines.splitOn_joinLines hunbroken, List.dropLast_append_of_ne_nil (Text.splitOn_ne_nil _ _),
      List.takeWhile_append_of_pos hbelongs]
  have hcut : cutLines (ls ++ ks) = (ls, ks) := by
    refine cutLines_append_of_not (fun l' hl' => ?_) hks
    rw [hlast] at hl'
    cases hl'
    exact himport
  obtain ⟨h, hh, himports⟩ : ∃ h, ofText? (joinLines ls ++ body) = some h ∧ h.imports = ls := by
    rw [ofText?]
    simp only [hleading, hcut]
    cases ls with
    | nil => cases hlast
    | cons l' ls => exact ⟨_, rfl, rfl⟩
  refine ⟨h, hh, himports, ?_⟩
  have hsplit := (ofText?_eq_some hh).1
  rw [before, himports] at hsplit
  exact (List.append_cancel_left hsplit).symm

end Header

section Canonical

variable {style : Style} {ls : List Text} {l body : Text} {d : Import}

open Lines (endStatement finishBelow hazardAhead layHeader squeeze)

/-- Lines that stay as they are at the beginning of a script: in a style with semicolons, or above a
text that is no hazard. -/
structure Header.Canonical (style : Style) (ls : List Text) : Prop where
  written : ∀ l ∈ ls, Header.Written style.quote l
  takes : Draft.Takes style.quote {} (Header.joinLines ls) (({} : Draft).addLines ls)
  ended : ∀ l ∈ ls, endStatement style.semi l [] = l
  squeezed : ∀ zs, squeeze true (layHeader style ls ++ zs) = ls ++ squeeze ls.isEmpty zs

theorem Header.Canonical.nil (style : Style) : Canonical style [] where
  written _ hl := by cases hl
  takes _ := ⟨_, rfl⟩
  ended _ hl := by cases hl
  squeezed _ := rfl

theorem Echo.exists_last {q : Char} {ks : List Text} (h : List.Forall₂ (Echo q) ls ks)
    (hl : ls.getLast? = some l) : ∃ k, ks.getLast? = some k ∧ Echo q l k := by
  induction h with
  | nil => cases hl
  | @cons l' k ls ks hk hks ih =>
    cases hks with
    | nil =>
      cases hl
      exact ⟨k, rfl, hk⟩
    | cons hk' hks =>
      rw [List.getLast?_cons_cons] at hl ⊢
      exact ih hl

theorem Echo.ne_nil {q : Char} {k : Text} (h : Echo q l k) (hq : IsMark q) (hl : l ≠ []) :
    k ≠ [] := by
  cases h with
  | blank => exact absurd rfl hl
  | statement hi hc =>
    intro hk
    have hnot := (hi.echo hc hq).not_blank
    rw [hk] at hnot
    cases hnot

/-- A script that is its own normal form, with a header that ends with an import: the header is
canonical, and the text below it is laid out as it stands below a line that ends alike. -/
theorem exists_canonical (hlines : ∀ l ∈ ls, Header.StaticLine l) (hl : ls.getLast? = some l)
    (hne : l ≠ []) (hbody : style.semi = true ∨ Lines.startsHazardously body = false)
    (h : normalizeScript style (Header.joinLines ls ++ body) = .ok (Header.joinLines ls ++ body)) :
    Header.Canonical style ls ∧ ∃ m y es, l.getLast? = some m ∧ (m = style.quote ∨ m = ';') ∧
      (∀ m', m = m' ∨ Text.opensSlash body = false → Draft.Below style.quote m' body y es) ∧
        finishBelow style y es = body := by
  have hq := Import.isMark_quote style
  obtain ⟨e, hlaid⟩ := normalizeScript_eq_self_iff.1 h
  have hfree : ({} : Draft).Free := ⟨rfl, rfl⟩
  obtain ⟨ks, hks, htakes⟩ := hfree.exists_header hq hlines
  have hwritten := Echo.written hq hks
  have hunbroken : ∀ k ∈ ks, '\n' ∉ k := fun k hk => (hwritten k hk).unbroken
  have htrim : ∀ k ∈ ks, k.trimEnd = k := fun k hk => (hwritten k hk).trimEnd
  have htame : ∀ k ∈ ks, Lines.startsHazardously k = false := fun k hk => (hwritten k hk).tame
  obtain ⟨k, hk, hecho⟩ := Echo.exists_last hks hl
  obtain ⟨m, hm, hmark⟩ := (hwritten k (List.mem_of_getLast? hk)).exists_mark (hecho.ne_nil hq hne)
  have hfollows : (({} : Draft).addLines ks).Follows m := by
    refine Draft.follows_addLines_of_getLast? ?_ hk hm {}
    rcases hmark with rfl | rfl
    · exact hq.imp id .inl
    · exact .inr (.inr rfl)
  obtain ⟨y, es, hbelow, htext, hends⟩ :=
    Draft.exists_below_of_collapse hq (htakes 1) hfollows hlaid.read
  have hsettled := hlaid.settled
  have hbeyond := hlaid.fixed_beyond
  have hlay := hlaid.laid
  rw [Lines.lay, htext, hends, Lines.splitOn_joinLines hunbroken, Lines.layLines_header htrim,
    Lines.assemble_eq_joinLines] at hlay
  rw [htext, hends, Lines.splitOn_joinLines hunbroken] at hsettled hbeyond
  -- the header is given back line by line, and the text below it by what follows
  obtain ⟨rfl, hsqueezed, hrest⟩ := Lines.header_canonical hq hks
    (by rw [hl]; exact fun he => hne (Option.some.inj he)) hlay
  rw [hl, Option.some.injEq] at hk
  subst hk
  have hempty : ks.isEmpty = false := by
    cases ks with
    | nil => cases hl
    | cons k ks => rfl
  rw [hempty, Bool.and_false, ← Lines.finishLines_of_settled hsettled.of_append] at hrest
  have hhazard : style.semi = true ∨ hazardAhead (Text.splitOn '\n' y) = false := by
    refine hbody.imp_right fun hbody => Lines.hazardAhead_of_laid hrest hbody ?_
    rwa [List.length_append, List.length_replicate, List.drop_length_add_append] at hbeyond
  refine ⟨⟨hwritten, htakes 1, hsettled.ended htame hhazard htrim, ?_⟩, m, y, es, hm, hmark,
    hbelow, hrest⟩
  simpa using hsqueezed

namespace Header.Canonical

variable {y : Text} {es : List LineEnd}

/-- The line that an import takes behind a header. -/
def line (style : Style) (d : Import) : Text :=
  (Row.statement d style.semi).text style.quote

theorem line_ne_nil {style : Style} : line style d ≠ [] := by
  have hblank := Row.not_blank_text (Import.isMark_quote style) d style.semi
  intro he
  rw [← line, he] at hblank
  cases hblank

theorem follows_line (style : Style) (d : Import) (ls : List Text) :
    (({} : Draft).addLines (ls ++ [line style d])).Follows (Row.mark style.quote style.semi) := by
  refine Draft.follows_addLines_of_getLast? ?_ List.getLast?_concat
    (Row.getLast?_text d style.quote style.semi) {}
  cases style.semi with
  | false => exact (Import.isMark_quote style).imp id .inl
  | true => exact .inr (.inr rfl)

theorem takes_line (h : Canonical style ls) (hd : d.Plain)
    (hone : Lines.wrapWide style (line style d) = [line style d]) :
    Draft.Takes style.quote {} (joinLines (ls ++ [line style d]))
      (({} : Draft).addLines (ls ++ [line style d])) := by
  have hlines : (Row.statement d style.semi).lines style = [line style d] := hone
  have hend (n : Nat) := ((Draft.atLine_empty.addLines ls).recount n).takes_row
    (r := .statement d style.semi) hd style
  rw [hlines] at hend
  rw [joinLines_append, Draft.addLines, List.foldl_append]
  exact h.takes.append hend

/-- Above any text, the import is laid out as one more line of the header. -/
theorem normalizeScript_concat (h : Canonical style ls) (hd : d.Plain)
    (hone : Lines.wrapWide style (line style d) = [line style d])
    (hbelow : Draft.Below style.quote (Row.mark style.quote style.semi) body y es) :
    normalizeScript style (joinLines (ls ++ [line style d]) ++ body) =
      .ok (joinLines (ls ++ [line style d]) ++ finishBelow style y es) := by
  have hq := Import.isMark_quote style
  have hblank := Row.not_blank_text hq d style.semi
  obtain ⟨e, he, htext, hends⟩ :=
    Draft.exists_collapse_below (h.takes_line hd hone) (follows_line style d ls) hbelow
  have hunbroken : ∀ l ∈ ls ++ [line style d], '\n' ∉ l := by
    intro l hl
    rcases List.mem_append.1 hl with hl | hl
    · exact (h.written l hl).unbroken
    · rw [List.mem_singleton.1 hl]
      exact Row.newline_not_mem_text (r := .statement d style.semi) hq hd
  have htame : hazardAhead (line style d :: Text.splitOn '\n' y) = false := by
    rw [Lines.hazardAhead_cons, if_neg (by simp [line, hblank])]
    exact Row.startsHazardously_text d style.quote style.semi
  have hline : Lines.finishLine style ⟨line style d, .statement⟩ (Text.splitOn '\n' y) =
      [⟨line style d, .statement⟩] := by
    have hend : endStatement style.semi (line style d) (Text.splitOn '\n' y) = line style d := by
      rw [line, Row.endStatement_text hq]
      cases style.semi <;> rfl
    rw [Lines.finishLine, line, Row.trimEnd_text hq, ← line, hend, hone, List.map_singleton]
  have hfinish : Lines.finishLines style ((ls ++ [line style d]) ++ Text.splitOn '\n' y)
      (List.replicate (ls ++ [line style d]).length .statement ++ (es ++ [.statement])) =
        layHeader style ls ++ ⟨line style d, .statement⟩ ::
          Lines.finishLines style (Text.splitOn '\n' y) (es ++ [.statement]) := by
    rw [List.append_assoc, List.singleton_append, List.length_append, List.length_singleton,
      List.replicate_succ', List.append_assoc, List.singleton_append,
      Lines.finishLines_header (fun l hl => (h.written l hl).tame)
        (fun l hl => (h.written l hl).trimEnd) h.ended htame, Lines.finishLines, hline]
    rfl
  have hfull : (⟨line style d, .statement⟩ : Line).isBlank = false := by
    simp [Line.isBlank, line, hblank]
  rw [normalizeScript, he, Except.map, Lines.finish, htext, hends,
    Lines.splitOn_joinLines hunbroken, hfinish, Lines.assemble_eq_joinLines, h.squeezed, squeeze,
    if_neg (by simp [hfull]), ← List.singleton_append, ← List.append_assoc,
    Lines.dropEmptyEnd_append List.getLast?_concat line_ne_nil, joinLines_append]
  rfl

/-- Above a text, the import stays one more line of the header exactly if the text stays as it is
below a line that ends alike. -/
theorem normalizeScript_concat_iff (h : Canonical style ls) (hd : d.Plain)
    (hone : Lines.wrapWide style (line style d) = [line style d]) :
    normalizeScript style (joinLines (ls ++ [line style d]) ++ body) =
        .ok (joinLines (ls ++ [line style d]) ++ body) ↔
      ∃ y es, Draft.Below style.quote (Row.mark style.quote style.semi) body y es ∧
        finishBelow style y es = body := by
  constructor
  · intro hstays
    obtain ⟨e, he, -⟩ := normalizeScript_eq_ok_iff.1 hstays
    obtain ⟨y, es, hbelow, -⟩ := Draft.exists_below_of_collapse (Import.isMark_quote style)
      (h.takes_line hd hone) (follows_line style d ls) he
    have hlaid := h.normalizeScript_concat hd hone (hbelow _ (.inl rfl))
    rw [hstays, Except.ok.injEq] at hlaid
    exact ⟨y, es, hbelow _ (.inl rfl), (List.append_cancel_left hlaid).symm⟩
  · rintro ⟨y, es, hbelow, hbody⟩
    rw [h.normalizeScript_concat hd hone hbelow, hbody]

end Header.Canonical

/-- Without a semicolon in the style, a statement that has ended has none. -/
theorem Lines.getLast?_of_ended (h : endStatement false l [] = l) : l.getLast? ≠ some ';' := by
  intro hlast
  have hdrop : endStatement false l [] = Text.trimEnd l.dropLast := by
    rw [endStatement, if_neg Bool.false_ne_true, if_pos (by simp [hlast, hazardAhead])]
  obtain ⟨s, -, hs⟩ := Text.exists_trimEnd l.dropLast
  have hlength := congrArg List.length hs
  have hpos : 0 < l.length := List.length_pos_of_mem (List.mem_of_getLast? hlast)
  rw [← hdrop, h, List.length_dropLast, List.length_append] at hlength
  omega

namespace Import

variable {path : String} {o : StyleOverrides} {s : Text}

/-- An import that is not in the header is inserted as one more line of it exactly if the file with
that line is a normal form. -/
theorem insert_eq_ok_iff (hpath : isScript path = true)
    (hlines : ∀ k ∈ ls, Header.StaticLine k) (hunbroken : ∀ k ∈ ls, '\n' ∉ k)
    (hl : ls.getLast? = some l) (hne : l ≠ []) (himports : Header.importAhead body = false)
    (hsingle : normalize path o.singleLine (Header.joinLines ls ++ body) =
      .ok (Header.joinLines ls ++ body))
    (hd : d.Plain) (hs : d.styled path o = .ok s) (hsne : s ≠ []) (hnew : ∀ k ∈ ls, k.trim ≠ s) :
    insert path o d (Header.joinLines ls ++ body) = .ok (Header.joinLines (ls ++ [s]) ++ body) ↔
      normalizeScript o.resolve (Header.joinLines (ls ++ [s]) ++ body) =
        .ok (Header.joinLines (ls ++ [s]) ++ body) := by
  have himport : ∀ k ∈ ls, k ≠ [] → Header.isImport k = true := by
    intro k hk hkne
    obtain ⟨i, hi, rfl⟩ := (hlines k hk).resolve_left hkne
    exact hi.word
  have hbelongs : ∀ k ∈ ls, Header.belongs k = true := by
    intro k hk
    rw [Header.belongs]
    by_cases hkne : k = []
    · rw [hkne]
      rfl
    · rw [himport k hk hkne, Bool.true_or]
  obtain ⟨h, hh, hhead, hafter⟩ := Header.exists_ofText? hunbroken hbelongs hl
    (himport l (List.mem_of_getLast? hl) hne) himports
  have hflat : flatten path o (Header.joinLines ls ++ body) = .ok (Header.joinLines ls ++ body) :=
    mapError_eq_ok_iff.2 hsingle
  have hholds : h.holds s = false := by
    obtain ⟨-, -, hblanks⟩ := Header.ofText?_eq_some hh
    rw [Header.holds, List.any_eq_false]
    intro k hk
    rw [beq_iff_eq]
    rcases List.mem_append.1 hk with hk | hk
    · rw [hhead] at hk
      exact hnew k hk
    · rw [hblanks k hk]
      exact hsne.symm
  rw [insert_eq hd.valid hflat hh hs hholds, settle_eq_ok_iff hpath, Header.splice, Header.before,
    hhead, hafter, Header.joinLines_append]
  simp only [Header.joinLines, List.flatMap_cons, List.flatMap_nil, List.append_nil,
    List.append_assoc]

/-- Inserting an import into a canonical file adds its statement as a line behind the last import
and changes nothing else exactly if the text below the header stays as it is below that statement
alone. It does where the style drops semicolons, where the last import ends with one, and where no
slash begins the text that could be read as a division or as the start of a regular expression. -/
theorem insert_canonical_iff (hpath : isScript path = true)
    (hlines : ∀ k ∈ ls, Header.StaticLine k) (hl : ls.getLast? = some l) (hne : l ≠ [])
    (himports : Header.importAhead body = false) (hhazard : Lines.startsHazardously body = false)
    (hnormal : normalize path o (Header.joinLines ls ++ body) = .ok (Header.joinLines ls ++ body))
    (hsingle : normalize path o.singleLine (Header.joinLines ls ++ body) =
      .ok (Header.joinLines ls ++ body))
    (hd : d.Plain) (hsize : d.statement.length < StyleOverrides.widest)
    (hs : d.styled path o = .ok s) (hfits : s.length ≤ o.resolve.printWidth)
    (hnew : ∀ k ∈ ls, k.trim ≠ s) :
    (insert path o d (Header.joinLines ls ++ body) = .ok (Header.joinLines (ls ++ [s]) ++ body) ↔
      normalize path o (Header.joinLines [s] ++ body) = .ok (Header.joinLines [s] ++ body)) ∧
    (o.resolve.semi = false ∨ l.getLast? = some ';' ∨ Text.opensSlash body = false →
      insert path o d (Header.joinLines ls ++ body) =
        .ok (Header.joinLines (ls ++ [s]) ++ body)) := by
  have hq := isMark_quote o.resolve
  rw [normalize_of_script hpath] at hnormal
  obtain ⟨hcanonical, m, y, es, hm, hmark, hbelow, hbody⟩ :=
    exists_canonical hlines hl hne (.inr hhazard) hnormal
  obtain rfl : s = Header.Canonical.line o.resolve d.tidied :=
    Except.ok.inj (hs.symm.trans (styled_eq hpath hd hsize))
  let line := Header.Canonical.line o.resolve d.tidied
  have hone : Lines.wrapWide o.resolve line = [line] := by
    rw [Lines.wrapWide, if_neg (Nat.not_lt.2 hfits)]
  have hinsert := insert_eq_ok_iff hpath hlines (fun k hk => (hcanonical.written k hk).unbroken) hl
    hne himports hsingle hd hs Header.Canonical.line_ne_nil hnew
  rw [hinsert, normalize_of_script hpath, hcanonical.normalizeScript_concat_iff hd.tidied hone,
    ← List.nil_append [line],
    (Header.Canonical.nil o.resolve).normalizeScript_concat_iff hd.tidied hone]
  refine ⟨Iff.rfl, fun hcase => ⟨y, es, hbelow _ ?_, hbody⟩⟩
  have hended := hcanonical.ended l (List.mem_of_getLast? hl)
  cases hsemi : o.resolve.semi with
  | false =>
    rw [hsemi] at hended
    refine .inl (hmark.resolve_right ?_)
    rintro rfl
    exact Lines.getLast?_of_ended hended hm
  | true =>
    rw [hsemi, hm] at hcase
    exact (hcase.resolve_left Bool.noConfusion).imp_left Option.some.inj

/-- An import on one line without braces, with single quotes and no blanks at its ends. -/
theorem staticLine_of_open (clause source stop : Text)
    (hclause : clause.all Draft.isOpen = true) (hsource : Bare source)
    (hstop : stop = [] ∨ stop = [';'])
    (hword : Header.isImport ({ clause, source, stop } : StaticImport).text = true) :
    Header.StaticLine ({ clause, source, stop } : StaticImport).text := by
  refine .inr ⟨_, ⟨⟨by simp, ?_, .inl rfl, hsource, ?_⟩, .plain (List.all_eq_true.1 hclause),
    hword⟩, rfl⟩
  · exact fun hmem => absurd (List.all_eq_true.1 hclause _ hmem) (by decide)
  · exact hstop.imp_right fun h => ⟨[], by simp, h⟩

/-- Below an import that ends with a semicolon, a regular expression is read as before. -/
theorem insert_canonical_above_regex :
    Import.insert "a.js" { semi := some true } (Import.sideEffect "./b".toList)
        "import a from 'a';\n/[/]/.test(a)\n".toList =
      .ok "import a from 'a';\nimport './b';\n/[/]/.test(a)\n".toList := by
  have hline : ∀ k ∈ ["import a from 'a';".toList], Header.StaticLine k := by
    intro k hk
    rw [List.mem_singleton.1 hk]
    exact staticLine_of_open " a from ".toList ['a'] [';'] (by decide) (by decide) (.inr rfl)
      (by decide)
  have hd : Plain (sideEffect "./b".toList) := plain_sideEffect (by decide)
  have hhazard : Lines.startsHazardously "/[/]/.test(a)\n".toList = false := by decide
  exact (insert_canonical_iff (o := { semi := some true }) (by decide) hline rfl (by decide)
    (by decide +kernel) hhazard (by decide +kernel) (by decide +kernel) hd (by decide)
    (s := "import './b';".toList) (by decide +kernel) (by decide) (by decide)).2 (.inr (.inl rfl))

/-- An import without a blank behind the word has no semicolon in any style. The slash below it
divides, and below the semicolon of the new import it begins a regular expression. -/
theorem insert_canonical_changes_body :
    Header.StaticLine "import'x'".toList ∧
    Header.importAhead "/'/.test(a[ 0 ]) || /'/.test(b)\n".toList = false ∧
    Lines.startsHazardously "/'/.test(a[ 0 ]) || /'/.test(b)\n".toList = false ∧
    normalize "a.js" { semi := some true } "import'x'\n/'/.test(a[ 0 ]) || /'/.test(b)\n".toList =
      .ok "import'x'\n/'/.test(a[ 0 ]) || /'/.test(b)\n".toList ∧
    normalize "a.js" (StyleOverrides.singleLine { semi := some true })
        "import'x'\n/'/.test(a[ 0 ]) || /'/.test(b)\n".toList =
      .ok "import'x'\n/'/.test(a[ 0 ]) || /'/.test(b)\n".toList ∧
    (Import.sideEffect "./y".toList).Plain ∧
    Import.styled "a.js" { semi := some true } (Import.sideEffect "./y".toList) =
      .ok "import './y';".toList ∧
    Import.insert "a.js" { semi := some true } (Import.sideEffect "./y".toList)
        "import'x'\n/'/.test(a[ 0 ]) || /'/.test(b)\n".toList ≠
      .ok "import'x'\nimport './y';\n/'/.test(a[ 0 ]) || /'/.test(b)\n".toList := by
  have hline : Header.StaticLine "import'x'".toList :=
    staticLine_of_open [] ['x'] [] rfl (by decide) (.inl rfl) (by decide)
  exact ⟨hline, by decide +kernel, by decide, by decide +kernel, by decide +kernel,
    plain_sideEffect (by decide), by decide +kernel, by decide +kernel⟩

end Import

end Canonical

end ProjectSetup
