import ProjectSetup.Proofs.Import.Header
import ProjectSetup.Proofs.Layout.Loss

/-!
# Semicolons and hazards

Where a style drops semicolons, one that stands at the end of a statement stays if the next line
that is not blank would go on with the statement. Comments are not skipped: behind a comment, a
parenthesis, a bracket or a backtick goes unseen, and the statements are glued exactly there.
-/
namespace ProjectSetup

namespace Text

/-- The code that a text begins with: what is left of it behind blanks and comments. -/
def code (t : Text) : Text :=
  match t with
  | [] => []
  | c :: r =>
    if isBlank c then code r
    else if c = '/' && r.head? = some '/' then code (r.dropWhile (· ≠ '\n'))
    else if c = '/' && r.head? = some '*' then
      match _h : Literal.comment? r.tail with
      | none => c :: r
      | some (_, rest) => code rest
    else c :: r
termination_by t.length
decreasing_by
  · simp
  · have := (List.dropWhile_suffix (l := r) (fun x => decide (x ≠ '\n'))).length_le
    simp only [List.length_cons]
    omega
  · have := congrArg List.length (Literal.comment?_append _h)
    simp only [List.length_tail, List.length_append, List.length_cons] at this ⊢
    omega

/-- Whether a text begins with a comment, behind blanks. -/
def opensComment (t : Text) : Bool :=
  t.trimStart.head? == some '/' && t.trimStart.tail.head?.any ['/', '*'].contains

/-- Where no comment comes first, code begins behind the blanks. -/
theorem code_of_not_opensComment {t : Text} (h : opensComment t = false) :
    code t = t.trimStart := by
  induction t with
  | nil => rw [code]; rfl
  | cons c r ih =>
    cases hc : isBlank c with
    | true =>
      rw [trimStart_cons_blank hc]
      rw [opensComment, trimStart_cons_blank hc] at h
      rw [code, if_pos hc, ih h]
    | false =>
      rw [opensComment, trimStart_cons hc] at h
      have hline : (decide (c = '/') && decide (r.head? = some '/')) = false := by
        rw [Bool.eq_false_iff]
        intro hmark
        simp only [Bool.and_eq_true, decide_eq_true_eq] at hmark
        simp [hmark.1, hmark.2] at h
      have hblock : (decide (c = '/') && decide (r.head? = some '*')) = false := by
        rw [Bool.eq_false_iff]
        intro hmark
        simp only [Bool.and_eq_true, decide_eq_true_eq] at hmark
        simp [hmark.1, hmark.2] at h
      rw [trimStart_cons hc, code, if_neg (by simp [hc]), if_neg (by simp [hline]),
        if_neg (by simp [hblock])]

end Text

open Text (code essence opensComment)

namespace Lines

theorem startsHazardously_append (s t : Text) : startsHazardously (s ++ t) =
    if s.blank then startsHazardously t else startsHazardously s := by
  rw [startsHazardously, Text.trimStart_append]
  split
  · rfl
  · next hs =>
    have hne : s.trimStart ≠ [] := fun h => hs (Text.trimStart_eq_nil.1 h)
    obtain ⟨c, r, hc⟩ := List.exists_cons_of_ne_nil hne
    rw [startsHazardously, hc]
    rfl

theorem startsHazardously_of_blank {t : Text} (h : t.blank = true) :
    startsHazardously t = false := by
  rw [startsHazardously, Text.trimStart_eq_nil.2 h]
  rfl

theorem startsHazardously_trimStart (t : Text) :
    startsHazardously t.trimStart = startsHazardously t := by
  rw [startsHazardously, Text.trimStart_trimStart, startsHazardously]

theorem startsHazardously_trimEnd (t : Text) :
    startsHazardously t.trimEnd = startsHazardously t := by
  obtain ⟨s, hs, ht⟩ := Text.exists_trimEnd t
  conv_rhs => rw [ht, startsHazardously_append]
  split
  · next hblank => rw [startsHazardously_of_blank hblank, startsHazardously_of_blank hs]
  · rfl

theorem hazardAhead_cons (l : Text) (ls : List Text) :
    hazardAhead (l :: ls) = if l.blank then hazardAhead ls else startsHazardously l := by
  rw [hazardAhead, hazardAhead]
  cases hl : l.blank with
  | true => rw [List.find?_cons_of_neg (by simp [hl]), if_pos rfl]
  | false =>
    rw [List.find?_cons_of_pos (by simp [hl]), if_neg Bool.false_ne_true]
    rfl

theorem hazardAhead_append (ks ls : List Text) : hazardAhead (ks ++ ls) =
    if ks.all Text.blank then hazardAhead ls else hazardAhead ks := by
  induction ks with
  | nil => rfl
  | cons k ks ih =>
    rw [List.cons_append, hazardAhead_cons, ih, hazardAhead_cons, List.all_cons]
    cases k.blank with
    | true => rfl
    | false => rfl

theorem hazardAhead_of_blank {ls : List Text} (h : ls.all Text.blank = true) :
    hazardAhead ls = false := by
  have hnil := hazardAhead_append ls []
  rw [List.append_nil, h, if_pos rfl] at hnil
  exact hnil

/-- What is seen of lines is seen of the text that they make. -/
theorem startsHazardously_joinLines (ls : List Text) :
    startsHazardously (Header.joinLines ls) = hazardAhead ls := by
  induction ls with
  | nil => rfl
  | cons l ls ih =>
    have hbreak : Text.blank ['\n'] = true := by decide
    rw [Header.joinLines_cons, List.append_cons, startsHazardously_append, Text.blank_append,
      hbreak, Bool.and_true, ih, hazardAhead_cons]
    split
    · rfl
    · next hl => rw [startsHazardously_append, if_neg hl]

theorem startsHazardously_join (ls : List Text) :
    startsHazardously (Text.join ['\n'] ls) = hazardAhead ls := by
  induction ls with
  | nil => rfl
  | cons l ls ih =>
    by_cases hne : ls = []
    · rw [hne, Text.join_singleton, hazardAhead_cons]
      split
      · next hl => exact startsHazardously_of_blank hl
      · rfl
    · have hbreak : Text.blank ['\n'] = true := by decide
      rw [Text.join_cons _ _ _ hne, startsHazardously_append, Text.blank_append, hbreak,
        Bool.and_true, ih, hazardAhead_cons]
      split
      · rfl
      · next hl => rw [startsHazardously_append, if_neg hl]

/-- A wrapped line begins as the line does. -/
theorem exists_first_wrapWide (style : Style) (line : Text) :
    ∃ first back, wrapWide style line = first :: back ∧
      startsHazardously first = startsHazardously line ∧
      (first.blank = false ∧ line.blank = false ∨ line.blank = true ∧ first = line ∧ back = []) := by
  rcases wrapWide_cases style line with hone | ⟨i, hi, hwrap⟩
  · refine ⟨line, [], hone, rfl, ?_⟩
    cases hb : line.blank with
    | false => exact .inl ⟨rfl, rfl⟩
    | true => exact .inr ⟨rfl, rfl, rfl⟩
  · obtain ⟨list, hline, -⟩ := ofLine?_eq_some hi
    refine ⟨"import ".toList ++ i.head ++ ['{'], _, hwrap, ?_, .inl ⟨rfl, ?_⟩⟩
    · rw [hline]
      rfl
    · rw [hline]
      rfl

/-- Only a semicolon of its own leaves a blank line when it goes, and it is no hazard. -/
theorem startsHazardously_endStatement (semi : Bool) (line : Text) (following : List Text) :
    startsHazardously (endStatement semi line following) = startsHazardously line ∧
      ((endStatement semi line following).blank = line.blank ∨
        (endStatement semi line following).blank = true ∧ startsHazardously line = false ∧
          hazardAhead following = false) := by
  rcases endStatement_cases semi line following with
    hend | ⟨-, hmodule, hend⟩ | ⟨-, hhazard, front, rfl, hend⟩
  · rw [hend]
    exact ⟨rfl, .inl rfl⟩
  · have hblank : line.blank = false := by
      cases hb : line.blank with
      | false => rfl
      | true =>
        have hnil : line.trimStart = [] := Text.trimStart_eq_nil.2 hb
        simp [isModuleDeclaration, hnil] at hmodule
    have hstop : Text.blank [';'] = false := by decide
    rw [hend, startsHazardously_append, hblank, Text.blank_append, hstop]
    exact ⟨rfl, .inl (Bool.and_false _)⟩
  · have hstart : startsHazardously (front ++ [';']) = startsHazardously front := by
      have hstop : startsHazardously [';'] = false := by decide
      rw [startsHazardously_append]
      split
      · next hblank => rw [hstop, startsHazardously_of_blank hblank]
      · rfl
    rw [hend, startsHazardously_trimEnd, Text.blank_trimEnd]
    refine ⟨hstart.symm, ?_⟩
    cases hblank : front.blank with
    | true => exact .inr ⟨rfl, hstart.trans (startsHazardously_of_blank hblank), hhazard⟩
    | false =>
      rw [Text.blank_append, hblank]
      exact .inl rfl

theorem hazardAhead_take {ls : List Text} (h : hazardAhead ls = false) (n : Nat) :
    hazardAhead (ls.take n) = false := by
  rw [← List.take_append_drop n ls, hazardAhead_append] at h
  split at h
  · next hblank => exact hazardAhead_of_blank hblank
  · exact h

/-- Finishing neither hides nor makes a hazard at the beginning of lines. -/
theorem hazardAhead_finishLines (style : Style) (ts : List Text) (es : List LineEnd) :
    hazardAhead ((finishLines style ts es).map Line.text) = hazardAhead (ts.take es.length) := by
  induction ts generalizing es with
  | nil => simp [finishLines]
  | cons t ts ih =>
    cases es with
    | nil => simp [finishLines]
    | cons e es =>
      rw [finishLines, List.map_append, hazardAhead_append, ih, List.length_cons,
        List.take_succ_cons, hazardAhead_cons]
      cases e with
      | literal =>
        change (if List.all [t] Text.blank then _ else hazardAhead [t]) = _
        rw [List.all_cons, List.all_nil, Bool.and_true, hazardAhead_cons]
        cases t.blank <;> rfl
      | nested =>
        change (if List.all [t.trimEnd] Text.blank then _ else hazardAhead [t.trimEnd]) = _
        rw [List.all_cons, List.all_nil, Bool.and_true, hazardAhead_cons, Text.blank_trimEnd,
          startsHazardously_trimEnd]
        cases t.blank <;> rfl
      | statement =>
        obtain ⟨hstart, hend⟩ := startsHazardously_endStatement style.semi t.trimEnd ts
        obtain ⟨first, back, hwrap, hfirst, hblank⟩ :=
          exists_first_wrapWide style (endStatement style.semi t.trimEnd ts)
        have htexts : (finishLine style ⟨t, .statement⟩ ts).map Line.text = first :: back := by
          rw [finishLine, hwrap, List.map_map]
          exact List.map_id _
        rw [hstart, startsHazardously_trimEnd] at hfirst
        rw [htexts, List.all_cons, hazardAhead_cons, hfirst]
        rw [Text.blank_trimEnd] at hend
        rcases hblank with ⟨hfull, hline⟩ | ⟨hline, rfl, rfl⟩
        · rw [hline] at hend
          have ht : t.blank = false := (hend.resolve_right fun h => Bool.false_ne_true h.1).symm
          rw [hfull, ht]
          rfl
        · rw [hline, List.all_nil, Bool.and_true, if_pos rfl]
          rcases hend with ht | ⟨-, ht, hnone⟩
          · rw [← ht, hline, if_pos rfl]
          · rw [startsHazardously_trimEnd] at ht
            rw [ht, hazardAhead_take hnone, ite_self]

theorem hazardAhead_squeeze (afterBlank : Bool) (ls : List Line) :
    hazardAhead (squeeze afterBlank ls) = hazardAhead (ls.map Line.text) := by
  induction ls generalizing afterBlank with
  | nil => rfl
  | cons l ls ih =>
    rw [squeeze, List.map_cons, hazardAhead_cons]
    split
    · next hblank =>
      rw [if_pos (Bool.and_eq_true_iff.1 hblank).1]
      split
      · exact ih true
      · exact ih true
    · rw [hazardAhead_cons, ih false]

theorem hazardAhead_dropEmptyEnd (ls : List Text) :
    hazardAhead (dropEmptyEnd ls) = hazardAhead ls := by
  obtain ⟨es, hes, hls⟩ := exists_empty_end ls
  have hblank : es.all Text.blank = true := List.all_eq_true.2 fun e he => by rw [hes e he]; rfl
  conv_rhs => rw [hls, hazardAhead_append, hazardAhead_of_blank hblank]
  split
  · next h => exact hazardAhead_of_blank h
  · rfl

theorem exists_squeeze_append (afterBlank : Bool) (ks ls : List Line) :
    ∃ b, squeeze afterBlank (ks ++ ls) = squeeze afterBlank ks ++ squeeze b ls := by
  induction ks generalizing afterBlank with
  | nil => exact ⟨afterBlank, rfl⟩
  | cons k ks ih =>
    obtain ⟨b, hb⟩ := ih true
    obtain ⟨b', hb'⟩ := ih false
    rw [List.cons_append, squeeze, squeeze, hb, hb']
    split
    · refine ⟨b, ?_⟩
      split
      · rfl
      · rfl
    · exact ⟨b', rfl⟩

theorem exists_dropEmptyEnd_append (ks ls : List Text) :
    ∃ ks', dropEmptyEnd (ks ++ ls) = ks' ++ dropEmptyEnd ls ∧
      (ks' = ks ∨ ks' = dropEmptyEnd ks) := by
  by_cases hls : dropEmptyEnd ls = []
  · obtain ⟨es, hes, hsplit⟩ := exists_empty_end ls
    rw [hls, List.nil_append] at hsplit
    refine ⟨dropEmptyEnd ks, ?_, .inr rfl⟩
    rw [hls, List.append_nil, hsplit, dropEmptyEnd_append_empty ks hes]
  · refine ⟨ks, ?_, .inl rfl⟩
    have hkeep : (ls.reverse.dropWhile List.isEmpty).isEmpty = false := by
      simpa [dropEmptyEnd] using hls
    rw [dropEmptyEnd, List.reverse_append, List.dropWhile_append, hkeep]
    simp [dropEmptyEnd]

variable {p : Char → Bool}

/-- The text of lines on either side of a cut: each side holds what is lasting in its lines, and
begins as they do. -/
theorem exists_assemble_append (hp : Lasting p) (ks ls : List Line) :
    ∃ s t, assemble (ks ++ ls) = s ++ t ∧ s.filter p = ks.flatMap (fun l => l.text.filter p) ∧
      startsHazardously t = hazardAhead (ls.map Line.text) := by
  obtain ⟨b, hsqueeze⟩ := exists_squeeze_append true ks ls
  obtain ⟨ks', hdrop, hks'⟩ := exists_dropEmptyEnd_append (squeeze true ks) (squeeze b ls)
  have hbreak : (['\n'] : Text).filter p = [] := by simp [hp.blank '\n' (by decide)]
  have hlines (us : List Text) :
      (Header.joinLines us).filter p = us.flatMap (List.filter p) := by
    induction us with
    | nil => rfl
    | cons u us ih =>
      rw [Header.joinLines_cons, List.append_cons, List.filter_append, List.filter_append, hbreak,
        List.append_nil, ih]
      rfl
  refine ⟨Header.joinLines ks', Header.joinLines (dropEmptyEnd (squeeze b ls)), ?_, ?_, ?_⟩
  · rw [assemble_eq_joinLines, hsqueeze, hdrop, Header.joinLines_append]
  · rw [hlines, ← flatMap_squeeze hp true ks]
    rcases hks' with rfl | rfl
    · rfl
    · exact flatMap_dropEmptyEnd List.filter_nil _
  · rw [startsHazardously_joinLines, hazardAhead_dropEmptyEnd, hazardAhead_squeeze]

theorem exists_finishLines_append (hp : Lasting p) (hs : p ';' = false) (style : Style)
    (ks ls : List Text) {es : List LineEnd} (hlength : es.length = ks.length) (es' : List LineEnd) :
    ∃ front, finishLines style (ks ++ ls) (es ++ es') = front ++ finishLines style ls es' ∧
      front.flatMap (fun l => l.text.filter p) = ks.flatMap (List.filter p) := by
  induction ks generalizing es with
  | nil =>
    rw [List.length_nil, List.length_eq_zero_iff] at hlength
    exact ⟨[], by rw [hlength]; rfl, rfl⟩
  | cons k ks ih =>
    cases es with
    | nil => cases hlength
    | cons e es =>
      obtain ⟨front, hfront, hkept⟩ := ih (Nat.succ.inj hlength)
      refine ⟨finishLine style ⟨k, e⟩ (ks ++ ls) ++ front, ?_, ?_⟩
      · rw [List.cons_append, List.cons_append, finishLines, hfront, List.append_assoc]
      · rw [List.flatMap_append, hkept, flatMap_finishLine hp, List.flatMap_cons]
        intro _
        exact filter_endStatement hp hs style.semi k.trimEnd _

/-- Whether the end of a statement changes at the end of the line, ahead of the lines behind it:
under a style that drops semicolons, whether a semicolon goes. -/
def EndChanges (style : Style) (line : Text) (following : List Text) : Prop :=
  endStatement style.semi line.trimEnd following ≠ line.trimEnd

instance (style : Style) (line : Text) (following : List Text) :
    Decidable (EndChanges style line following) :=
  inferInstanceAs (Decidable (_ ≠ _))

theorem endChanges_iff {style : Style} (hsemi : style.semi = false) {line : Text}
    {following : List Text} : EndChanges style line following ↔
      line.trimEnd.getLast? = some ';' ∧ hazardAhead following = false := by
  rw [EndChanges, endStatement, hsemi, if_neg Bool.false_ne_true]
  split
  · next h =>
    refine iff_of_true (fun he => ?_) (by simpa using h)
    have hlast : line.trimEnd.getLast? = some ';' := by simpa using (Bool.and_eq_true_iff.1 h).1
    have hlength := congrArg List.length (List.dropLast_append_getLast? ';' hlast)
    have hle : (Text.trimEnd line.trimEnd.dropLast).length ≤ line.trimEnd.dropLast.length := by
      obtain ⟨s, -, hs⟩ := Text.exists_trimEnd line.trimEnd.dropLast
      have := congrArg List.length hs
      rw [List.length_append] at this
      omega
    rw [he] at hle
    rw [List.length_append, List.length_singleton] at hlength
    omega
  · next h => exact iff_of_false (fun hne => hne rfl) (by simpa using h)

theorem startsHazardously_of_opensComment {t : Text} (h : opensComment t = true) :
    startsHazardously t = false := by
  have hhead : t.trimStart.head? = some '/' := by simpa using (Bool.and_eq_true_iff.1 h).1
  rw [startsHazardously, hhead]
  rfl

/-- Code that begins with a hazard where the text does not stands behind a comment. -/
theorem opensComment_of_hazard {t : Text} (h : startsHazardously t = false)
    (hcode : startsHazardously (code t) = true) : opensComment t = true := by
  by_contra hno
  rw [Text.code_of_not_opensComment (Bool.eq_false_iff.2 hno), startsHazardously_trimStart, h]
    at hcode
  cases hcode

end Lines

open Lines (EndChanges startsHazardously)

/-- Where a style drops semicolons, the statements that dropping one glues are those with a comment
behind them and a hazard behind the comment: the semicolon goes ahead of every comment. In the
normal form, too, what follows a dropped semicolon begins with a hazard behind a comment only. -/
theorem dropped_semicolon_glues_iff {path : String} {o : StyleOverrides} {source y : Text}
    (hpath : isScript path = true) (hsemi : o.resolve.semi = false)
    (h : normalize path o source = .ok y) :
    ∃ d, Draft.collapse o.resolve.quote source = .ok d ∧
      ∀ done line following, Text.splitOn '\n' d.text = done ++ line :: following →
        d.lineEnds[done.length]? = some .statement →
        (EndChanges o.resolve line following ∧
            startsHazardously (code (Text.join ['\n'] following)) = true ↔
          line.trimEnd.getLast? = some ';' ∧ opensComment (Text.join ['\n'] following) = true ∧
            startsHazardously (code (Text.join ['\n'] following)) = true) ∧
        (EndChanges o.resolve line following → ∃ s t, y = s ++ t ∧
          essence s = (done ++ [line]).flatMap essence ∧
          (startsHazardously (code t) = true → opensComment t = true)) := by
  rw [normalize_of_script hpath] at h
  obtain ⟨d, hd, rfl⟩ := normalizeScript_eq_ok_iff.1 h
  refine ⟨d, hd, fun done line following hlines hend => ⟨?_, fun hdrop => ?_⟩⟩
  · have hahead := Lines.startsHazardously_join following
    rw [Lines.endChanges_iff hsemi, ← hahead, and_assoc]
    refine and_congr_right fun _ => and_congr_left fun hcode => ?_
    exact ⟨fun hno => Lines.opensComment_of_hazard hno hcode,
      Lines.startsHazardously_of_opensComment⟩
  · obtain ⟨hlt, -⟩ := List.getElem?_eq_some_iff.1 hend
    let ends := d.lineEnds.take (done.length + 1)
    let back := Lines.finishLines o.resolve following (d.lineEnds.drop (done.length + 1))
    have hcut : done ++ line :: following = (done ++ [line]) ++ following := by simp
    have hlength : ends.length = (done ++ [line]).length := by
      simp only [ends, List.length_take, List.length_append, List.length_singleton]
      omega
    obtain ⟨front, hfront, hkept⟩ := Lines.exists_finishLines_append lasting_essence (by decide)
      o.resolve (done ++ [line]) following hlength (d.lineEnds.drop (done.length + 1))
    obtain ⟨s, t, hy, hs, ht⟩ := Lines.exists_assemble_append lasting_essence front back
    refine ⟨s, t, ?_, hs.trans hkept, ?_⟩
    · rw [Lines.finish, hlines, hcut, ← hy, ← hfront, List.take_append_drop]
    · refine Lines.opensComment_of_hazard ?_
      rw [ht, Lines.hazardAhead_finishLines]
      exact Lines.hazardAhead_take ((Lines.endChanges_iff hsemi).1 hdrop).2 _

/-- A comment that hides nothing: the semicolon ahead of it goes, and no statement is glued. -/
theorem dropped_semicolon_above_comment :
    normalize "a.js" {} "a;\n// c\nb\n".toList = .ok "a\n// c\nb\n".toList ∧
      EndChanges ({} : StyleOverrides).resolve "a;".toList ["// c".toList, ['b'], []] ∧
        ∃ s t, "a\n// c\nb\n".toList = s ++ t ∧ essence s = ['a'] ∧
          (startsHazardously (code t) = true → opensComment t = true) := by
  have hnormal : normalize "a.js" {} "a;\n// c\nb\n".toList = .ok "a\n// c\nb\n".toList := by
    decide +kernel
  have hdraft : (Draft.collapse '\'' "a;\n// c\nb\n".toList).map (fun d => (d.text, d.lineEnds)) =
      .ok ("a;\n// c\nb\n".toList, [.statement, .statement, .statement, .statement]) := by
    decide +kernel
  have hdrop : EndChanges ({} : StyleOverrides).resolve "a;".toList ["// c".toList, ['b'], []] := by
    decide +kernel
  obtain ⟨d, hd, hglues⟩ := dropped_semicolon_glues_iff (by decide) (by decide) hnormal
  rw [show ({} : StyleOverrides).resolve.quote = '\'' from rfl] at hd
  rw [hd] at hdraft
  obtain ⟨htext, hends⟩ := Prod.mk.inj (Except.ok.inj hdraft)
  refine ⟨hnormal, hdrop, (hglues [] "a;".toList _ ?_ ?_).2 hdrop⟩
  · rw [htext]
    decide +kernel
  · rw [hends]
    rfl

/-- The parenthesis behind this comment goes unseen: the call is glued to the statement above. -/
theorem dropped_semicolon_glues_call :
    normalize "a.js" {} "a;\n// c\n(b)\n".toList = .ok ("a".toList ++ "\n// c\n(b)\n".toList) ∧
      startsHazardously (code "\n// c\n(b)\n".toList) = true ∧
      EndChanges ({} : StyleOverrides).resolve "a;".toList ["// c".toList, "(b)".toList, []] := by
  refine ⟨by decide +kernel, by decide +kernel, by decide +kernel⟩

end ProjectSetup
