import ProjectSetup.Proofs.Layout.Hazards
import ProjectSetup.Proofs.Layout.ListDrafts

/-!
# Scripts that are laid out once and for all

A script of lists and statements, without literals, comments, braces and tags, is laid out once and
for all if no list in it ends in two commas and no statement in two semicolons: its normal form has
nothing to take back, and is read and finished as it is.
-/
namespace ProjectSetup

open Text (depth endsOnce isLaid isListing trail)

namespace Text

variable {n : Nat} {a b : Option Char} {s t l : Text} {ls : List Text}

/-- Between statements it does not matter what stands ahead of a text. -/
theorem isLaid_congr (a b : Option Char) (t : Text) : isLaid 0 a t = isLaid 0 b t := by
  cases t with
  | nil => rfl
  | cons c t => rfl

/-- Each line of a text of lists is one by itself: no list goes on over a line break. -/
theorem lines_of_isLaid (h : isLaid 0 none t = true) (hdepth : depth 0 t = 0) :
    ∀ l ∈ splitOn '\n' t, isLaid 0 none l = true ∧ depth 0 l = 0 := by
  induction hlength : t.length using Nat.strong_induction_on generalizing t with
  | _ n ih =>
    intro l hl
    by_cases hmem : '\n' ∈ t
    · obtain ⟨line, rest, rfl, hline⟩ := List.eq_append_cons_of_mem hmem
      obtain ⟨hfront, hback⟩ := isLaid_append.1 h
      obtain ⟨hbreak, hrest⟩ := isLaid_cons.1 hback
      have hnested : depth 0 line = 0 := by
        by_contra hn
        obtain ⟨b, -, hb⟩ := exists_of_joint hn hbreak
        cases hb
      rw [hnested] at hrest
      have hrest : isLaid 0 none rest = true := (isLaid_congr none _ rest).trans hrest
      rw [depth_append, hnested] at hdepth
      rw [splitOn_append_cons, splitOn_of_not_mem hline] at hl
      rcases List.mem_append.1 hl with hl | hl
      · rw [List.mem_singleton.1 hl]
        exact ⟨hfront, hnested⟩
      · rw [List.length_append, List.length_cons] at hlength
        exact ih rest.length (by omega) hrest hdepth rfl l hl
    · rw [splitOn_of_not_mem hmem, List.mem_singleton] at hl
      rw [hl]
      exact ⟨h, hdepth⟩

theorem isLaid_joinLines (h : ∀ l ∈ ls, isLaid 0 none l = true ∧ depth 0 l = 0) :
    isLaid 0 none (Header.joinLines ls) = true := by
  induction ls with
  | nil => rfl
  | cons l ls ih =>
    obtain ⟨⟨hlaid, hdepth⟩, hls⟩ := List.forall_mem_cons.1 h
    rw [Header.joinLines_cons]
    refine isLaid_append.2 ⟨hlaid, isLaid_cons.2 ⟨?_, ?_⟩⟩
    · rw [hdepth]
      rfl
    · rw [hdepth]
      exact (isLaid_congr _ none _).trans (ih hls)

/-- The text without what is taken back at its end. -/
theorem isLaid_of_append (h : isLaid 0 none (s ++ t) = true ∧ depth 0 (s ++ t) = 0)
    (ht : ∀ c ∈ t, c ∉ ['(', '[', ')', ']']) : isLaid 0 none s = true ∧ depth 0 s = 0 := by
  have hkept (n : Nat) : depth n t = n := by
    clear h
    induction t with
    | nil => rfl
    | cons c t ih =>
      obtain ⟨hc, ht⟩ := List.forall_mem_cons.1 ht
      change depth (deeper n c) t = n
      rw [deeper_of_not_mem hc, ih ht]
  have hdepth := h.2
  rw [depth_append, hkept] at hdepth
  exact ⟨(isLaid_append.1 h.1).1, hdepth⟩

theorem trail_append_of_blank (hs : s.blank = true) (hline : '\n' ∉ s) (m : Char) (t : Text) :
    trail m (s ++ t) = trail m t := by
  induction s with
  | nil => rfl
  | cons c s ih =>
    rw [List.mem_cons, not_or] at hline
    rw [blank, List.all_cons, Bool.and_eq_true] at hs
    rw [List.cons_append, trail_cons_blank (Ne.symm hline.1) hs.1, ih hs.2 hline.2]

/-- Of two semicolons at the end of a line one stays. -/
theorem getLast?_ne_of_trail {front : Text} (hline : '\n' ∉ t) (hlast : t.trimEnd = front ++ [';'])
    (honce : trail ';' t.reverse ≤ 1) : (trimEnd front).getLast? ≠ some ';' := by
  intro hagain
  obtain ⟨r, hr⟩ := List.getLast?_eq_some_iff.1 hagain
  obtain ⟨s, hs, ht⟩ := exists_trimEnd t
  obtain ⟨u, hu, hfront⟩ := exists_trimEnd front
  have hblank {v : Text} (hv : v.blank = true) : blank v.reverse = true := by
    rwa [blank, List.all_reverse]
  rw [hlast, hfront, hr] at ht
  have hback : t.reverse = s.reverse ++ ';' :: (u.reverse ++ ';' :: r.reverse) := by
    rw [ht]
    simp
  have hlines : '\n' ∉ s.reverse ∧ '\n' ∉ u.reverse := by
    rw [ht] at hline
    simp only [List.mem_append, not_or] at hline
    simp [hline]
  rw [hback, trail_append_of_blank (hblank hs) hlines.1, trail_cons_self (by decide) (by decide),
    trail_append_of_blank (hblank hu) hlines.2, trail_cons_self (by decide) (by decide)] at honce
  omega

end Text

namespace Lines

/-- The lines of a script all of whose lines end statements, without the blanks at their ends. -/
def ended (style : Style) : List Text → List Text
  | [] => []
  | t :: ts => endStatement style.semi t.trimEnd ts :: ended style ts

variable {style : Style} {line : Text} {ts us : List Text}

theorem ofLine?_of_not_brace (h : '{' ∉ line) : NamedImport.ofLine? line = none := by
  by_contra hsome
  obtain ⟨i, hi⟩ := Option.ne_none_iff_exists'.1 hsome
  obtain ⟨list, rfl, -⟩ := ofLine?_eq_some hi
  exact h (by simp)

theorem mem_of_mem_endStatement {semi : Bool} {c : Char}
    (h : c ∈ endStatement semi line ts) : c ∈ line ∨ c = ';' := by
  rcases endStatement_cases semi line ts with hend | ⟨-, -, hend⟩ | ⟨-, -, front, rfl, hend⟩
  · exact .inl (hend ▸ h)
  · rw [hend] at h
    simpa using h
  · rw [hend] at h
    exact .inl (List.mem_append_left _ (Text.mem_of_mem_trimEnd h))

theorem squeeze_statements (afterBlank : Bool) (ts : List Text) :
    squeeze afterBlank (ts.map (⟨·, .statement⟩)) = squeeze afterBlank (plain ts) := by
  induction ts generalizing afterBlank with
  | nil => rfl
  | cons t ts ih =>
    rw [List.map_cons, plain_cons, squeeze, squeeze, ih, ih, isBlank_plain]
    simp [Line.isBlank]

theorem finishLines_of_lists (h : ∀ t ∈ ts, '{' ∉ t) :
    finishLines style ts (List.replicate ts.length .statement) =
      (ended style ts).map (⟨·, .statement⟩) := by
  induction ts with
  | nil => rfl
  | cons t ts ih =>
    obtain ⟨ht, hts⟩ := List.forall_mem_cons.1 h
    have hbrace : '{' ∉ endStatement style.semi t.trimEnd ts := by
      intro hmem
      rcases mem_of_mem_endStatement hmem with hmem | hmem
      · exact ht (Text.mem_of_mem_trimEnd hmem)
      · exact absurd hmem (by decide)
    rw [List.length_cons, List.replicate_succ, finishLines, ih hts, finishLine,
      wrapWide_of_none (ofLine?_of_not_brace hbrace)]
    rfl

theorem finish_of_lists {text : Text} (h : ∀ c ∈ text, isListing c = true) :
    finish style text (List.replicate (text.count '\n' + 1) .statement) =
      assemble (plain (ended style (Text.splitOn '\n' text))) := by
  have hbrace : ∀ t ∈ Text.splitOn '\n' text, '{' ∉ t := fun t ht hmem =>
    absurd (h '{' ((Text.mem_of_mem_splitOn ht) hmem)) (by decide)
  rw [finish, ← Text.length_splitOn, finishLines_of_lists hbrace, assemble, squeeze_statements]
  rfl

theorem hazardAhead_ended (h : ∀ t ∈ ts, '{' ∉ t) :
    hazardAhead (ended style ts) = hazardAhead ts := by
  have hfinished := hazardAhead_finishLines style ts (List.replicate ts.length .statement)
  rw [finishLines_of_lists h, List.map_map, List.length_replicate, List.take_length] at hfinished
  rw [← hfinished]
  exact congrArg hazardAhead (List.map_id _).symm

/-- A line without quotes is no import or export that lacks its semicolon. -/
theorem endStatement_of_listing (h : ∀ c ∈ line, isListing c = true) (ts : List Text) :
    endStatement true line ts = line := by
  have hquote : line.getLast?.any ['\'', '"'].contains = false := by
    rw [Option.any_eq_false]
    intro c hc
    have hlisting := h c (List.mem_of_getLast? hc)
    have hmarks : ∀ m ∈ ['\'', '"'], isListing m = false := by decide
    rw [Bool.eq_false_iff]
    intro hmem
    rw [hmarks c (by simpa using hmem)] at hlisting
    cases hlisting
  rw [endStatement, if_pos rfl, hquote, Bool.and_false, if_neg Bool.false_ne_true]

theorem endStatement_nil (semi : Bool) (ts : List Text) : endStatement semi [] ts = [] := by
  cases semi with
  | true => rfl
  | false => rfl

/-- Lines that have ended, with one semicolon at most, are not ended again. -/
theorem ended_ended (hlisting : ∀ t ∈ ts, ∀ c ∈ t, isListing c = true)
    (hunbroken : ∀ t ∈ ts, '\n' ∉ t) (honce : ∀ t ∈ ts, trail ';' t.reverse ≤ 1) :
    ended style (ended style ts) = ended style ts := by
  induction ts with
  | nil => rfl
  | cons t ts ih =>
    obtain ⟨ht, hts⟩ := List.forall_mem_cons.1 hlisting
    obtain ⟨hline, hlines⟩ := List.forall_mem_cons.1 hunbroken
    obtain ⟨htrail, htrails⟩ := List.forall_mem_cons.1 honce
    have hbrace : ∀ t ∈ ts, '{' ∉ t := fun t ht hmem => absurd (hts t ht _ hmem) (by decide)
    rw [ended, ended, ih hts hlines htrails,
      endStatement_congr (.inr (hazardAhead_ended hbrace))]
    refine congrArg (· :: ended style ts) ?_
    cases hsemi : style.semi with
    | true =>
      have htrim : ∀ c ∈ t.trimEnd, isListing c = true :=
        fun c hc => ht c (Text.mem_of_mem_trimEnd hc)
      rw [endStatement_of_listing htrim, Text.trimEnd_trimEnd, endStatement_of_listing htrim]
    | false =>
      rcases endStatement_cases false t.trimEnd ts with hend | ⟨h, -⟩ | ⟨-, -, front, hlast, hend⟩
      · rw [hend, Text.trimEnd_trimEnd, hend]
      · cases h
      · rw [hend, Text.trimEnd_trimEnd, endStatement, if_neg Bool.false_ne_true, if_neg]
        simp [Text.getLast?_ne_of_trail hline hlast htrail]

/-- What ending a line of a list takes back is no bracket. -/
theorem exists_of_mem_ended (hlisting : ∀ t ∈ ts, ∀ c ∈ t, isListing c = true)
    (h : line ∈ ended style ts) :
    ∃ t ∈ ts, ∃ s, t = line ++ s ∧ ∀ c ∈ s, c ∉ ['(', '[', ')', ']'] := by
  induction ts with
  | nil => cases h
  | cons t ts ih =>
    obtain ⟨ht, hts⟩ := List.forall_mem_cons.1 hlisting
    rcases List.mem_cons.1 h with rfl | h
    · refine ⟨t, List.mem_cons_self, ?_⟩
      have hblank {s : Text} (hs : s.blank = true) : ∀ c ∈ s, c ∉ ['(', '[', ')', ']'] :=
        fun c hc => Text.not_mem_of_blank (List.all_eq_true.1 hs c hc)
      obtain ⟨s, hs, hsplit⟩ := Text.exists_trimEnd t
      rcases endStatement_cases style.semi t.trimEnd ts with
        hend | ⟨hsemi, -, hend⟩ | ⟨-, -, front, hlast, hend⟩
      · rw [hend]
        exact ⟨s, hsplit, hblank hs⟩
      · rw [hsemi, endStatement_of_listing fun c hc => ht c (Text.mem_of_mem_trimEnd hc)] at hend
        exact absurd hend (by simp)
      · obtain ⟨u, hu, hfront⟩ := Text.exists_trimEnd front
        refine ⟨u ++ ';' :: s, ?_, ?_⟩
        · rw [hend, ← List.append_assoc, ← hfront, List.append_cons, ← hlast, ← hsplit]
        · intro c hc
          rcases List.mem_append.1 hc with hc | hc
          · exact hblank hu c hc
          · rcases List.mem_cons.1 hc with rfl | hc
            · decide
            · exact hblank hs c hc
    · obtain ⟨u, hu, hrest⟩ := ih hts h
      exact ⟨u, List.mem_cons_of_mem t hu, hrest⟩

theorem ended_append_of_empty (ts : List Text) {es : List Text} (hes : ∀ e ∈ es, e = []) :
    ended style (ts ++ es) = ended style ts ++ es := by
  have hblank : es.all Text.blank = true := List.all_eq_true.2 fun e he => by
    rw [hes e he]
    rfl
  induction ts with
  | nil =>
    induction es with
    | nil => rfl
    | cons e es ih =>
      obtain ⟨rfl, hrest⟩ := List.forall_mem_cons.1 hes
      have hend : endStatement style.semi (Text.trimEnd []) es = [] := endStatement_nil _ _
      rw [List.all_cons, Bool.and_eq_true] at hblank
      rw [List.nil_append] at ih ⊢
      exact congrArg₂ List.cons hend (ih hrest hblank.2)
  | cons t ts ih =>
    have hahead : hazardAhead (ts ++ es) = hazardAhead ts := by
      rw [hazardAhead_append, hazardAhead_of_blank hblank]
      split
      · next h => exact (hazardAhead_of_blank h).symm
      · rfl
    rw [List.cons_append, ended, ended, ih, endStatement_congr (.inr hahead)]
    rfl

theorem ended_squeeze (hended : ended style us = us) (afterBlank : Bool) :
    ended style (squeeze afterBlank (plain us)) = squeeze afterBlank (plain us) := by
  induction us generalizing afterBlank with
  | nil => rfl
  | cons u us ih =>
    rw [ended, List.cons.injEq] at hended
    have hahead (b : Bool) : hazardAhead (squeeze b (plain us)) = hazardAhead us := by
      rw [hazardAhead_squeeze, plain, List.map_map]
      exact congrArg hazardAhead (List.map_id _)
    rw [plain_cons, squeeze]
    split
    · split
      · exact ih hended.2 true
      · rw [ended, ih hended.2 true]
        exact congrArg (· :: _) (endStatement_nil _ _)
    · rw [ended, ih hended.2 false, endStatement_congr (.inr (hahead false)), hended.1]

theorem ended_assembled (hended : ended style us = us) :
    ended style (dropEmptyEnd (squeeze true (plain us)) ++ [[]]) =
      dropEmptyEnd (squeeze true (plain us)) ++ [[]] := by
  obtain ⟨es, hes, hsplit⟩ := exists_empty_end (squeeze true (plain us))
  have hkept := ended_squeeze hended true
  rw [hsplit, ended_append_of_empty _ hes] at hkept
  rw [ended_append_of_empty _ (by simp), List.append_cancel_right hkept]

end Lines

namespace Draft

theorem not_bracket_of_soft {c : Char} (h : Text.isSoft c = true) : Text.isBracket c = false := by
  have hfirm : ∀ m ∈ ['(', '[', '{', ')', ']', '}'], Text.isSoft m = false := by decide
  rw [Bool.eq_false_iff]
  intro hbracket
  exact Bool.false_ne_true ((hfirm c (Text.isBracket_iff.1 hbracket)).symm.trans h)

theorem lasting_bracket : Lasting Text.isBracket := by
  refine ⟨fun c hc => ?_, by decide⟩
  by_cases hbreak : c = '\n'
  · rw [hbreak]
    decide
  · exact not_bracket_of_soft (by simp [Text.isSoft, hc, hbreak])

theorem balanced_of_collapse {q : Char} {t : Text} {d : Draft} (hplain : t.NoLiteral)
    (h : collapse q t = .ok d) : t.Balanced := by
  have hpairs := collapse_pairs (q := q) hplain
  rw [h] at hpairs
  split at hpairs
  · cases hpairs
  · next hstack => exact Text.balanced_iff.2 hstack
  · cases hpairs

/-- Finishing leaves the brackets of a balanced text as they are. -/
theorem balanced_finish {style : Style} {source : Text} {d : Draft} (hplain : source.NoLiteral)
    (h : collapse style.quote source = .ok d)
    (hends : d.lineEnds = List.replicate (d.text.count '\n' + 1) .statement) :
    (Lines.finish style d.text d.lineEnds).Balanced := by
  have hsource := balanced_of_collapse hplain h
  rw [← Text.balanced_filter_iff] at hsource ⊢
  rw [Lines.filter_finish lasting_bracket (by decide), hends, List.length_replicate,
    ← Text.length_splitOn, List.take_length, Text.flatMap_splitOn (by decide),
    filter_collapse (quote_soft style) (fun _ => not_bracket_of_soft) (by decide) (by decide) h]
  exact hsource

end Draft

/-- A line that is kept of ended lines is laid out as they are. -/
theorem Lines.laid_of_mem_squeeze {style : Style} {ts : List Text} {line : Text}
    (hts : ∀ t ∈ ts, '\n' ∉ t ∧ isLaid 0 none t = true ∧ depth 0 t = 0)
    (h : line ∈ dropEmptyEnd (squeeze true (plain (ended style ts)))) :
    '\n' ∉ line ∧ isLaid 0 none line = true ∧ depth 0 line = 0 := by
  rcases mem_squeeze (mem_dropEmptyEnd h) with rfl | ⟨k, hk, rfl⟩
  · exact ⟨List.not_mem_nil, rfl, rfl⟩
  · obtain ⟨u, hu, rfl⟩ := List.mem_map.1 hk
    obtain ⟨t, ht, s, rfl, hs⟩ :=
      exists_of_mem_ended (fun t ht => Text.isListing_of_isLaid (hts t ht).2.1) hu
    obtain ⟨hbreak, hlaid⟩ := hts _ ht
    exact ⟨fun hn => hbreak (List.mem_append_left s hn), Text.isLaid_of_append hlaid hs⟩

/-- The normal form of a script of lists is laid out once and for all. -/
theorem normalizeScript_of_lists {style : Style} {source y : Text}
    (hlisting : ∀ c ∈ source, isListing c = true) (honce : endsOnce 0 0 source = true)
    (h : normalizeScript style source = .ok y) : normalizeScript style y = .ok y := by
  obtain ⟨d, hd, hfinish⟩ := normalizeScript_eq_ok_iff.1 h
  obtain ⟨hlaid, hdepth, hends, hlines⟩ := Draft.collapse_of_lists hlisting honce hd
  have hbalanced := Draft.balanced_finish (Draft.noLiteral_of_listing hlisting) hd hends
  rw [hfinish] at hbalanced
  generalize hts : Text.splitOn '\n' d.text = ts at hlines
  have hline : ∀ t ∈ ts, '\n' ∉ t ∧ isLaid 0 none t = true ∧ depth 0 t = 0 := by
    intro t ht
    rw [← hts] at ht
    exact ⟨Text.not_mem_of_mem_splitOn ht, Text.lines_of_isLaid hlaid hdepth t ht⟩
  have hended : Lines.ended style (Lines.ended style ts) = Lines.ended style ts :=
    Lines.ended_ended (fun t ht => Text.isListing_of_isLaid (hline t ht).2.1)
      (fun t ht => (hline t ht).1) hlines
  rw [hends, Lines.finish_of_lists (Text.isListing_of_isLaid hlaid), hts,
    Lines.assemble_eq_joinLines] at hfinish
  have hkept : ∀ l ∈ Lines.dropEmptyEnd (Lines.squeeze true (Lines.plain (Lines.ended style ts))),
      '\n' ∉ l ∧ isLaid 0 none l = true ∧ depth 0 l = 0 :=
    fun l hl => Lines.laid_of_mem_squeeze hline hl
  have hagain := Lines.ended_assembled hended
  have hempty : ∀ e ∈ [([] : Text)], e = [] := by simp
  have hsqueeze := Lines.dropEmptyEnd_squeeze (Lines.ended style ts) hempty
  generalize Lines.dropEmptyEnd (Lines.squeeze true (Lines.plain (Lines.ended style ts))) = kept
    at hfinish hkept hagain hsqueeze
  have hlaidAgain : isLaid 0 none y = true := by
    rw [← hfinish]
    exact Text.isLaid_joinLines fun l hl => (hkept l hl).2
  obtain ⟨e, he, htext, hlast⟩ :=
    Draft.exists_collapse_of_isLaid style.quote hlaidAgain hbalanced
  have hsplit : Text.splitOn '\n' y = kept ++ [[]] := by
    have hjoin := Lines.splitOn_joinLines (fun l hl => (hkept l hl).1) []
    rwa [List.append_nil, hfinish] at hjoin
  refine normalizeScript_eq_ok_iff.2 ⟨e, he, ?_⟩
  rw [hlast, htext, Lines.finish_of_lists (Text.isListing_of_isLaid hlaidAgain), hsplit, hagain,
    Lines.assemble_eq_joinLines, hsqueeze, hfinish]

end ProjectSetup
