import ProjectSetup.Proofs.Import.Level

/-!
# Lines of their own

A line that is read by itself, whatever lines it takes when it is wrapped, is laid out by itself as
well. Where a script begins with such lines, its layout gives them back, but for blank lines, and
what it lays out below them comes from below them.
-/
namespace ProjectSetup

open Text (essence)
open Lines (dropEmptyEnd endStatement finishLines layHeader squeeze wrapWide)

theorem Draft.Keeps.alone {q : Char} {t l : Text} (h : Keeps q t l) : Alone q t :=
  fun b hb => ⟨l, h b hb⟩

/-- The style with another limit on the width of lines. -/
def Style.sized (s : Style) (n : Nat) : Style := { s with printWidth := n }

/-- A line that is read and laid out by itself, whatever width the style allows. -/
structure Lines.Separate (style : Style) (l : Text) : Prop where
  unbroken : '\n' ∉ l
  trimmed : l.trimEnd = l
  ended : ∀ following, endStatement style.semi l following = l
  fits : l.length ≤ StyleOverrides.widest
  keeps : ∀ n, Draft.Keeps style.quote (Header.joinLines (wrapWide (style.sized n) l)) l
  quoted : Header.isImport l = true → ∃ c ∈ l, Import.isQuote c = true

namespace Lines

variable {style : Style} {k l t r : Text} {ks ls ts : List Text} {m n : Nat}

theorem finishLines_separate (hks : ∀ k ∈ ks, Separate style k) (ys : List Text)
    (es : List LineEnd) :
    finishLines (style.sized n) (ks ++ ys) (List.replicate ks.length .statement ++ es) =
      layHeader (style.sized n) ks ++ finishLines (style.sized n) ys es := by
  induction ks with
  | nil => rfl
  | cons k ks ih =>
    have hk := hks k List.mem_cons_self
    have hended : endStatement (style.sized n).semi k (ks ++ ys) = k := hk.ended _
    rw [List.cons_append, List.length_cons, List.replicate_succ, List.cons_append,
      finishLines_ended hk.trimmed hended, ih fun k' hk' => hks k' (List.mem_cons_of_mem k hk'),
      layHeader_cons, List.append_assoc]

theorem not_blank_of_trimmed (h : l.trimEnd = l) (hne : l ≠ []) : l.blank = false := by
  cases hblank : l.blank with
  | false => rfl
  | true => exact absurd (h.symm.trans (Text.trimEnd_eq_nil.2 hblank)) hne

theorem dropEmptyEnd_cons_nil (h : dropEmptyEnd ts = []) : dropEmptyEnd ([] :: ts) = [] := by
  have hnil : ts.reverse.dropWhile List.isEmpty = [] := by simpa [dropEmptyEnd] using h
  rw [dropEmptyEnd, List.reverse_cons, List.dropWhile_append, hnil]
  rfl

/-- Of lines that are laid out, at most blank ones are dropped; what stands below them keeps its
essence. -/
theorem exists_laid_lines (style : Style) (hks : ∀ k ∈ ks, k.trimEnd = k) (afterBlank : Bool)
    (zs : List Line) :
    ∃ ls us : List Text, dropEmptyEnd (squeeze afterBlank (layHeader style ks ++ zs)) =
        ls.flatMap (wrapWide style) ++ us ∧
      ls.Sublist ks ∧ (∀ k ∈ ks, k ≠ [] → k ∈ ls) ∧
      us.flatMap essence = zs.flatMap fun z => essence z.text := by
  induction ks generalizing afterBlank with
  | nil =>
    refine ⟨[], dropEmptyEnd (squeeze afterBlank zs), rfl, List.Sublist.refl _, by simp, ?_⟩
    exact (flatMap_dropEmptyEnd rfl _).trans (flatMap_squeeze lasting_essence afterBlank zs)
  | cons k ks ih =>
    have hrest := ih fun k' hk' => hks k' (List.mem_cons_of_mem k hk')
    by_cases hk : k = []
    · subst hk
      have hone : wrapWide style [] = [[]] := wrapWide_of_none rfl style
      obtain ⟨ls, us, hlaid, hsub, hmem, hessence⟩ := hrest true
      have hkeep : ∀ k ∈ [] :: ks, k ≠ [] → k ∈ ls := fun k hk hne =>
        hmem k ((List.mem_cons.1 hk).resolve_left hne) hne
      rw [layHeader_blank, squeeze, if_pos (by rfl)]
      cases afterBlank with
      | true => exact ⟨ls, us, hlaid, hsub.cons [], hkeep, hessence⟩
      | false =>
        rw [if_neg Bool.false_ne_true]
        by_cases hnil : dropEmptyEnd (squeeze true (layHeader style ks ++ zs)) = []
        · refine ⟨ls, us, ?_, hsub.cons [], hkeep, hessence⟩
          rw [← hlaid, hnil, dropEmptyEnd_cons_nil hnil]
        · refine ⟨[] :: ls, us, ?_, hsub.cons_cons [], fun k hk hne =>
            List.mem_cons_of_mem [] (hkeep k hk hne), hessence⟩
          rw [dropEmptyEnd_cons_of_ne_nil [] hnil, hlaid, List.flatMap_cons, hone]
          rfl
    · obtain ⟨ls, us, hlaid, hsub, hmem, hessence⟩ := hrest false
      have hblank := not_blank_of_trimmed (hks k List.mem_cons_self) hk
      have hlines := not_blank_of_mem_wrapWide hblank style
      have hne := wrapWide_ne_nil style k
      have hempty : (wrapWide style k).isEmpty = false := by simpa using hne
      refine ⟨k :: ls, us, ?_, hsub.cons_cons k, fun k' hk' hne' => ?_, hessence⟩
      · have hlast : (wrapWide style k).getLast hne ≠ [] := by
          intro he
          have hnot := hlines _ (List.getLast_mem hne)
          rw [he] at hnot
          cases hnot
        rw [layHeader_cons, List.append_assoc, squeeze_append_of_not_blank hlines, hempty,
          Bool.and_false, dropEmptyEnd_append (List.getLast?_eq_some_getLast hne) hlast, hlaid,
          List.flatMap_cons, List.append_assoc]
      · rcases List.mem_cons.1 hk' with rfl | hk'
        · exact List.mem_cons_self
        · exact List.mem_cons_of_mem k (hmem k' hk' hne')

theorem essence_joinLines (ls : List Text) :
    essence (Header.joinLines ls) = ls.flatMap essence :=
  Header.filter_joinLines (by decide) ls

/-- Lines of their own at the beginning of a script are read line by line, and what is written below
them comes from below them. -/
theorem exists_drafted (hls : ∀ l ∈ ls, Separate style l) {d : Draft}
    (h : Draft.collapse style.quote
      (Header.joinLines (ls.flatMap (wrapWide (style.sized m))) ++ t) = .ok d) :
    ∃ y es, d.text = Header.joinLines ls ++ y ∧
      d.lineEnds = List.replicate ls.length .statement ++ es ∧ essence y = essence t := by
  have htakes : Draft.Takes style.quote {}
      (Header.joinLines (ls.flatMap (wrapWide (style.sized m)))) (({} : Draft).addLines ls) := by
    rw [Header.joinLines_flatMap]
    have hall := Draft.atLine_empty.takes_all (g := id) fun l hl => (hls l hl).keeps m
    rwa [List.map_id] at hall
  obtain ⟨k, hread⟩ := htakes t
  have hfree := Draft.free_lines ls k
  obtain ⟨e, he⟩ := Draft.exists_on ((Draft.atLine_empty.addLines ls).recount k).back
    (isBlank_of_isMark (Import.isMark_quote style)) hfree.frames hfree.pad
    (hread.symm.trans (Draft.read_of_collapse h))
  have htext : d.text = Header.joinLines ls ++ e.back.reverse :=
    Draft.text_of_back (n := k) (by rw [he, List.reverse_reverse]; rfl)
  have hends : d.lineEnds = List.replicate ls.length .statement ++
      (e.ends.reverse ++ [.statement]) :=
    Draft.lineEnds_of_ends (n := k) (by rw [he, List.reverse_reverse]; rfl)
  refine ⟨_, _, htext, hends, ?_⟩
  have hsame := Draft.essence_collapse h
  have hwrap (l : Text) : (wrapWide (style.sized m) l).flatMap essence = essence l :=
    flatMap_wrapWide lasting_essence _ l
  rw [htext, Text.essence_append, Text.essence_append, essence_joinLines, essence_joinLines,
    List.flatMap_assoc] at hsame
  simp only [hwrap] at hsame
  exact List.append_cancel_left hsame

/-- Lines of their own at the beginning of a script are laid out line by line, and at most blank
ones are dropped. What is laid out below them comes from below them. -/
theorem exists_laid (hls : ∀ l ∈ ls, Separate style l)
    (h : normalizeScript (style.sized n)
      (Header.joinLines (ls.flatMap (wrapWide (style.sized m))) ++ t) = .ok r) :
    ∃ (ks : List Text) (u : Text),
      r = Header.joinLines (ks.flatMap (wrapWide (style.sized n))) ++ u ∧
      ks.Sublist ls ∧ (∀ l ∈ ls, l ≠ [] → l ∈ ks) ∧ essence u <+: essence t := by
  obtain ⟨d, hd, rfl⟩ := normalizeScript_eq_ok_iff.1 h
  obtain ⟨y, es, htext, hends, hessence⟩ := exists_drafted hls hd
  obtain ⟨ks, us, hlaid, hsub, hmem, hbelow⟩ := exists_laid_lines (style.sized n)
    (fun l hl => (hls l hl).trimmed) true (finishLines (style.sized n) (Text.splitOn '\n' y) es)
  refine ⟨ks, Header.joinLines us, ?_, hsub, hmem, ?_⟩
  · rw [finish, htext, hends, splitOn_joinLines fun l hl => (hls l hl).unbroken,
      finishLines_separate hls, assemble_eq_joinLines, hlaid, Header.joinLines_append]
  · have hlines : us.flatMap essence =
        ((Text.splitOn '\n' y).take es.length).flatMap essence :=
      hbelow.trans (flatMap_finishLines lasting_essence (by decide) _ _ _)
    rw [essence_joinLines, hlines, ← hessence]
    exact Text.essence_take_lines es.length y

/-- Without a limit, a line of its own takes one line. -/
theorem Separate.wrapWide_wide (h : Separate style l) : wrapWide style.wide l = [l] := by
  rw [wrapWide]
  exact if_neg (Nat.not_lt.2 h.fits)

theorem Separate.alone (h : Separate style l) : Draft.Alone style.quote (l ++ ['\n']) := by
  have hkeeps : Draft.Keeps style.quote (Header.joinLines (wrapWide style.wide l)) l :=
    h.keeps StyleOverrides.widest
  rw [h.wrapWide_wide] at hkeeps
  have hone : Header.joinLines [l] = l ++ ['\n'] := List.append_nil _
  exact (hone ▸ hkeeps).alone

theorem flatMap_wide (hls : ∀ l ∈ ls, Separate style l) :
    ls.flatMap (wrapWide style.wide) = ls := by
  induction ls with
  | nil => rfl
  | cons l ls ih =>
    rw [List.flatMap_cons, (hls l List.mem_cons_self).wrapWide_wide,
      ih fun k hk => hls k (List.mem_cons_of_mem l hk)]
    rfl

/-- Lines of their own come through the layout of an edited file and its single-line form. -/
theorem exists_laid_twice (hls : ∀ l ∈ ls, Separate style l)
    (h : normalizeScript style (Header.joinLines ls ++ t) = .ok r) {f : Text}
    (h' : normalizeScript style.wide r = .ok f) :
    ∃ (ks : List Text) (u : Text), f = Header.joinLines ks ++ u ∧ ks.Sublist ls ∧
      (∀ l ∈ ls, l ≠ [] → l ∈ ks) ∧ essence u <+: essence t := by
  rw [← flatMap_wide hls] at h
  obtain ⟨ks, u, rfl, hsub, hmem, hu⟩ := exists_laid hls h
  have hks : ∀ k ∈ ks, Separate style k := fun k hk => hls k (hsub.subset hk)
  obtain ⟨ks', u', hf, hsub', hmem', hu'⟩ := exists_laid hks h'
  have hwide := flatMap_wide fun k hk => hks k (hsub'.subset hk)
  exact ⟨ks', u', hf.trans (congrArg (Header.joinLines · ++ u') hwide), hsub'.trans hsub,
    fun l hl hne => hmem' l (hmem l hl hne) hne, hu'.trans hu⟩

end Lines

namespace Import

open Lines (Separate)

variable {style : Style} {i : Import} {gap note source stop : Text} {c : Char}

/-- An import is a line of its own with what follows it, if the end of the line stays as it is. -/
theorem Plain.separate (hi : i.Plain) (hstop : Draft.Stops style.quote stop)
    (hunbroken : '\n' ∉ stop)
    (htrim : (i.line style.quote ++ stop).trimEnd = i.line style.quote ++ stop)
    (hended : ∀ following, endStatement style.semi (i.line style.quote ++ stop) following =
      i.line style.quote ++ stop)
    (hfits : (i.line style.quote ++ stop).length ≤ StyleOverrides.widest) :
    Separate style (i.line style.quote ++ stop) where
  unbroken hmem := (List.mem_append.1 hmem).elim
    (hi.newline_not_mem (isMark_quote style)) hunbroken
  trimmed := htrim
  ended := hended
  fits := hfits
  keeps n _ hb := hb.takes_import hi (style.sized n) hstop
  quoted _ := by
    refine ⟨style.quote, by simp [line_eq], ?_⟩
    rcases isMark_quote style with hq | hq <;> rw [hq] <;> rfl

theorem Row.separate (hi : i.Plain)
    (hfits : ((statement i style.semi).text style.quote).length ≤ StyleOverrides.widest) :
    Separate style ((statement i style.semi).text style.quote) := by
  have hq := isMark_quote style
  refine hi.separate (Draft.stops_open ?_) ?_ (Row.trimEnd_text hq (statement i style.semi))
    (fun following => ?_) hfits
  · intro c hc
    obtain rfl : c = ';' := by
      split at hc
      · exact List.mem_singleton.1 hc
      · cases hc
    rfl
  · cases style.semi <;> simp
  · have hended := Row.endStatement_text hq style.semi (statement i style.semi) following
    cases hsemi : style.semi <;> rw [hsemi] at hended <;> exact hended

/-- A comment ends with its line. -/
theorem stops_note {q : Char} (hgap : ∀ c ∈ gap, Header.isSpace c = true) (hnote : '\n' ∉ note)
    (htrim : Text.trimEnd ('/' :: '/' :: note) = '/' :: '/' :: note) :
    Draft.Stops q (gap ++ '/' :: '/' :: note) := by
  intro b h
  have hopen : ∀ c ∈ gap, Draft.isOpen c = true := fun c hc =>
    StaticImport.isOpen_of_isSpace (hgap c hc)
  rw [List.append_assoc, Draft.addLine_append]
  refine (h.takes hopen).append fun n => ?_
  have hnoted := ((h.write gap).recount n).takes_note (q := q) hnote
  rw [htrim] at hnoted
  exact hnoted

/-- An import is a line of its own with a comment behind it, if a semicolon or a quote at the end of
the comment cannot be taken for the end of the statement. -/
theorem Plain.separate_note (hi : i.Plain) (hgap : ∀ c ∈ gap, Header.isSpace c = true)
    (hnote : '\n' ∉ note) (hlast : note.getLast? = some c) (hblank : Text.isBlank c = false)
    (hc : c ∉ [';', '\'', '"'])
    (hfits : (i.line style.quote ++ (gap ++ '/' :: '/' :: note)).length ≤ StyleOverrides.widest) :
    Separate style (i.line style.quote ++ (gap ++ '/' :: '/' :: note)) := by
  obtain ⟨front, rfl⟩ := List.getLast?_eq_some_iff.1 hlast
  have hend (x : Text) : (x ++ '/' :: '/' :: (front ++ [c])).getLast? = some c := by
    have hsplit : x ++ '/' :: '/' :: (front ++ [c]) = (x ++ '/' :: '/' :: front) ++ [c] := by simp
    rw [hsplit, List.getLast?_concat]
  have hlast : (i.line style.quote ++ (gap ++ '/' :: '/' :: (front ++ [c]))).getLast? = some c := by
    rw [← List.append_assoc, hend]
  simp only [List.mem_cons, List.not_mem_nil, or_false, not_or] at hc
  refine hi.separate (stops_note hgap hnote (Text.trimEnd_of_getLast? (hend []) hblank)) ?_
    (Text.trimEnd_of_getLast? hlast hblank) (fun following => ?_) hfits
  · have hspace : '\n' ∉ gap := fun hmem => absurd (hgap _ hmem) (by decide)
    rw [List.mem_append, not_or]
    exact ⟨hspace, by simpa using hnote⟩
  · simp [endStatement, hlast, hc]

/-- An import of a module alone, without a blank behind the word, is a line of its own. -/
theorem separate_packed {q : Char} (hquote : style.quote = q) (hsource : Bare source)
    (hfits : ("import".toList ++ q :: (source ++ [q])).length ≤ StyleOverrides.widest) :
    Separate style ("import".toList ++ q :: (source ++ [q])) := by
  have hq : IsMark q := hquote ▸ isMark_quote style
  generalize hl : "import".toList ++ q :: (source ++ [q]) = l at hfits ⊢
  have hlast : l.getLast? = some q := by
    rw [← hl, ← List.cons_append, ← List.append_assoc, List.getLast?_concat]
  have hone : Lines.NamedImport.ofLine? l = none := by
    rw [← hl]
    rcases hq with rfl | rfl <;> rfl
  refine ⟨?_, Text.trimEnd_of_getLast? hlast (isBlank_of_isMark hq), fun following => ?_, hfits,
    fun n b hb => ?_, fun _ => ⟨q, List.mem_of_getLast? hlast, ?_⟩⟩
  · have hbare : '\n' ∉ source := fun hmem => (hsource _ hmem).2.2.2 rfl
    rw [← hl]
    rcases hq with rfl | rfl <;> simp [hbare]
  · have hdeclares : Lines.isModuleDeclaration l = false := by
      rw [← hl]
      rcases hq with rfl | rfl <;> rfl
    have hmark : q ≠ ';' := by rcases hq with rfl | rfl <;> decide
    simp [endStatement, hdeclares, hlast, hmark]
  · have hline : Header.joinLines [l] = l ++ ['\n'] := List.append_nil _
    have hfree := hb.toFree
    have hopen : "import".toList.all Draft.isOpen = true := rfl
    rw [Lines.wrapWide_of_none hone, hline, hquote, ← List.append_nil l, Draft.addLine_append,
      List.append_nil, ← hl]
    exact (takes_from hfree (List.all_eq_true.1 hopen) hq hq hsource).append fun n =>
      ((hfree.write _).recount n).takes_newline
  · rcases hq with rfl | rfl <;> rfl

end Import

end ProjectSetup
