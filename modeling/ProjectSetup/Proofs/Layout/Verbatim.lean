import ProjectSetup.Proofs.Import.Header
import ProjectSetup.Proofs.Layout.Literals

/-!
# Literals in normal forms

Finishing changes the ends of lines, drops blank lines and breaks wide imports into lines, but a
line that ends inside a literal stays as it is. So it keeps all literals but those that stand where
an import is broken: at its commas, or at its closing brace.
-/
namespace ProjectSetup

open TiedText (Kept Sound closes opens split tiedHead)

namespace Lines

variable {style : Style} {m a l s : TiedText} {stop : Text}

theorem closes_of_isBlank {c : Char} (h : Text.isBlank c = true) : closes c = false := by
  have hmarks : ∀ x ∈ ['\'', '"', '\x60', '/', '{'], Text.isBlank x = false := by decide
  rw [← Bool.not_eq_true, closes, List.contains_iff_mem]
  intro hc
  rw [hmarks c hc] at h
  cases h

theorem opens_of_isBlank {c : Char} (h : Text.isBlank c = true) : opens c = false := by
  have hmarks : ∀ x ∈ ['\'', '"', '\x60', '/', '}'], Text.isBlank x = false := by decide
  rw [← Bool.not_eq_true, opens, List.contains_iff_mem]
  intro hc
  rw [hmarks c hc] at h
  cases h

/-- The blanks at the end of a line are free. -/
theorem exists_trimmed (h : Sound m) : ∃ a s, m = a ++ s ∧ a.text = m.text.trimEnd ∧
    (∀ p ∈ s, p.2 = false) ∧ Sound a := by
  obtain ⟨t, ht, hm⟩ := Text.exists_trimEnd m.text
  obtain ⟨a, s, rfl, ha, rfl⟩ := TiedText.exists_of_text_append hm
  obtain ⟨hs, hsound⟩ := h.free_of_closes fun c hc =>
    closes_of_isBlank (List.all_eq_true.1 ht c hc)
  exact ⟨a, s, rfl, ha, hs, hsound⟩

/-- A line loses free characters at its end and may gain a semicolon. -/
theorem exists_ended (h : Sound m) (semi : Bool) (following : List Text) :
    ∃ a s stop, m = a ++ s ∧ (∀ p ∈ s, p.2 = false) ∧ Sound a ∧ '}' ∉ stop ∧
      endStatement semi m.text.trimEnd following = a.text ++ stop := by
  obtain ⟨a, s, rfl, htrim, hs, ha⟩ := exists_trimmed h
  rw [← htrim]
  rcases endStatement_cases semi a.text following with
    hend | ⟨-, -, hend⟩ | ⟨-, -, front, hfront, hend⟩
  · exact ⟨a, s, [], rfl, hs, ha, by simp, by simp [hend]⟩
  · exact ⟨a, s, [';'], rfl, hs, ha, by decide, hend⟩
  · obtain ⟨b, q, rfl, rfl, hq⟩ := TiedText.exists_of_text_append hfront
    obtain ⟨hqfree, hbsound⟩ := ha.free_of_closes fun c hc => by
      rw [hq, List.mem_singleton] at hc
      rw [hc]
      rfl
    obtain ⟨b', r, rfl, hb', hr, hsound⟩ := exists_trimmed hbsound
    refine ⟨b', r ++ (q ++ s), [], by simp, ?_, hsound, by simp, ?_⟩
    · intro p hp
      rcases List.mem_append.1 hp with hp | hp
      · exact hr p hp
      · exact (List.mem_append.1 hp).elim (hqfree p) (hs p)
    · rw [hend, List.append_nil, hb']

/-- Whether a line begins outside literals, and its commas up to the first closing brace and that
brace stand outside them. -/
def spared (m : TiedText) : Bool :=
  !tiedHead m && (m.takeWhile (·.1 != '}')).all (fun p => p.1 != ',' || !p.2) &&
    !tiedHead (m.dropWhile (·.1 != '}'))

theorem join_lines_cons (t : Text) (ts : List Text) :
    Text.join ['\n'] (t :: ts) = t ++ ts.flatMap ('\n' :: ·) := by
  induction ts generalizing t with
  | nil => simp
  | cons u us ih => rw [Text.join_cons _ _ _ (List.cons_ne_nil u us), ih]; simp

theorem exists_itemLines_cons (comma : Bool) (i : Text) (is : List Text) :
    ∃ stop, NamedImport.itemLines comma (i :: is) =
      (' ' :: ' ' :: i ++ stop) :: NamedImport.itemLines comma is := by
  cases is with
  | nil => exact ⟨if comma then [','] else [], rfl⟩
  | cons j js => exact ⟨[','], rfl⟩

/-- A free beginning and a free end can be trimmed. -/
theorem kept_trim (h : Sound m) (hhead : tiedHead m = false) : Kept m m.text.trim := by
  obtain ⟨t, ht, hm⟩ : ∃ t : Text, t.blank = true ∧ m.text = t ++ m.text.trimStart :=
    ⟨m.text.takeWhile Text.isBlank, List.all_takeWhile, List.takeWhile_append_dropWhile.symm⟩
  obtain ⟨s, a, rfl, rfl, ha⟩ := TiedText.exists_of_text_append hm
  obtain ⟨hs, hahead⟩ := h.free_of_opens hhead fun c hc =>
    opens_of_isBlank (List.all_eq_true.1 ht c hc)
  obtain ⟨b, r, rfl, hb, hr, -⟩ := exists_trimmed h.right
  rw [Text.trim, ← ha, ← hb]
  exact (Kept.of_free hs).append ((Kept.refl b).append_free hr) hahead

/-- The names of an import keep their literals, if no comma stands in one. -/
theorem kept_items (h : Sound l) (hhead : tiedHead l = false)
    (hcommas : ∀ p ∈ l, p.1 = ',' → p.2 = false) (comma : Bool) :
    Kept l ((NamedImport.itemLines comma
      (((Text.splitOn ',' l.text).map Text.trim).filter (!·.isEmpty))).flatMap ('\n' :: ·)) := by
  induction hlength : l.length using Nat.strong_induction_on generalizing l with
  | _ length ih =>
    rcases TiedText.exists_split ',' l with hnone | ⟨q, b, l, rfl, hq⟩
    · have htrim := kept_trim h hhead
      rw [Text.splitOn_of_not_mem hnone, List.map_singleton, List.filter_singleton]
      cases hempty : l.text.trim.isEmpty with
      | true =>
        rw [List.isEmpty_iff.1 hempty] at htrim
        exact htrim
      | false =>
        have hline := (htrim.append (.put_all .nil rfl (if comma then [','] else [])) rfl).put_all
          (TiedText.tiedHead_append rfl hhead) ['\n', ' ', ' ']
        simpa [NamedImport.itemLines] using hline
    · obtain rfl : b = false := hcommas (',', b) (by simp) rfl
      have hqhead := TiedText.tiedHead_left hhead
      have htrim := kept_trim (h.left rfl) hqhead
      have hnext : tiedHead l = false := by
        rw [← Bool.not_eq_true]
        exact fun ht => absurd (h.right.2.1 rfl ht) (by decide)
      have hrest := ih l.length (by rw [← hlength]; simp; omega) h.right.2.2 hnext
        (fun p hp => hcommas p (by simp [hp])) rfl
      have htext : (q ++ (',', false) :: l).text = q.text ++ ',' :: l.text := by simp
      rw [htext, Text.splitOn_append_cons, Text.splitOn_of_not_mem hq, List.singleton_append,
        List.map_cons, List.filter_cons]
      generalize ((Text.splitOn ',' l.text).map Text.trim).filter (!·.isEmpty) = items at hrest
      -- the comma goes, and another one stands behind the name if one is due
      split
      · obtain ⟨stop, hlines⟩ := exists_itemLines_cons comma q.text.trim items
        have hline := (htrim.append ((hrest.drop ',' hnext).put_all rfl stop) rfl).put_all
          (TiedText.tiedHead_append rfl hqhead) ['\n', ' ', ' ']
        rw [hlines]
        simpa using hline
      · next hempty =>
        have hnil : q.text.trim = [] := by simpa using hempty
        rw [hnil] at htrim
        exact htrim.append (hrest.drop ',' hnext) rfl

theorem opens_of_isBinding {c : Char} (h : NamedImport.isBinding c = true) : opens c = false := by
  have hmarks : ∀ x ∈ ['\'', '"', '\x60', '/', '}'], x ∈ Import.marks := by decide
  rw [← Bool.not_eq_true, opens, List.contains_iff_mem]
  exact fun hc => Import.not_mem_marks h (hmarks c hc)

/-- A brace stands in a line ahead of what is put behind it. -/
theorem exists_of_brace {t u v : Text} (h : t ++ stop = u ++ '}' :: v) (hstop : '}' ∉ stop) :
    ∃ w, t = u ++ '}' :: w ∧ v = w ++ stop := by
  rcases List.append_eq_append_iff.1 h with ⟨w, -, hw⟩ | ⟨w, rfl, hw⟩
  · rw [hw] at hstop
    exact absurd (by simp) hstop
  · cases w with
    | nil =>
      rw [List.nil_append] at hw
      rw [← hw] at hstop
      exact absurd List.mem_cons_self hstop
    | cons c w =>
      cases hw
      exact ⟨w, rfl, rfl⟩

/-- A line is broken behind its front, at the commas in its list and at its closing brace. -/
theorem kept_broken {f g : TiedText} {b b' b'' : Bool}
    (h : Sound (f ++ (' ', b) :: (l ++ (' ', b') :: ('}', b'') :: g)))
    (hspared : spared (f ++ (' ', b) :: (l ++ (' ', b') :: ('}', b'') :: (g ++ s))) = true)
    (hf : ∀ c ∈ f.text, opens c = false) (hl : '}' ∉ l.text) (comma : Bool) (stop : Text) :
    Kept (f ++ (' ', b) :: (l ++ (' ', b') :: ('}', b'') :: g))
      (f.text ++ ((NamedImport.itemLines comma
        (((Text.splitOn ',' l.text).map Text.trim).filter (!·.isEmpty))).flatMap ('\n' :: ·) ++
          '\n' :: '}' :: (g.text ++ stop))) := by
  have hbrace : ∀ p ∈ f ++ (' ', b) :: (l ++ [(' ', b')]), (p.1 != '}') = true := by
    intro p hp
    rw [bne_iff_ne]
    intro he
    have hmem : '}' ∈ (f ++ (' ', b) :: (l ++ [(' ', b')])).text := he ▸ List.mem_map_of_mem hp
    have hf' : '}' ∉ f.text := fun hm => absurd (hf _ hm) (by decide)
    simp [hf', hl] at hmem
  obtain ⟨⟨hhead, hcommas⟩, hclose⟩ : (tiedHead (f ++ (' ', b) :: (l ++ [(' ', b')])) = false ∧
      ∀ p ∈ f ++ (' ', b) :: (l ++ [(' ', b')]), p.1 = ',' → p.2 = false) ∧ b'' = false := by
    have hline : f ++ (' ', b) :: (l ++ (' ', b') :: ('}', b'') :: (g ++ s)) =
        (f ++ (' ', b) :: (l ++ [(' ', b')])) ++ ('}', b'') :: (g ++ s) := by simp
    have hstop : (('}', b'') :: (g ++ s)).takeWhile (·.1 != '}') = [] := rfl
    have hstop' : (('}', b'') :: (g ++ s)).dropWhile (·.1 != '}') = ('}', b'') :: (g ++ s) := rfl
    rw [hline, spared, List.takeWhile_append_of_pos hbrace, List.dropWhile_append_of_pos hbrace,
      hstop, hstop', List.append_nil] at hspared
    simp only [Bool.and_eq_true, Bool.not_eq_true', List.all_eq_true] at hspared
    exact ⟨⟨TiedText.tiedHead_left hspared.1.1, fun p hp hcomma => by
      simpa [hcomma] using hspared.1.2 p hp⟩, hspared.2⟩
  subst hclose
  have hline : f ++ (' ', b) :: (l ++ (' ', b') :: ('}', false) :: g) =
      (f ++ [(' ', b)] ++ l) ++ [(' ', b')] ++ ('}', false) :: g := by simp
  rw [hline] at h
  have hlist : f ++ (' ', b) :: (l ++ [(' ', b')]) = (f ++ [(' ', b)]) ++ (l ++ [(' ', b')]) := by
    simp
  rw [hlist] at hhead hcommas
  obtain ⟨hend, hsound⟩ := (h.left rfl).free_of_closes (s := [(' ', b')]) fun c hc => by
    rw [List.mem_singleton.1 hc]
    rfl
  obtain ⟨hfree, hnext⟩ := hsound.free_of_opens
    (TiedText.tiedHead_left (l := [(' ', b')]) (by simpa using hhead)) fun c hc => by
      rw [TiedText.text_append, List.mem_append] at hc
      exact hc.elim (hf c) fun hc => by rw [List.mem_singleton.1 hc]; rfl
  obtain rfl : b = false := hfree (' ', b) (by simp)
  obtain rfl : b' = false := hend (' ', b') (by simp)
  have hitems := kept_items hsound.right hnext
    (fun p hp => hcommas p (by simp [hp])) comma
  have htail := ((Kept.refl g).append (.put_all .nil rfl stop) rfl).keep ('}', false)
  have hkept := ((hitems.drop ' ' hnext).prepend f).append ((htail.put '\n' rfl).drop ' ' rfl) rfl
  simpa using hkept

/-- A wide import keeps its literals if it is spared, whatever its end has become. -/
theorem kept_wrapped (h : Sound a) (hspared : spared (a ++ s) = true) (hstop : '}' ∉ stop)
    {i : NamedImport} (hi : NamedImport.ofLine? (a.text ++ stop) = some i)
    (commas : TrailingComma) : Kept a (Text.join ['\n'] (i.wrapped commas)) := by
  obtain ⟨list, hline, hitems, hlist, hhead⟩ := ofLine?_eq_some hi
  obtain ⟨tail, ha, htail⟩ := exists_of_brace
    (u := "import ".toList ++ i.head ++ ['{', ' '] ++ list ++ [' '])
    (v := " from ".toList ++ i.tail) (by rw [hline]; simp) hstop
  obtain ⟨f, p, rfl, hf, hp⟩ := TiedText.exists_of_text_append
    (t := "import ".toList ++ i.head ++ ['{']) (u := ' ' :: (list ++ ' ' :: '}' :: tail))
    (by rw [ha]; simp)
  obtain ⟨b, q, rfl, hq⟩ := TiedText.exists_of_text_cons hp
  obtain ⟨l, r, rfl, rfl, hr⟩ := TiedText.exists_of_text_append hq
  obtain ⟨b', e, rfl, he⟩ := TiedText.exists_of_text_cons hr
  obtain ⟨b'', g, rfl, rfl⟩ := TiedText.exists_of_text_cons he
  have hopens : ∀ c ∈ f.text, opens c = false := by
    intro c hc
    rw [hf, List.mem_append, List.mem_append, List.mem_singleton] at hc
    rcases hc with (hc | hc) | rfl
    · have hfront : "import ".toList.all (!opens ·) = true := by decide
      simpa using List.all_eq_true.1 hfront c hc
    · rcases hhead c hc with hname | hsep
      · exact opens_of_isBinding hname
      · rcases List.mem_pair.1 hsep with rfl | rfl <;> rfl
    · rfl
  have hkept := kept_broken (s := s) h (by simpa using hspared) hopens hlist (commas != .none) stop
  rw [hf, ← htail] at hkept
  rw [NamedImport.wrapped, List.cons_append, join_lines_cons, hitems, List.flatMap_append]
  simpa using hkept

/-- A statement keeps its literals if it is not broken into lines or is spared. -/
theorem kept_wrapWide (h : Sound a) (hstop : '}' ∉ stop)
    (hspared : wrapWide style (a.text ++ stop) ≠ [a.text ++ stop] → spared (a ++ s) = true) :
    Kept a (Text.join ['\n'] (wrapWide style (a.text ++ stop))) := by
  by_cases hone : wrapWide style (a.text ++ stop) = [a.text ++ stop]
  · rw [hone]
    simpa using (Kept.refl a).append (.put_all .nil rfl stop) rfl
  · obtain ⟨i, hi, hwrap⟩ := (wrapWide_cases style _).resolve_left hone
    rw [hwrap]
    exact kept_wrapped h (hspared hone) hstop hi style.trailingComma

theorem wrapWide_of_blank {line : Text} (h : line.blank = true) (style : Style) :
    wrapWide style line = [line] := by
  refine wrapWide_of_none ?_ style
  cases hi : NamedImport.ofLine? line with
  | none => rfl
  | some i =>
    obtain ⟨list, rfl, -⟩ := ofLine?_eq_some hi
    have hbrace : Text.isBlank '{' = false := by decide
    simp [hbrace] at h

/-- What a line that does not end in a literal becomes: a blank line, from free characters alone, or
lines that are not blank and keep its literals. -/
def Finished (m : TiedText) (ts : List Text) : Prop :=
  (∃ u, ts = [u] ∧ u.blank = true ∧ ∀ p ∈ m, p.2 = false) ∨
    ts ≠ [] ∧ (∀ t ∈ ts, t.blank = false) ∧ Kept m (Text.join ['\n'] ts)

theorem finished_of_ended {u : Text} {ts : List Text} (h : Sound a) (hs : ∀ p ∈ s, p.2 = false)
    (hu : u = a.text ++ stop) (hblank : u.blank = true → ts = [u])
    (hts : u.blank = false → ts ≠ [] ∧ (∀ t ∈ ts, t.blank = false))
    (hkept : Kept a (Text.join ['\n'] ts)) : Finished (a ++ s) ts := by
  cases hb : u.blank with
  | true =>
    have ha : a.text.blank = true := by
      rw [hu, Text.blank_append, Bool.and_eq_true] at hb
      exact hb.1
    obtain ⟨hfree, -⟩ := Sound.free_of_closes (m := []) h fun c hc =>
      closes_of_isBlank (List.all_eq_true.1 ha c hc)
    exact .inl ⟨u, hblank hb, hb, fun p hp => (List.mem_append.1 hp).elim (hfree p) (hs p)⟩
  | false => exact .inr ⟨(hts hb).1, (hts hb).2, hkept.append_free hs⟩

/-- Each line that does not end in a literal is finished, if it is spared or not broken. -/
theorem exists_finishLine {e : LineEnd} {following : List Text} (h : Sound m) (he : e ≠ .literal)
    (hspared : e = .statement → wrapWide style (endStatement style.semi m.text.trimEnd following) ≠
      [endStatement style.semi m.text.trimEnd following] → spared m = true) :
    ∃ ts, finishLine style ⟨m.text, e⟩ following = ts.map (⟨·, e⟩) ∧ Finished m ts := by
  cases e with
  | literal => exact absurd rfl he
  | nested =>
    obtain ⟨a, s, rfl, ha, hs, hsound⟩ := exists_trimmed h
    refine ⟨[a.text], by rw [ha]; rfl, ?_⟩
    exact finished_of_ended hsound hs (List.append_nil a.text).symm (fun _ => rfl)
      (fun hb => by simpa using hb) (Kept.refl a)
  | statement =>
    obtain ⟨a, s, stop, rfl, hs, hsound, hstop, hend⟩ := exists_ended h style.semi following
    refine ⟨wrapWide style (a.text ++ stop), by rw [← hend]; rfl, ?_⟩
    refine finished_of_ended hsound hs rfl (fun hb => wrapWide_of_blank hb style)
      (fun hb => ⟨wrapWide_ne_nil style _, not_blank_of_mem_wrapWide hb style⟩) ?_
    rw [hend] at hspared
    exact kept_wrapWide hsound hstop (hspared rfl)

/-- The text of lines, laid out below a blank line or another one. -/
def laid (afterBlank : Bool) (ls : List Line) : Text :=
  Header.joinLines (dropEmptyEnd (squeeze afterBlank ls))

theorem laid_of_blank {l : Line} (hl : l.isBlank = true) (afterBlank : Bool) (ls : List Line) :
    laid afterBlank (l :: ls) = laid true ls ∨
      laid afterBlank (l :: ls) = '\n' :: laid true ls := by
  rw [laid, squeeze, if_pos hl]
  split
  · exact .inl rfl
  · by_cases hnil : dropEmptyEnd (squeeze true ls) = []
    · obtain ⟨es, hes, hls⟩ := exists_empty_end (squeeze true ls)
      rw [hnil, List.nil_append] at hls
      have hempty : dropEmptyEnd ([] ++ [] :: squeeze true ls) = dropEmptyEnd [] :=
        dropEmptyEnd_append_empty [] (by simpa [hls] using hes)
      rw [List.nil_append] at hempty
      left
      rw [hempty, laid, hnil]
      rfl
    · rw [dropEmptyEnd_cons_of_ne_nil [] hnil]
      exact .inr rfl

theorem laid_of_literal (t : Text) {ls : List Line} (h : laid false ls ≠ []) (afterBlank : Bool) :
    laid afterBlank (⟨t, .literal⟩ :: ls) = t ++ '\n' :: laid false ls := by
  have hblank : (⟨t, .literal⟩ : Line).isBlank = false := by simp [Line.isBlank]
  have hne : dropEmptyEnd (squeeze false ls) ≠ [] := by
    intro hnil
    rw [laid, hnil] at h
    exact h rfl
  rw [laid, squeeze, if_neg (by simp [hblank]), dropEmptyEnd_cons_of_ne_nil t hne,
    Header.joinLines_cons]
  rfl

theorem laid_of_not_blank {ts : List Text} (hne : ts ≠ []) (hts : ∀ t ∈ ts, t.blank = false)
    (e : LineEnd) (ls : List Line) (afterBlank : Bool) :
    laid afterBlank (ts.map (⟨·, e⟩) ++ ls) = Text.join ['\n'] ts ++ '\n' :: laid false ls := by
  have hlast := List.getLast?_eq_some_getLast hne
  have hlastNe : ts.getLast hne ≠ [] := by
    intro hnil
    have hblank := hts _ (List.getLast_mem hne)
    rw [hnil] at hblank
    cases hblank
  have hjoin := join_lines_of_ne_nil hne
  rw [laid, squeeze_append_of_not_blank hts, dropEmptyEnd_append hlast hlastNe,
    Header.joinLines_append, ← hjoin, List.isEmpty_eq_false_iff.2 hne, Bool.and_false]
  simp [laid]

/-- A line that ends in a literal stays as it is, ahead of lines whose literals are kept. -/
theorem kept_literal {ls : List Line} (h : Sound (('\n', true) :: l)) (hl : Kept l (laid false ls))
    (m : TiedText) (afterBlank : Bool) :
    Kept (m ++ ('\n', true) :: l) (laid afterBlank (⟨m.text, .literal⟩ :: ls)) := by
  have hne : laid false ls ≠ [] := by
    -- the next line begins within the literal, so that something is left of it
    intro hnil
    rw [hnil] at hl
    exact absurd (h.1 rfl (TiedText.tiedHead_of_free hl.free_of_nil)) (by decide)
  rw [laid_of_literal _ hne]
  exact (hl.keep ('\n', true)).prepend m

/-- A line that does not end in a literal, ahead of lines whose literals are kept. -/
theorem kept_finished {e : LineEnd} {ts : List Text} {ls : List Line} (he : e ≠ .literal)
    (hm : Finished m ts) (hl : tiedHead l = false) (hdrop : Kept l (laid true ls))
    (hkeep : ∀ b, Kept l ('\n' :: laid b ls)) (afterBlank : Bool) :
    Kept (m ++ l) (laid afterBlank (ts.map (⟨·, e⟩) ++ ls)) := by
  rcases hm with ⟨u, rfl, hu, hfree⟩ | ⟨hne, hts, hkept⟩
  · have hblank : (⟨u, e⟩ : Line).isBlank = true := by simp [Line.isBlank, hu, he]
    have hgone := Kept.of_free hfree
    rw [List.map_singleton, List.singleton_append]
    rcases laid_of_blank hblank afterBlank ls with hlaid | hlaid
    · rw [hlaid]
      exact hgone.append hdrop hl
    · rw [hlaid]
      exact hgone.append (hkeep true) hl
  · rw [laid_of_not_blank hne hts]
    exact hkept.append (hkeep false) hl

/-- Whether no import with a literal where it is broken takes several lines. -/
def sparesImports (style : Style) : List TiedText → List LineEnd → Bool
  | m :: ms, e :: es =>
    let line := endStatement style.semi m.text.trimEnd (ms.map TiedText.text)
    (e != .statement || wrapWide style line == [line] || spared m) && sparesImports style ms es
  | _, _ => true

theorem sparesImports_cons {ms : List TiedText} {e : LineEnd} {es : List LineEnd}
    (h : sparesImports style (m :: ms) (e :: es) = true) :
    (e = .statement →
      wrapWide style (endStatement style.semi m.text.trimEnd (ms.map TiedText.text)) ≠
        [endStatement style.semi m.text.trimEnd (ms.map TiedText.text)] → spared m = true) ∧
      sparesImports style ms es = true := by
  simp only [sparesImports, Bool.and_eq_true, Bool.or_eq_true, bne_iff_ne, beq_iff_eq] at h
  exact ⟨fun he hne => (h.1.resolve_left fun hor => hor.elim (· he) hne), h.2⟩

/-- Finishing keeps the literals of a text whose line breaks are recorded as they are tied. -/
theorem kept_lines (h : Sound m) {es : List LineEnd}
    (hes : TiedText.breakTies m ++ [false] = es.map (· == .literal))
    (hspared : sparesImports style (split '\n' m) es = true) (afterBlank : Bool) :
    Kept m (laid afterBlank (finishLines style (Text.splitOn '\n' m.text) es)) := by
  induction hlength : m.length using Nat.strong_induction_on generalizing m es afterBlank with
  | _ length ih =>
    rcases TiedText.exists_split '\n' m with hnone | ⟨m, b, l, rfl, hm⟩
    · rw [TiedText.breakTies_of_not_mem fun p hp hn => hnone (hn ▸ List.mem_map_of_mem hp)] at hes
      obtain ⟨e, rfl, he⟩ := List.map_eq_singleton_iff.1 hes.symm
      rw [TiedText.split_of_not_mem hnone] at hspared
      have hne : e ≠ .literal := by simpa using he
      obtain ⟨ts, hfinish, hts⟩ := exists_finishLine h hne (sparesImports_cons hspared).1
      have hkept : Kept (m ++ []) (laid afterBlank (ts.map (⟨·, e⟩) ++ [])) :=
        kept_finished hne hts rfl .nil (fun _ => .put '\n' rfl .nil) afterBlank
      have hlines : finishLines style [m.text] [e] = ts.map (⟨·, e⟩) ++ [] :=
        congrArg (· ++ []) hfinish
      rw [List.append_nil] at hkept
      rwa [Text.splitOn_of_not_mem hnone, hlines]
    · have hbreak : TiedText.breakTies (m ++ ('\n', b) :: l) = b :: TiedText.breakTies l := by
        rw [TiedText.breakTies_append,
          TiedText.breakTies_of_not_mem fun p hp hn => hm (hn ▸ List.mem_map_of_mem hp)]
        rfl
      rw [hbreak, List.cons_append, eq_comm, List.map_eq_cons_iff] at hes
      obtain ⟨e, es, rfl, rfl, hes⟩ := hes
      rw [TiedText.split_append_cons hm] at hspared
      obtain ⟨hspare, hrest⟩ := sparesImports_cons hspared
      have hsound := h.right
      have hlines := ih l.length (by rw [← hlength]; simp; omega) hsound.2.2 hes.symm hrest
      rw [TiedText.text_append, TiedText.text_cons, Text.splitOn_append_cons,
        Text.splitOn_of_not_mem hm, List.singleton_append, finishLines]
      cases he : e == .literal with
      | true =>
        obtain rfl : e = .literal := by simpa using he
        rw [he] at hsound
        exact kept_literal hsound (hlines false rfl) m afterBlank
      | false =>
        rw [he] at hsound
        have hnext : tiedHead l = false := by
          rw [← Bool.not_eq_true]
          exact fun ht => absurd (hsound.2.1 rfl ht) (by decide)
        rw [he] at h
        obtain ⟨ts, hfinish, hts⟩ := exists_finishLine (h.left rfl) (by simpa using he) hspare
        rw [TiedText.map_text_split] at hfinish
        rw [hfinish]
        exact kept_finished (by simpa using he) hts rfl ((hlines true rfl).drop '\n' hnext)
          (fun b => (hlines b rfl).keep ('\n', false)) afterBlank

end Lines

namespace Draft

variable {preferred : Char} {source : Text} {d : Draft}

/-- The literals that are read in a source, in their order. -/
def literals (preferred : Char) (source : Text) : List Text :=
  (trace preferred {} {} source).literals.reverse

/-- The text of the draft of a source, with its literals tied. -/
def tied (preferred : Char) (source : Text) (d : Draft) : TiedText :=
  (d.back.zip (trace preferred {} {} source).ties).reverse

/-- A draft without hidden line breaks has its literals tied, and its line breaks with them. -/
theorem collapse_tied (hp : preferred = '\'' ∨ preferred = '"')
    (h : collapse preferred source = .ok d) (hb : hiddenBreaks preferred {} source = 0) :
    (tied preferred source d).text = d.text ∧ Sound (tied preferred source d) ∧
      TiedText.breakTies (tied preferred source d) ++ [false] =
        d.lineEnds.map (· == .literal) ∧
      ∀ t, Kept (tied preferred source d) t → Text.InOrder (literals preferred source) t := by
  have htraces := read_traces hp (read_of_collapse h) hb traces_empty
  have hlength : (trace preferred {} {} source).ties.length = d.back.length := htraces.length
  refine ⟨?_, ?_, ?_, fun t ht => ?_⟩
  · rw [TiedText.text, tied, List.map_reverse, text]
    exact congrArg List.reverse (List.map_fst_zip hlength.ge)
  · have hsound := htraces.holds.sound (l := []) trivial rfl
    rw [List.append_nil] at hsound
    exact hsound.1
  · rw [tied, TiedText.breakTies, List.filter_reverse, List.map_reverse, lineEnds, List.map_reverse,
      List.map_cons, List.reverse_cons]
    exact congrArg (List.reverse · ++ [false]) htraces.breaks
  · have hkept : Kept ((d.back.zip (trace preferred {} {} source).ties).reverse ++ []) t := by
      rwa [List.append_nil]
    obtain ⟨u, v, rfl, horder, -⟩ := htraces.holds.exists_inOrder hkept
    exact horder.append_right v

end Draft

/-- Whether laying out a script leaves its literals alone: no regular expression holds a line break,
and no import is broken into lines at a literal. -/
def sparesLiterals (style : Style) (source : Text) : Bool :=
  match Draft.collapse style.quote source with
  | .error _ => true
  | .ok d => Draft.hiddenBreaks style.quote {} source == 0 &&
      Lines.sparesImports style (split '\n' (Draft.tied style.quote source d)) d.lineEnds

/-- The literals of a source stand in it in their order, and in its normal form as well, if laying
it out spares them. -/
theorem normalize_keeps_literals {path : String} {o : StyleOverrides} {source y : Text}
    (hs : isScript path = true) (h : normalize path o source = .ok y)
    (hspared : sparesLiterals o.resolve source = true) :
    Text.InOrder (Draft.literals o.resolve.quote source) source ∧
      Text.InOrder (Draft.literals o.resolve.quote source) y := by
  rw [normalize_of_script hs] at h
  obtain ⟨d, hd, rfl⟩ := normalizeScript_eq_ok_iff.1 h
  have hq := Import.isMark_quote o.resolve
  obtain ⟨ls, hls, hsource⟩ := Draft.exists_trace_literals hq {} (Draft.read_of_collapse hd)
  rw [List.append_nil] at hls
  simp only [sparesLiterals, hd, Bool.and_eq_true, beq_iff_eq] at hspared
  obtain ⟨htext, hsound, hbreaks, hkeeps⟩ := Draft.collapse_tied hq hd hspared.1
  have hlines := Lines.kept_lines hsound hbreaks hspared.2 true
  rw [htext] at hlines
  refine ⟨by rwa [Draft.literals, hls], hkeeps _ ?_⟩
  rwa [Lines.finish, Lines.assemble_eq_joinLines]

/-- An import is broken around a comment, and a template literal keeps its blank lines. -/
theorem normalize_keeps_comment_and_template :
    let source := "import { alpha /* a */, beta } from './x'\nf(\x60a  \n\n\n b\x60)\n".toList
    let y := ("import \x7b\n  alpha /* a */,\n  beta,\n\x7d from './x'\n" ++
      "f(\x60a  \n\n\n b\x60)\n").toList
    isScript "a.js" = true ∧ normalize "a.js" { printWidth := some 20 } source = .ok y ∧
      sparesLiterals (StyleOverrides.resolve { printWidth := some 20 }) source = true ∧
      Draft.literals '\'' source = ["/* a */".toList, "./x".toList, "a  \n\n\n b\x60".toList] ∧
      Text.InOrder (Draft.literals '\'' source) y := by
  intro source y
  have hs : isScript "a.js" = true := by decide
  have h : normalize "a.js" { printWidth := some 20 } source = .ok y := by decide +kernel
  have hspared :
      sparesLiterals (StyleOverrides.resolve { printWidth := some 20 }) source = true := by
    decide +kernel
  exact ⟨hs, h, hspared, by decide +kernel, (normalize_keeps_literals hs h hspared).2⟩

/-- A comment in a wide import is broken at its comma. -/
theorem normalize_breaks_comment :
    isScript "a.js" = true ∧
      normalize "a.js" { printWidth := some 20 }
        "import { alpha /* a, b */, beta } from './x'\n".toList =
          .ok "import \x7b\n  alpha /* a,\n  b */,\n  beta,\n\x7d from './x'\n".toList ∧
      Draft.literals '\'' "import { alpha /* a, b */, beta } from './x'\n".toList =
        ["/* a, b */".toList, "./x".toList] ∧
      ¬ Text.InOrder ["/* a, b */".toList, "./x".toList]
        "import \x7b\n  alpha /* a,\n  b */,\n  beta,\n\x7d from './x'\n".toList := by
  refine ⟨by decide, by decide +kernel, by decide +kernel, fun h => ?_⟩
  have hnot : ¬ "/* a, b */".toList <:+:
      "import \x7b\n  alpha /* a,\n  b */,\n  beta,\n\x7d from './x'\n".toList := by
    decide +kernel
  exact hnot h.isInfix

end ProjectSetup
