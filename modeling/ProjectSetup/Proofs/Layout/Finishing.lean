import Mathlib.Data.List.Basic
import Mathlib.Data.List.TakeWhile
import ProjectSetup.Layout.Normal
import ProjectSetup.Proofs.Text.Firm
import ProjectSetup.Proofs.Text.Splitting

/-!
# What finishing keeps

Finishing trims lines, drops blank lines, ends statements as the style asks and wraps wide imports.
It keeps every character that is neither a blank nor a comma nor a semicolon, as long as its line
has a record of how it ends.
-/
namespace ProjectSetup

/-- A kind of characters that laying out lines neither adds nor drops: no blanks and no commas. -/
structure Lasting (p : Char → Bool) : Prop where
  blank : ∀ c, Text.isBlank c = true → p c = false
  comma : p ',' = false

namespace Lines

variable {p : Char → Bool}

theorem filter_of_blank (hp : Lasting p) {t : Text} (h : t.blank = true) : t.filter p = [] := by
  rw [List.filter_eq_nil_iff]
  intro c hc
  rw [hp.blank c (List.all_eq_true.1 h c hc)]
  exact Bool.false_ne_true

theorem flatMap_squeeze (hp : Lasting p) (afterBlank : Bool) (ls : List Line) :
    (squeeze afterBlank ls).flatMap (List.filter p) = ls.flatMap fun l => l.text.filter p := by
  induction ls generalizing afterBlank with
  | nil => rfl
  | cons l ls ih =>
    rw [squeeze, List.flatMap_cons]
    split
    · next hb =>
      rw [filter_of_blank hp (Bool.and_eq_true_iff.1 hb).1]
      split
      · exact ih true
      · exact ih true
    · rw [List.flatMap_cons, ih]

theorem flatMap_dropEmptyEnd {f : Text → Text} (hf : f [] = []) (ls : List Text) :
    (dropEmptyEnd ls).flatMap f = ls.flatMap f := by
  have hdrop (ks : List Text) : (ks.dropWhile List.isEmpty).reverse.flatMap f =
      ks.reverse.flatMap f := by
    induction ks with
    | nil => rfl
    | cons k ks ih =>
      cases k with
      | nil =>
        rw [List.dropWhile_cons_of_pos rfl, ih, List.reverse_cons, List.flatMap_append]
        simp [hf]
      | cons c k => rfl
  rw [dropEmptyEnd, hdrop, List.reverse_reverse]

/-- Joining lines keeps what is lasting in them. -/
theorem filter_assemble (hp : Lasting p) (ls : List Line) :
    (assemble ls).filter p = ls.flatMap fun l => l.text.filter p := by
  have hn : p '\n' = false := hp.blank '\n' (by decide)
  rw [← flatMap_squeeze hp true ls, ← flatMap_dropEmptyEnd List.filter_nil, assemble]
  split
  · next he => rw [he]; rfl
  · rw [List.filter_append, Text.filter_join (by simp [hn])]
    simp [hn]

theorem exists_squeeze (hp : Lasting p) (afterBlank : Bool) (front : List Line) {l : Line}
    (back : List Line) (hl : l.isBlank = false) :
    ∃ ts us, squeeze afterBlank (front ++ l :: back) = ts ++ l.text :: us ∧
      ts.flatMap (List.filter p) = front.flatMap fun l => l.text.filter p := by
  induction front generalizing afterBlank with
  | nil => exact ⟨[], squeeze false back, by simp [squeeze, hl], rfl⟩
  | cons k front ih =>
    rw [List.cons_append, squeeze]
    by_cases hk : k.isBlank = true
    · obtain ⟨ts, us, h, hts⟩ := ih true
      have hnil : k.text.filter p = [] := filter_of_blank hp (Bool.and_eq_true_iff.1 hk).1
      rw [if_pos hk, h]
      cases afterBlank with
      | true => exact ⟨ts, us, rfl, by rw [List.flatMap_cons, hnil, hts]; rfl⟩
      | false =>
        exact ⟨[] :: ts, us, rfl, by rw [List.flatMap_cons, List.flatMap_cons, hnil, hts]; rfl⟩
    · obtain ⟨ts, us, h, hts⟩ := ih false
      rw [if_neg hk, h]
      exact ⟨k.text :: ts, us, rfl, by rw [List.flatMap_cons, List.flatMap_cons, hts]⟩

theorem exists_dropEmptyEnd (ts : List Text) {t : Text} (ht : t ≠ []) (us : List Text) :
    ∃ vs, dropEmptyEnd (ts ++ t :: us) = ts ++ t :: vs := by
  have hkeep : (t :: ts.reverse).dropWhile List.isEmpty = t :: ts.reverse :=
    List.dropWhile_cons_of_neg (by simpa using ht)
  rw [dropEmptyEnd, List.reverse_append, List.reverse_cons, List.append_assoc,
    List.singleton_append, List.dropWhile_append]
  split
  · exact ⟨[], by rw [hkeep, List.reverse_cons, List.reverse_reverse]⟩
  · exact ⟨(us.reverse.dropWhile List.isEmpty).reverse, by simp⟩

/-- A line that is not blank stands in the joined text behind what is lasting in the lines ahead
of it. -/
theorem exists_assemble (hp : Lasting p) (front : List Line) {l : Line} (back : List Line)
    (hl : l.text.blank = false) :
    ∃ s t, assemble (front ++ l :: back) = s ++ l.text ++ t ∧
      s.filter p = front.flatMap fun l => l.text.filter p := by
  have hsep : (['\n'] : Text).filter p = [] := by simp [hp.blank '\n' (by decide)]
  have hblank : l.isBlank = false := by simp [Line.isBlank, hl]
  have hne : l.text ≠ [] := by
    intro h
    rw [h] at hl
    cases hl
  obtain ⟨ts, us, hsqueeze, hts⟩ := exists_squeeze hp true front back hblank
  obtain ⟨vs, hdrop⟩ := exists_dropEmptyEnd ts hne us
  obtain ⟨s, t, hjoin, hs⟩ := Text.exists_join hsep ts l.text vs
  refine ⟨s, t ++ ['\n'], ?_, hs.trans hts⟩
  rw [assemble, hsqueeze, hdrop]
  split
  · next he => exact absurd he (by simp)
  · rw [hjoin]
    simp only [List.append_assoc]

theorem flatMap_itemLines (hp : Lasting p) (comma : Bool) (items : List Text) :
    (NamedImport.itemLines comma items).flatMap (List.filter p) =
      items.flatMap (List.filter p) := by
  have hs : p ' ' = false := hp.blank ' ' (by decide)
  fun_induction NamedImport.itemLines comma items with
  | case1 => rfl
  | case2 i => cases comma <;> simp [hs, hp.comma]
  | case3 i is _ ih =>
    rw [List.flatMap_cons, List.flatMap_cons, ih]
    simp [hs, hp.comma]

theorem flatMap_items (hp : Lasting p) (list : Text) :
    (((Text.splitOn ',' list).map Text.trim).filter (!·.isEmpty)).flatMap (List.filter p) =
      list.filter p := by
  have hitems (ps : List Text) :
      ((ps.map Text.trim).filter (!·.isEmpty)).flatMap (List.filter p) =
        ps.flatMap (List.filter p) := by
    induction ps with
    | nil => rfl
    | cons t ps ih =>
      have ht : t.trim.filter p = t.filter p := by
        rw [Text.trim, Text.filter_trimEnd fun c _ => hp.blank c,
          Text.filter_trimStart fun c _ => hp.blank c]
      rw [List.map_cons, List.filter_cons, List.flatMap_cons]
      split
      · rw [List.flatMap_cons, ih, ht]
      · next he =>
        have hnil : t.trim = [] := by simpa using he
        rw [ih, ← ht, hnil]
        rfl
  rw [hitems, Text.flatMap_splitOn hp.comma]

/-- The names in braces stand between blanks, and the word `from` follows them. -/
theorem ofBraces?_eq_some {head t : Text} {i : NamedImport}
    (h : NamedImport.ofBraces? head t = some i) :
    ∃ list, t = ['{', ' '] ++ (list ++ [' ']) ++ ("\x7d from ".toList ++ i.tail) ∧ i.head = head ∧
      i.items = ((Text.splitOn ',' list).map Text.trim).filter (!·.isEmpty) ∧ '}' ∉ list := by
  simp only [NamedImport.ofBraces?, Option.bind_eq_bind, Option.bind_eq_some_iff] at h
  obtain ⟨inner, hinner, tail, htail, h⟩ := h
  have hpre := List.prefix_iff_eq_append.1
    (List.takeWhile_prefix (l := inner) fun c => decide (c ≠ '{') && decide (c ≠ '}'))
  have hbrace : '}' ∉ inner.takeWhile fun c => decide (c ≠ '{') && decide (c ≠ '}') := by
    intro hm
    simpa using List.mem_takeWhile_imp hm
  generalize inner.takeWhile (fun c => decide (c ≠ '{') && decide (c ≠ '}')) = list at *
  rw [Text.after?_eq_some_iff] at hinner htail
  split at h
  · next hend =>
    cases h
    have hlast : list.getLast? = some ' ' := by
      simpa using (Bool.and_eq_true_iff.1 hend).1
    have hlist := List.dropLast_append_getLast? ' ' hlast
    refine ⟨list.dropLast, ?_, rfl, rfl, fun hm => hbrace (List.dropLast_subset list hm)⟩
    rw [hlist, hinner, ← htail, List.append_assoc, hpre]
  · cases h

/-- A line that imports names holds its parts in order. -/
theorem ofLine?_eq_some {line : Text} {i : NamedImport} (h : NamedImport.ofLine? line = some i) :
    ∃ list, line = "import ".toList ++ i.head ++
        (['{', ' '] ++ (list ++ [' ']) ++ ("\x7d from ".toList ++ i.tail)) ∧
      i.items = ((Text.splitOn ',' list).map Text.trim).filter (!·.isEmpty) ∧ '}' ∉ list ∧
        ∀ c ∈ i.head, NamedImport.isBinding c = true ∨ c ∈ [',', ' '] := by
  simp only [NamedImport.ofLine?, Option.bind_eq_bind, Option.bind_eq_some_iff] at h
  obtain ⟨rest, hrest, h⟩ := h
  have hpre := List.prefix_iff_eq_append.1
    (List.takeWhile_prefix (l := rest) NamedImport.isBinding)
  rw [Text.after?_eq_some_iff] at hrest
  split at h
  · next braces hbraces =>
    rw [Text.after?_eq_some_iff] at hbraces
    split at h
    · cases h
    · obtain ⟨list, ht, hhead, hitems, hbrace⟩ := ofBraces?_eq_some h
      have hline : rest.takeWhile NamedImport.isBinding ++ ([',', ' '] ++ braces) = rest := by
        rw [← hbraces, hpre]
      refine ⟨list, ?_, hitems, hbrace, fun c hc => ?_⟩
      · rw [hrest, hhead, ← ht, List.append_assoc, List.append_assoc, hline]
      · rw [hhead] at hc
        exact (List.mem_append.1 hc).imp List.mem_takeWhile_imp id
  · obtain ⟨list, ht, hhead, hitems, hbrace⟩ := ofBraces?_eq_some h
    refine ⟨list, ?_, hitems, hbrace, fun c hc => ?_⟩
    · rw [hrest, hhead, ← ht, List.append_nil]
    · rw [hhead] at hc
      cases hc

/-- A wide import keeps what is lasting in its line. -/
theorem flatMap_wrapped (hp : Lasting p) {line : Text} {i : NamedImport}
    (h : NamedImport.ofLine? line = some i) (commas : TrailingComma) :
    (i.wrapped commas).flatMap (List.filter p) = line.filter p := by
  have hspace : ([' '] : Text).filter p = [] := by simp [hp.blank ' ' (by decide)]
  have hopen : (['{', ' '] : Text).filter p = ['{'].filter p := by
    rw [← List.singleton_append, List.filter_append, hspace, List.append_nil]
  obtain ⟨list, hline, hitems, -⟩ := ofLine?_eq_some h
  rw [NamedImport.wrapped, List.cons_append, List.flatMap_cons, List.flatMap_append,
    flatMap_itemLines hp, hitems, flatMap_items hp, hline]
  simp only [List.filter_append, hopen, hspace, List.flatMap_cons, List.flatMap_nil,
    List.append_nil, List.nil_append, List.append_assoc]

/-- A line stays as it is, or imports names and is broken into lines. -/
theorem wrapWide_cases (style : Style) (line : Text) : wrapWide style line = [line] ∨
    ∃ i, NamedImport.ofLine? line = some i ∧
      wrapWide style line = i.wrapped style.trailingComma := by
  unfold wrapWide
  split
  · split
    · next i hi =>
      split
      · exact .inl rfl
      · exact .inr ⟨i, hi, rfl⟩
    · exact .inl rfl
  · exact .inl rfl

theorem flatMap_wrapWide (hp : Lasting p) (style : Style) (line : Text) :
    (wrapWide style line).flatMap (List.filter p) = line.filter p := by
  rcases wrapWide_cases style line with hone | ⟨i, hi, hwrap⟩
  · rw [hone, List.flatMap_singleton]
  · rw [hwrap, flatMap_wrapped hp hi style.trailingComma]

theorem wrapWide_of_none {line : Text} (h : NamedImport.ofLine? line = none) (style : Style) :
    wrapWide style line = [line] := by
  rw [wrapWide, h]
  exact ite_self _

/-- A statement stays as it is, gains its semicolon or loses it. -/
theorem endStatement_cases (semi : Bool) (line : Text) (following : List Text) :
    endStatement semi line following = line ∨
      (semi = true ∧ isModuleDeclaration line = true ∧
        endStatement semi line following = line ++ [';']) ∨
      (semi = false ∧ hazardAhead following = false ∧
        ∃ front, line = front ++ [';'] ∧ endStatement semi line following = Text.trimEnd front) := by
  unfold endStatement
  split
  · next hsemi =>
    split
    · next hmodule => exact .inr (.inl ⟨hsemi, (Bool.and_eq_true_iff.1 hmodule).1, rfl⟩)
    · exact .inl rfl
  · next hsemi =>
    split
    · next hdrop =>
      obtain ⟨hlast, hhazard⟩ := Bool.and_eq_true_iff.1 hdrop
      have hline := List.dropLast_append_getLast? ';' (by simpa using hlast)
      exact .inr (.inr ⟨by simpa using hsemi, by simpa using hhazard, _, hline.symm, rfl⟩)
    · exact .inl rfl

theorem endStatement_congr {semi : Bool} {ts us : List Text}
    (h : semi = true ∨ hazardAhead ts = hazardAhead us) (line : Text) :
    endStatement semi line ts = endStatement semi line us := by
  rcases h with rfl | h
  · rfl
  · rw [endStatement, endStatement, h]

theorem filter_endStatement (hp : Lasting p) (hs : p ';' = false) (semi : Bool) (line : Text)
    (following : List Text) : (endStatement semi line following).filter p = line.filter p := by
  rcases endStatement_cases semi line following with hend | ⟨-, -, hend⟩ | ⟨-, -, front, rfl, hend⟩
  · rw [hend]
  · rw [hend]
    simp [hs]
  · rw [hend, Text.filter_trimEnd fun c _ => hp.blank c]
    simp [hs]

/-- A line keeps what is lasting in it if the end of its statement does. -/
theorem flatMap_finishLine (hp : Lasting p) (style : Style) (l : Line) (following : List Text)
    (he : l.ending = .statement →
      (endStatement style.semi l.text.trimEnd following).filter p = l.text.trimEnd.filter p) :
    (finishLine style l following).flatMap (fun l => l.text.filter p) = l.text.filter p := by
  have htrim : l.text.trimEnd.filter p = l.text.filter p :=
    Text.filter_trimEnd fun c _ => hp.blank c
  unfold finishLine
  split
  · simp
  · simp [htrim]
  · next hl => rw [List.flatMap_map, flatMap_wrapWide hp, he hl, htrim]

theorem flatMap_finishLines (hp : Lasting p) (hs : p ';' = false) (style : Style)
    (ts : List Text) (es : List LineEnd) :
    (finishLines style ts es).flatMap (fun l => l.text.filter p) =
      (ts.take es.length).flatMap (List.filter p) := by
  induction ts generalizing es with
  | nil => simp [finishLines]
  | cons t ts ih =>
    cases es with
    | nil => simp [finishLines]
    | cons e es =>
      rw [finishLines, List.flatMap_append, ih, List.length_cons, List.take_succ_cons,
        List.flatMap_cons, flatMap_finishLine hp]
      intro _
      exact filter_endStatement hp hs style.semi t.trimEnd ts

/-- Finishing keeps what is lasting, other than semicolons, in the lines that have a record. -/
theorem filter_finish (hp : Lasting p) (hs : p ';' = false) (style : Style) (text : Text)
    (ends : List LineEnd) :
    (finish style text ends).filter p =
      ((Text.splitOn '\n' text).take ends.length).flatMap (List.filter p) := by
  rw [finish, filter_assemble hp, flatMap_finishLines hp hs]

end Lines

/-- The normal form of a script is its draft, finished. -/
theorem normalizeScript_eq_ok_iff {style : Style} {source y : Text} :
    normalizeScript style source = .ok y ↔ ∃ d, Draft.collapse style.quote source = .ok d ∧
      Lines.finish style d.text d.lineEnds = y := by
  rw [normalizeScript]
  cases hd : Draft.collapse style.quote source with
  | error f => simp [Except.map]
  | ok d => simp [Except.map]

theorem normalize_of_script {path : String} (h : isScript path = true) (o : StyleOverrides)
    (source : Text) : normalize path o source = normalizeScript o.resolve source := by
  rw [normalize, if_pos h]

theorem normalize_of_plain {path : String} (h : isScript path = false) (o : StyleOverrides)
    (source : Text) : normalize path o source = .ok (Lines.tidy source) := by
  rw [normalize, if_neg (by rw [h]; exact Bool.false_ne_true)]

end ProjectSetup
