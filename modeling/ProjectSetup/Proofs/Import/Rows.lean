import ProjectSetup.Proofs.Import.Reading

/-!
# Rows of a header

A header is a list of rows: blank lines, and imports with or without a semicolon. A wide import is
read as one row, whatever lines it takes.
-/
namespace ProjectSetup

open Lines (NamedImport)

namespace Text

theorem trimEnd_of_getLast? {t : Text} {c : Char} (hlast : t.getLast? = some c)
    (hc : isBlank c = false) : t.trimEnd = t := by
  have hhead : t.reverse.head? = some c := by rw [List.head?_reverse, hlast]
  obtain ⟨r, hr⟩ : ∃ r, t.reverse = c :: r := ⟨t.reverse.tail, List.eq_cons_of_mem_head? hhead⟩
  rw [trimEnd, hr, List.dropWhile_cons_of_neg (by simp [hc]), ← hr, List.reverse_reverse]

end Text

namespace Header

theorem joinLines_cons (l : Text) (ls : List Text) :
    joinLines (l :: ls) = l ++ '\n' :: joinLines ls := by
  simp [joinLines]

theorem joinLines_append (ks ls : List Text) :
    joinLines (ks ++ ls) = joinLines ks ++ joinLines ls := List.flatMap_append

theorem joinLines_flatMap {α : Type} (f : α → List Text) (as : List α) :
    joinLines (as.flatMap f) = as.flatMap fun a => joinLines (f a) := List.flatMap_assoc

theorem filter_joinLines {p : Char → Bool} (hp : p '\n' = false) (ls : List Text) :
    (joinLines ls).filter p = ls.flatMap (List.filter p) := by
  induction ls with
  | nil => rfl
  | cons l ls ih =>
    rw [joinLines_cons, List.filter_append, List.filter_cons_of_neg (by simp [hp]), ih,
      List.flatMap_cons]

end Header

namespace Import

variable {i : Import} {q : Char}

theorem Phrase.trim {p : Text} (hp : Phrase p) : p.trim = p := by
  obtain ⟨x, hx, hlast⟩ := hp.exists_last
  obtain ⟨c, r, rfl, hc⟩ := hp.exists_cons
  have hstart : Text.trimStart (c :: r) = c :: r :=
    Text.trimStart_eq_self.2 fun y hy => by
      cases hy
      exact isBlank_of_isBinding hc
  rw [Text.trim, hstart, Text.trimEnd_of_getLast? hx (isBlank_of_isBinding hlast)]

/-- A phrase holds characters of names and blanks only. -/
theorem Phrase.chars {p : Text} (hp : Phrase p) :
    ∀ c ∈ p, NamedImport.isBinding c = true ∨ c = ' ' := by
  induction hp with
  | name ht => exact fun c hc => .inl (ht.chars c hc)
  | cons ht _ ih =>
    intro c hc
    rcases List.mem_append.1 hc with hc | hc
    · exact .inl (ht.chars c hc)
    · rcases List.mem_cons.1 hc with rfl | hc
      · exact .inr rfl
      · exact ih c hc

theorem Phrase.not_mem {p : Text} (hp : Phrase p) {m : Char} (hm : m ∈ marks) : m ∉ p := by
  intro hmem
  rcases hp.chars m hmem with h | rfl
  · exact not_mem_marks h hm
  · exact absurd hm (by decide)

theorem map_trim_splitOn_blank (t : Text) :
    (Text.splitOn ',' (' ' :: t)).map Text.trim = (Text.splitOn ',' t).map Text.trim := by
  have hne : ' ' ≠ ',' := by decide
  obtain ⟨p, ps, ht, hcons⟩ := Text.splitOn_cons_of_ne hne t
  have hblank : Text.isBlank ' ' = true := by decide
  rw [ht, hcons, List.map_cons, List.map_cons, Text.trim, Text.trim, Text.trimStart,
    List.dropWhile_cons_of_pos hblank]
  rfl

/-- Names are found again between the commas. -/
theorem map_trim_splitOn_join {names : List Text} (hne : names ≠ [])
    (hphrase : ∀ p ∈ names, Phrase p) :
    (Text.splitOn ',' (Text.join [',', ' '] names)).map Text.trim = names := by
  induction names with
  | nil => exact absurd rfl hne
  | cons p ps ih =>
    have hp := hphrase p List.mem_cons_self
    have hcomma : ',' ∉ p := hp.not_mem (by decide)
    cases ps with
    | nil => rw [Text.join_singleton, Text.splitOn_of_not_mem hcomma, List.map_singleton, hp.trim]
    | cons p' ps =>
      have hrest := ih (List.cons_ne_nil p' ps) fun p hp => hphrase p (List.mem_cons_of_mem _ hp)
      rw [Text.join_cons _ _ _ (List.cons_ne_nil p' ps), List.append_assoc, List.cons_append,
        List.singleton_append, Text.splitOn_append_cons, Text.splitOn_of_not_mem hcomma,
        List.map_append, map_trim_splitOn_blank, hrest, List.map_singleton, hp.trim]
      rfl

theorem mem_join_names {names : List Text} (hphrase : ∀ p ∈ names, Phrase p) {c : Char}
    (hc : c ∈ Text.join [',', ' '] names) : NamedImport.isBinding c = true ∨ c ∈ [',', ' '] := by
  induction names with
  | nil => cases hc
  | cons p ps ih =>
    have hname (hc : c ∈ p) : NamedImport.isBinding c = true ∨ c ∈ [',', ' '] := by
      rcases (hphrase p List.mem_cons_self).chars c hc with h | rfl
      · exact .inl h
      · exact .inr (by decide)
    cases ps with
    | nil => exact hname hc
    | cons p' ps =>
      rw [Text.join_cons _ _ _ (List.cons_ne_nil p' ps), List.mem_append, List.mem_append] at hc
      rcases hc with (hc | hc) | hc
      · exact hname hc
      · exact .inr hc
      · exact ih (fun p hp => hphrase p (List.mem_cons_of_mem _ hp)) hc

theorem ofBraces?_names {names : List Text} (hne : names ≠ []) (hphrase : ∀ p ∈ names, Phrase p)
    (head : Text) {tail : Text} (htail : tail ≠ []) :
    NamedImport.ofBraces? head
        ('{' :: (Draft.braced [' '] [' ', '}'] names ++ (" from ".toList ++ tail))) =
      some ⟨head, names, tail⟩ := by
  have hinner : Text.after? ['{', ' ']
      ('{' :: (Draft.braced [' '] [' ', '}'] names ++ (" from ".toList ++ tail))) =
        some ((Text.join [',', ' '] names ++ [' ']) ++ ("\x7d from ".toList ++ tail)) := by
    rw [braced_eq_join hne, Text.after?_eq_some_iff]
    simp only [List.append_assoc, List.cons_append, List.nil_append]
    rfl
  have hlist : ((Text.join [',', ' '] names ++ [' ']) ++ ("\x7d from ".toList ++ tail)).takeWhile
      (fun c => decide (c ≠ '{') && decide (c ≠ '}')) = Text.join [',', ' '] names ++ [' '] := by
    rw [List.takeWhile_append_of_pos]
    · exact List.append_nil _
    · intro c hc
      rcases List.mem_append.1 hc with hc | hc
      · have hbrace : ∀ m ∈ ['{', '}'], NamedImport.isBinding m = false ∧ m ∉ [',', ' '] := by
          decide
        have hno : c ∉ ['{', '}'] := by
          intro hm
          rcases mem_join_names hphrase hc with h | h
          · rw [(hbrace c hm).1] at h
            cases h
          · exact (hbrace c hm).2 h
        simpa using hno
      · rw [List.mem_singleton.1 hc]
        rfl
  have hitems : ((Text.splitOn ',' (Text.join [',', ' '] names)).map Text.trim).filter
      (!·.isEmpty) = names := by
    rw [map_trim_splitOn_join hne hphrase, List.filter_eq_self]
    intro p hp
    obtain ⟨c, r, rfl, -⟩ := (hphrase p hp).exists_cons
    rfl
  have hdrop : Text.after? "\x7d from ".toList (((Text.join [',', ' '] names ++ [' ']) ++
      ("\x7d from ".toList ++ tail)).drop (Text.join [',', ' '] names ++ [' ']).length) =
        some tail := by
    rw [List.drop_left, Text.after?_eq_some_iff]
  have hempty : tail.isEmpty = false := by simpa using htail
  simp only [NamedImport.ofBraces?, hinner, Option.bind_eq_bind, Option.bind_some, hlist, hdrop,
    List.getLast?_concat, List.dropLast_concat, hempty, hitems]
  rfl

theorem ofLine?_of_after {line rest : Text} (h : line = "import ".toList ++ rest) :
    NamedImport.ofLine? line =
      match Text.after? [',', ' '] (rest.drop (rest.takeWhile NamedImport.isBinding).length) with
      | some braces => if (rest.takeWhile NamedImport.isBinding).isEmpty then none
          else NamedImport.ofBraces? (rest.takeWhile NamedImport.isBinding ++ [',', ' ']) braces
      | none => NamedImport.ofBraces? [] rest := by
  rw [NamedImport.ofLine?, Text.after?_eq_some_iff.2 h]
  rfl

/-- Behind a name, the characters of names end where another character stands. -/
theorem takeWhile_name {t : Text} (ht : ∀ c ∈ t, NamedImport.isBinding c = true) {c : Char}
    (hc : NamedImport.isBinding c = false) (r : Text) :
    (t ++ c :: r).takeWhile NamedImport.isBinding = t := by
  rw [List.takeWhile_append_of_pos ht, List.takeWhile_cons_of_neg (by simp [hc]), List.append_nil]

/-- A line with names in braces is read as an import of them. -/
theorem Plain.ofLine?_spread (hi : i.Plain) (hnames : i.names ≠ []) (q : Char) (t : Text) :
    NamedImport.ofLine? (i.spread [' '] [' ', '}'] q ++ t) =
      some ⟨i.head, i.names, q :: (i.source ++ [q]) ++ t⟩ := by
  let tail := q :: (i.source ++ [q]) ++ t
  let braces := '{' :: (Draft.braced [' '] [' ', '}'] i.names ++ (" from ".toList ++ tail))
  have hline : i.spread [' '] [' ', '}'] q ++ t = "import ".toList ++ (i.head ++ braces) := by
    rw [spread_eq]
    simp only [List.append_assoc, List.cons_append, braces, tail]
  have hbraces (head : Text) : NamedImport.ofBraces? head braces = some ⟨head, i.names, tail⟩ :=
    ofBraces?_names hnames hi.names head (List.cons_ne_nil _ _)
  rw [ofLine?_of_after hline]
  cases hb : i.binding with
  | none =>
    have hhead : i.head = [] := by rw [head, hb]
    rw [hhead, List.nil_append, ← hbraces []]
    rfl
  | some b =>
    have hname := hi.binding b hb
    have hhead : i.head ++ braces = b ++ ',' :: ' ' :: braces := by
      rw [head, hb, List.append_assoc]
      rfl
    have hafter : Text.after? [',', ' '] (',' :: ' ' :: braces) = some braces := rfl
    have hempty : b.isEmpty = false := by simpa using hname.ne_nil
    rw [hhead, takeWhile_name hname.chars (by decide), List.drop_left, hafter]
    simp only [hempty, Bool.false_eq_true, if_false]
    rw [head, hb, hbraces]

theorem ofBraces?_of_head? {t : Text} (h : t.head? ≠ some '{') (head : Text) :
    NamedImport.ofBraces? head t = none := by
  have hafter : Text.after? ['{', ' '] t = none := by
    cases t with
    | nil => rfl
    | cons c t =>
      have hc : '{' ≠ c := fun he => h (by rw [he]; rfl)
      rw [Text.after?, if_neg hc]
  rw [NamedImport.ofBraces?, hafter]
  rfl

theorem ofLine?_eq_none {line n r : Text} {c : Char} (h : line = "import ".toList ++ (n ++ c :: r))
    (hn : ∀ c ∈ n, NamedImport.isBinding c = true) (hc : NamedImport.isBinding c = false)
    (hmark : c ≠ ',' ∧ c ≠ '{') : NamedImport.ofLine? line = none := by
  have hafter : Text.after? [',', ' '] (c :: r) = none := by
    rw [Text.after?, if_neg (Ne.symm hmark.1)]
  have hhead : (n ++ c :: r).head? ≠ some '{' := by
    cases n with
    | nil => simpa using hmark.2
    | cons x n =>
      intro he
      cases he
      exact absurd (hn _ List.mem_cons_self) (by decide)
  rw [ofLine?_of_after h, takeWhile_name hn hc, List.drop_left, hafter]
  exact ofBraces?_of_head? hhead []

/-- A line without names in braces is not read as an import of names. -/
theorem Plain.ofLine?_line (hi : i.Plain) (h : i.whole ≠ none ∨ i.names = []) (hq : IsMark q)
    (t : Text) : NamedImport.ofLine? (i.line q ++ t) = none := by
  -- a name may come first, and then a character that opens no list
  have hnone (n : Text) (c : Char) (hn : ∀ c ∈ n, NamedImport.isBinding c = true)
      (hc : NamedImport.isBinding c = false) (hmark : c ≠ ',' ∧ c ≠ '{')
      (hclause : ∃ r, i.clause ++ (q :: (i.source ++ [q]) ++ t) = n ++ c :: r) :
      NamedImport.ofLine? (i.line q ++ t) = none := by
    obtain ⟨r, hr⟩ := hclause
    refine ofLine?_eq_none (r := r) ?_ hn hc hmark
    rw [line_eq, ← hr]
    simp only [List.append_assoc, List.cons_append]
  obtain ⟨source, binding, names, whole⟩ := i
  cases whole with
  | some w =>
    refine hnone [] '*' (by decide) (by decide) (by decide) ?_
    simp only [clause, List.append_assoc]
    exact ⟨_, rfl⟩
  | none =>
    obtain rfl : names = [] := h.resolve_left (not_not.2 rfl)
    cases binding with
    | none =>
      rcases hq with rfl | rfl
      · exact hnone [] '\'' (by decide) (by decide) (by decide) ⟨_, rfl⟩
      · exact hnone [] '"' (by decide) (by decide) (by decide) ⟨_, rfl⟩
    | some b =>
      refine hnone b ' ' (hi.binding b rfl).chars (by decide) (by decide) ?_
      simp only [clause, List.append_assoc]
      exact ⟨_, rfl⟩

/-- The lines of names, behind the line break and ahead of the closing brace. -/
theorem joinLines_itemLines {names : List Text} (hne : names ≠ []) (comma : Bool) (r : Text) :
    '\n' :: (Header.joinLines (NamedImport.itemLines comma names) ++ '}' :: r) =
      Draft.braced ['\n', ' ', ' '] (Draft.closing comma '\n') names ++ r := by
  induction names with
  | nil => exact absurd rfl hne
  | cons p ps ih =>
    cases ps with
    | nil =>
      cases comma <;> simp [Header.joinLines, NamedImport.itemLines, Draft.braced, Draft.closing]
    | cons p' ps =>
      have hrest := ih (List.cons_ne_nil p' ps)
      have hitems : NamedImport.itemLines comma (p :: p' :: ps) =
          (' ' :: ' ' :: p ++ [',']) :: NamedImport.itemLines comma (p' :: ps) := rfl
      rw [hitems, Header.joinLines_cons, Draft.braced]
      simp only [List.append_assoc, List.cons_append, List.nil_append, ← hrest]

theorem joinLines_wrapped (head tail : Text) {names : List Text} (hne : names ≠ [])
    (commas : TrailingComma) :
    Header.joinLines (NamedImport.wrapped ⟨head, names, tail⟩ commas) =
      ("import ".toList ++ head) ++ ('{' ::
        Draft.braced ['\n', ' ', ' '] (Draft.closing (commas != .none) '\n') names ++
          (" from ".toList ++ tail)) ++ ['\n'] := by
  have hitems := joinLines_itemLines hne (commas != .none) (" from ".toList ++ tail ++ ['\n'])
  have hlines : Header.joinLines (NamedImport.wrapped ⟨head, names, tail⟩ commas) =
      ("import ".toList ++ head) ++ '{' :: '\n' ::
        (Header.joinLines (NamedImport.itemLines (commas != .none) names) ++
          '}' :: (" from ".toList ++ tail ++ ['\n'])) := by
    simp only [Header.joinLines, NamedImport.wrapped, List.flatMap_append, List.flatMap_cons,
      List.flatMap_nil, List.append_nil, List.append_assoc, List.cons_append, List.nil_append]
    rfl
  rw [hlines, hitems]
  simp only [List.append_assoc, List.cons_append]

/-- A line of a header: a blank one, or an import that a semicolon may end. -/
inductive Row where
  | blank
  | statement (i : Import) (closed : Bool)
  deriving DecidableEq

namespace Row

/-- The row as a line, with modules between the given quotes. -/
def text (quote : Char) : Row → Text
  | blank => []
  | statement i closed => i.line quote ++ if closed then [';'] else []

/-- What stands in the row has the plain form. -/
def Plain : Row → Prop
  | blank => True
  | statement i _ => i.Plain

/-- The lines that the row takes under a style. -/
def lines (style : Style) (r : Row) : List Text := Lines.wrapWide style (r.text style.quote)

end Row

/-- No quote, no line break and no bracket stands between the word `import` and the module. -/
theorem Plain.clause_chars (hi : i.Plain) : ∀ c ∈ i.clause, c ∉ ['\'', '"', '\n', '['] := by
  have hopen {c : Char} (hc : Draft.isOpen c = true) : c ∉ ['\'', '"', '\n', '['] := by
    have hno : ∀ m ∈ ['\'', '"', '\n', '['], Draft.isOpen m = false := by decide
    intro hm
    rw [hno c hm] at hc
    cases hc
  by_cases hclause : i.whole ≠ none ∨ i.names = []
  · exact fun c hc => hopen (hi.isOpen_clause hclause c (List.mem_append_right _ hc))
  · rw [not_or, not_not] at hclause
    rw [clause_of_names hclause.1 hclause.2]
    intro c hc
    rcases List.mem_append.1 hc with hc | hc
    · rcases List.mem_append.1 hc with hc | hc
      · rcases List.mem_append.1 hc with hc | hc
        · exact hopen (hi.isOpen_head c (List.mem_append_right _ hc))
        · exact (by decide : ∀ c ∈ ['{', ' '], c ∉ ['\'', '"', '\n', '[']) c hc
      · rcases mem_join_names hi.names hc with h | h
        · exact hopen (isOpen_of_isBinding h)
        · exact (by decide : ∀ c ∈ [',', ' '], c ∉ ['\'', '"', '\n', '[']) c h
    · exact (by decide : ∀ c ∈ " \x7d from ".toList, c ∉ ['\'', '"', '\n', '[']) c hc

theorem Plain.newline_not_mem (hi : i.Plain) (hq : IsMark q) : '\n' ∉ i.line q := by
  have hmark : '\n' ≠ q := by rcases hq with rfl | rfl <;> decide
  have hsource : '\n' ∉ i.source := fun hmem => (hi.source _ hmem).2.2.2 rfl
  have hclause : '\n' ∉ i.clause := fun hmem => hi.clause_chars _ hmem (by decide)
  have himport : '\n' ∉ "import ".toList := by decide
  rw [line_eq, List.mem_append, not_or]
  exact ⟨himport, by simp [hclause, hmark, hsource]⟩

theorem isMark_quote (style : Style) : IsMark style.quote := style.quote_cases

/-- An import with `stop` behind it takes one line for each name if it is wider than the style
allows and has two names or more, and one line otherwise. -/
theorem Plain.wrapWide_line (hi : i.Plain) (style : Style) (stop : Text) :
    Lines.wrapWide style (i.line style.quote ++ stop) =
      if style.printWidth < (i.line style.quote ++ stop).length ∧ i.whole = none ∧
          2 ≤ i.names.length then
        NamedImport.wrapped
          ⟨i.head, i.names, style.quote :: (i.source ++ [style.quote]) ++ stop⟩ style.trailingComma
      else [i.line style.quote ++ stop] := by
  by_cases hopen : i.whole ≠ none ∨ i.names = []
  · have hone : ¬(style.printWidth < (i.line style.quote ++ stop).length ∧ i.whole = none ∧
        2 ≤ i.names.length) := by
      rintro ⟨-, hwhole, hnames⟩
      rcases hopen with h | h
      · exact h hwhole
      · simp [h] at hnames
    rw [if_neg hone, Lines.wrapWide_of_none (hi.ofLine?_line hopen (isMark_quote style) stop)]
  · rw [not_or, not_not] at hopen
    have hspread : NamedImport.ofLine? (i.line style.quote ++ stop) =
        some ⟨i.head, i.names, style.quote :: (i.source ++ [style.quote]) ++ stop⟩ := by
      rw [line_of_names hopen.1 hopen.2]
      exact hi.ofLine?_spread hopen.2 style.quote stop
    rw [Lines.wrapWide, hspread]
    simp only [hopen.1, true_and, ite_and, ← not_lt, ite_not]

/-- An import with `stop` behind it takes one line, or one for each name. -/
theorem Plain.lines_cases (hi : i.Plain) (style : Style) (stop : Text) :
    Lines.wrapWide style (i.line style.quote ++ stop) = [i.line style.quote ++ stop] ∨
      i.whole = none ∧ i.names ≠ [] ∧ ∃ comma,
        Header.joinLines (Lines.wrapWide style (i.line style.quote ++ stop)) =
          i.spread ['\n', ' ', ' '] (Draft.closing comma '\n') style.quote ++ (stop ++ ['\n']) := by
  rw [hi.wrapWide_line]
  split
  · next hwide =>
    have hnames : i.names ≠ [] := List.ne_nil_of_length_pos (Nat.two_pos.trans_le hwide.2.2)
    refine .inr ⟨hwide.2.1, hnames, style.trailingComma != .none, ?_⟩
    rw [joinLines_wrapped _ _ hnames, spread_eq]
    simp only [List.append_assoc, List.cons_append]
  · exact .inl rfl

end Import

namespace Draft

open Import (Row)

variable {q : Char} {b : Draft}

/-- The draft with a line below it that ends a statement. -/
def addLine (b : Draft) (l : Text) : Draft := (b.write l).breakLine .statement

def addLines (b : Draft) (ls : List Text) : Draft := ls.foldl addLine b

theorem atLine_empty : ({} : Draft).AtLine := ⟨⟨rfl, rfl⟩, fun _ hc => by cases hc⟩

theorem AtLine.addLine (h : b.AtLine) (l : Text) : (b.addLine l).AtLine :=
  ⟨⟨h.frames, h.pad⟩, fun _ hc => (Option.some.inj hc).symm⟩

theorem AtLine.addLines (h : b.AtLine) (ls : List Text) : (b.addLines ls).AtLine := by
  induction ls generalizing b with
  | nil => exact h
  | cons l ls ih => exact ih (h.addLine l)

theorem addLines_recount (b : Draft) (ls : List Text) (n : Nat) :
    (b.recount n).addLines ls = (b.addLines ls).recount n := by
  induction ls generalizing b with
  | nil => rfl
  | cons l ls ih => exact ih (b.addLine l)

theorem Free.takes_newline (h : b.Free) : Takes q b ['\n'] (b.addLine []) := by
  intro rest
  have hend : b.lineEnd = .statement := by simp [lineEnd, top?, h.frames]
  refine ⟨b.line + 1, ?_⟩
  rw [List.singleton_append, read_gap h.joins (by decide), writeGap, if_pos rfl, hend]
  rfl

theorem addLine_append (b : Draft) (s t : Text) : b.addLine (s ++ t) = (b.write s).addLine t := by
  rw [addLine, addLine, write_write]

/-- Between statements, the text is read to the end of its line as it stands. -/
def Stops (q : Char) (stop : Text) : Prop :=
  ∀ b : Draft, b.Free → Takes q b (stop ++ ['\n']) (b.addLine stop)

theorem stops_open {t : Text} (ht : ∀ c ∈ t, isOpen c = true) : Stops q t := by
  intro b h
  rw [← List.append_nil t, addLine_append, List.append_nil]
  exact (h.takes ht).append fun n => ((h.write t).recount n).takes_newline

/-- An import is read as one line, whatever lines it takes. -/
theorem AtLine.takes_import (h : b.AtLine) {i : Import} (hi : i.Plain) (style : Style)
    {stop : Text} (hstop : Stops style.quote stop) :
    Takes style.quote b (Header.joinLines (Lines.wrapWide style (i.line style.quote ++ stop)))
      (b.addLine (i.line style.quote ++ stop)) := by
  have hq := Import.isMark_quote style
  have hend {t : Text} (ht : Takes style.quote b t (b.write (i.line style.quote))) :
      Takes style.quote b (t ++ (stop ++ ['\n'])) (b.addLine (i.line style.quote ++ stop)) := by
    rw [addLine_append]
    exact ht.append fun n => hstop _ ((h.write _).recount n)
  rcases hi.lines_cases style stop with hlines | ⟨hwhole, hnames, comma, hlines⟩
  · rw [hlines]
    have hone : Header.joinLines [i.line style.quote ++ stop] =
        i.line style.quote ++ (stop ++ ['\n']) := by
      simp [Header.joinLines]
    rw [hone]
    exact hend (hi.takes_line h hq hq)
  · rw [hlines]
    refine hend ?_
    rw [Import.line_of_names hwhole hnames]
    exact hi.takes_spread hnames h hq hq (List.cons_ne_nil _ _) (by decide) comma (by decide)

/-- A row is read as one line, whatever lines it takes. -/
theorem AtLine.takes_row (h : b.AtLine) {r : Row} (hr : r.Plain) (style : Style) :
    Takes style.quote b (Header.joinLines (r.lines style)) (b.addLine (r.text style.quote)) := by
  cases r with
  | blank =>
    have hlines : Row.blank.lines style = [[]] := Lines.wrapWide_of_none rfl style
    rw [hlines]
    exact h.takes_newline
  | statement i closed =>
    refine h.takes_import hr style (stops_open ?_)
    cases closed with
    | false => decide
    | true => decide

/-- At the beginning of a line, the text is read as the line `l`. -/
def Keeps (q : Char) (t l : Text) : Prop := ∀ b : Draft, b.AtLine → Takes q b t (b.addLine l)

theorem AtLine.takes_all {α : Type} {f g : α → Text} {as : List α} (h : b.AtLine)
    (has : ∀ a ∈ as, Keeps q (f a) (g a)) :
    Takes q b (as.flatMap f) (b.addLines (as.map g)) := by
  induction as generalizing b with
  | nil => exact fun rest => ⟨b.line, rfl⟩
  | cons a as ih =>
    rw [List.flatMap_cons]
    refine (has a List.mem_cons_self b h).append fun n => ?_
    have hrest := ih ((h.addLine (g a)).recount n) fun a ha => has a (List.mem_cons_of_mem _ ha)
    rw [addLines_recount] at hrest
    exact hrest

theorem AtLine.takes_rows (h : b.AtLine) {rows : List Row} (hrows : ∀ r ∈ rows, r.Plain)
    (style : Style) :
    Takes style.quote b (Header.joinLines (rows.flatMap (Row.lines style)))
      (b.addLines (rows.map (Row.text style.quote))) := by
  rw [Header.joinLines_flatMap]
  exact h.takes_all fun r hr _ hb => hb.takes_row (hrows r hr) style

theorem back_addLines (b : Draft) (ls : List Text) :
    (b.addLines ls).back = (Header.joinLines ls).reverse ++ b.back := by
  induction ls generalizing b with
  | nil => rfl
  | cons l ls ih =>
    rw [addLines, List.foldl_cons, ← addLines, ih, Header.joinLines_cons]
    simp [addLine, breakLine, write]

theorem ends_addLines (b : Draft) (ls : List Text) :
    (b.addLines ls).ends = List.replicate ls.length .statement ++ b.ends := by
  induction ls generalizing b with
  | nil => rfl
  | cons l ls ih =>
    rw [addLines, List.foldl_cons, ← addLines, ih, List.length_cons, List.replicate_succ',
      List.append_assoc]
    rfl

theorem Free.addLines (h : b.Free) (ls : List Text) : (b.addLines ls).Free := by
  induction ls generalizing b with
  | nil => exact h
  | cons l ls ih => exact ih ⟨h.frames, h.pad⟩

end Draft

end ProjectSetup
