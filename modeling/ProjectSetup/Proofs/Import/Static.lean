import ProjectSetup.Proofs.Import.Insertion
import ProjectSetup.Proofs.Layout.Hazards

/-!
# Static imports

An import on one line in any spacing: names, commas and asterisks up to the module, with names in
braces or without. Reading it leaves no bracket open, changes nothing but the spacing in its braces
and the quotes of its module, and does not look at what follows.
-/
namespace ProjectSetup

open Draft (Takes isOpen isGap read_open write_write)

namespace Members

variable {s : Seen} {c : Char}

theorem search_open (hc : isOpen c = true) (hbroken : s.broken = false) (rest : Text) :
    ∃ s', search s (c :: rest) = search s' rest ∧ s'.depth = s.depth ∧ s'.broken = false ∧
      s'.multiline = s.multiline := by
  have hmark : c ∉ marks := by
    have hno : ∀ m ∈ marks, isOpen m = false := by simp [marks, isOpen, Draft.isSingle, isGap]
    intro hm
    rw [hno c hm] at hc
    cases hc
  have hline : c ≠ '\n' := by
    rintro rfl
    cases hc
  cases hblank : Text.isBlank c with
  | true =>
    refine ⟨s, ?_, rfl, hbroken, rfl⟩
    rw [search, if_neg hline, if_pos hblank]
  | false =>
    have hparts : s.parts c = false := by simp [Seen.parts, hbroken]
    exact ⟨s.next c, search_of_not_mem hmark hblank hparts rest, depth_next_of_not_mem s hmark,
      rfl, rfl⟩

/-- Braces that close on the line of the opening one are written on one line. -/
theorem onOneLine_open {names : Text} (hnames : ∀ c ∈ names, isOpen c = true) (rest : Text) :
    onOneLine (names ++ '}' :: rest) = true := by
  have hsearch (s : Seen) (hdepth : s.depth = 1) (hbroken : s.broken = false)
      (hmultiline : s.multiline = false) : search s (names ++ '}' :: rest) = .closed true rest := by
    induction names generalizing s with
    | nil =>
      have hblank : Text.isBlank '}' = false := by decide
      rw [List.nil_append, search]
      simp [hblank, Seen.parts, hbroken, Seen.closes, hdepth, hmultiline]
    | cons c names ih =>
      obtain ⟨s', hs', hdepth', hbroken', hmultiline'⟩ :=
        search_open (hnames c List.mem_cons_self) hbroken (names ++ '}' :: rest)
      rw [List.cons_append, hs']
      exact ih (fun x hx => hnames x (List.mem_cons_of_mem c hx)) s' (hdepth'.trans hdepth) hbroken'
        (hmultiline'.trans hmultiline)
  rw [onOneLine, hsearch {} rfl rfl rfl]

end Members

namespace Draft

variable {q c : Char} {d e : Draft} {b x : Text}

/-- Blanks are taken back up to an opening brace. -/
theorem retract_brace (he : e.back = x ++ '{' :: b) : e.retract =
    { e with back := x.dropWhile (fun c => c == ' ' || c == '\t') ++ '{' :: b } := by
  have hdrop : (x ++ '{' :: b).dropWhile (fun c => c == ' ' || c == '\t') =
      x.dropWhile (fun c => c == ' ' || c == '\t') ++ '{' :: b := by
    rw [List.dropWhile_append]
    split
    · next h =>
      rw [List.isEmpty_iff.1 h]
      rfl
    · rfl
  rw [retract, he, hdrop]

theorem unbroken_dropWhile (hx : '\n' ∉ x) (p : Char → Bool) : '\n' ∉ x.dropWhile p :=
  fun hmem => hx ((List.dropWhile_suffix p).subset hmem)

theorem exists_endList (he : e.back = x ++ '{' :: b) (hx : '\n' ∉ x) :
    ∃ y, '\n' ∉ y ∧ e.endList .list = { e with back := y ++ '{' :: b } := by
  have hcomma : ∃ z, '\n' ∉ z ∧ (if e.retract.endsWith [','] then
      { e.retract with back := e.retract.back.tail }.retract else e.retract) =
        { e with back := z ++ '{' :: b } := by
    have hy := unbroken_dropWhile hx fun c => c == ' ' || c == '\t'
    rw [retract_brace he]
    generalize x.dropWhile (fun c => c == ' ' || c == '\t') = y at hy
    split
    · next h =>
      cases y with
      | nil => cases h
      | cons c y =>
        have htail : '\n' ∉ y := fun hmem => hy (List.mem_cons_of_mem c hmem)
        exact ⟨_, unbroken_dropWhile htail _,
          retract_brace (e := { e with back := y ++ '{' :: b }) rfl⟩
    · exact ⟨y, hy, rfl⟩
  obtain ⟨z, hz, hdrop⟩ := hcomma
  simp only [endList, hdrop]
  split
  · exact ⟨' ' :: z, by simp [hz], rfl⟩
  · exact ⟨z, hz, rfl⟩

theorem endList_recount (e : Draft) (f : Frame) (n : Nat) :
    (e.recount n).endList f = (e.endList f).recount n := by
  unfold endList
  simp only
  rw [apply_ite (fun d : Draft => d.recount n)]
  have hcomma : (if (e.recount n).retract.endsWith [','] then
      { (e.recount n).retract with back := (e.recount n).retract.back.tail }.retract
        else (e.recount n).retract) =
      (if e.retract.endsWith [','] then { e.retract with back := e.retract.back.tail }.retract
        else e.retract).recount n := by
    rw [apply_ite (fun d : Draft => d.recount n)]
    rfl
  rw [hcomma]
  rfl

/-- The draft inside a list with `x` written behind its brace, last character first. The brace
stands on line `m` of the source, and line `n` is read. -/
def inList (d : Draft) (x : Text) (pad : Bool) (m n : Nat) : Draft :=
  { d with back := x ++ '{' :: d.back, frames := [(.list, m)], line := n, pad }

theorem exists_space_inList (d : Draft) (hx : '\n' ∉ x) :
    ∃ y, '\n' ∉ y ∧ ∀ pad m n, (d.inList x pad m n).space = d.inList y pad m n := by
  by_cases h : (x ++ '{' :: d.back).head?.any [' '].contains = true
  · exact ⟨x, hx, fun pad m n => if_pos h⟩
  · exact ⟨' ' :: x, by simp [hx], fun pad m n => if_neg h⟩

theorem joins_inList (d : Draft) (x : Text) (pad : Bool) (m n : Nat) :
    (d.inList x pad m n).joins = true := rfl

/-- A step that reads `c` inside the list stays on the line and leaves an end of the names,
whichever line is read and whatever follows the closing brace. -/
def StaysInList (q : Char) (d : Draft) (x : Text) (pad : Bool) (c : Char) (names : Text) : Prop :=
  ∃ y pad' names', '\n' ∉ y ∧ names' <:+ names ∧
    ∀ m n rest, ∃ k, step q (d.inList x pad m n) c (names ++ '}' :: rest) =
      .ok (d.inList y pad' m k, names' ++ '}' :: rest)

/-- A run of blanks becomes one, or none ahead of a comma or of the closing brace. -/
theorem staysInList_gap (hgap : isGap c = true) (names : Text) (hx : '\n' ∉ x) (pad : Bool) :
    StaysInList q d x pad c names := by
  obtain ⟨y, hy, hspace⟩ := exists_space_inList d hx
  let names' := names.dropWhile isGap
  have hdrop (rest : Text) :
      (names ++ '}' :: rest).dropWhile isGap = names' ++ '}' :: rest := by
    have hstop : ('}' :: rest).dropWhile isGap = '}' :: rest := rfl
    rw [List.dropWhile_append, hstop]
    split
    · next h => rw [show names' = [] from List.isEmpty_iff.1 h, List.nil_append]
    · rfl
  have hhead (rest : Text) :
      (names' ++ '}' :: rest).head?.all [')', ']', '}', ','].contains =
        (names' ++ ['}']).head?.all [')', ']', '}', ','].contains := by
    cases names' with
    | nil => rfl
    | cons x names' => rfl
  let skip : Bool := (d.inList x pad 0 0).endsWith ['(', '['] ||
    (names' ++ ['}']).head?.all [')', ']', '}', ','].contains
  refine ⟨if skip then x else y, if skip then pad else false, names', ?_,
    List.dropWhile_suffix _, fun m n rest => ?_⟩
  · split
    · exact hx
    · exact hy
  · let run := c :: (names ++ '}' :: rest).takeWhile isGap
    refine ⟨n + run.count '\n', ?_⟩
    have hadvance : (d.inList x pad m n).advance run =
        d.inList x pad m (n + run.count '\n') := rfl
    have hskip : ((d.inList x pad m (n + run.count '\n')).endsWith ['(', '['] ||
        (names' ++ '}' :: rest).head?.all [')', ']', '}', ','].contains) = skip := by
      rw [hhead]
      rfl
    rw [step_gap hgap, hdrop, gap]
    simp only [run, hadvance, joins_inList, if_true, hspace] at hskip ⊢
    rw [hskip]
    cases skip with
    | true => rfl
    | false => rfl

theorem staysInList_comma (names : Text) (hx : '\n' ∉ x) (pad : Bool) :
    StaysInList q d x pad ',' names := by
  refine ⟨',' :: x.dropWhile fun c => c == ' ' || c == '\t', true, names, ?_,
    List.suffix_refl names, fun m n rest => ⟨n, ?_⟩⟩
  · rw [List.mem_cons, not_or]
    exact ⟨by decide, unbroken_dropWhile hx _⟩
  · have hretract : (d.inList x pad m n).retract =
        d.inList (x.dropWhile fun c => c == ' ' || c == '\t') pad m n := retract_brace rfl
    have hstep : step q (d.inList x pad m n) ',' (names ++ '}' :: rest) =
        .ok ((d.inList x pad m n).comma, names ++ '}' :: rest) := rfl
    rw [hstep, comma, joins_inList, if_pos rfl, hretract]
    rfl

theorem staysInList_single (hsingle : isSingle c = true) (names : Text) (hx : '\n' ∉ x)
    (pad : Bool) : StaysInList q d x pad c names := by
  obtain ⟨y, hy, hspace⟩ := exists_space_inList d hx
  have hn : c ≠ '\n' := by
    rintro rfl
    cases hsingle
  refine ⟨c :: (if pad then y else x), false, names, ?_, List.suffix_refl names,
    fun m n rest => ⟨n, ?_⟩⟩
  · rw [List.mem_cons, not_or]
    refine ⟨hn.symm, ?_⟩
    split
    · exact hy
    · exact hx
  · rw [step_single hsingle, token, settle]
    cases pad with
    | true =>
      have h := hspace true m n
      simp only [inList, if_true] at h ⊢
      rw [h]
      rfl
    | false => rfl

/-- Inside a list, a character of a name, a comma or a blank stays on the line. -/
theorem staysInList (hc : isOpen c = true) (names : Text) (hx : '\n' ∉ x) (pad : Bool) :
    StaysInList q d x pad c names := by
  simp only [isOpen, Bool.or_eq_true, beq_iff_eq] at hc
  rcases hc with ((hc | rfl) | rfl) | rfl
  · exact staysInList_single hc names hx pad
  · exact staysInList_gap (by decide) names hx pad
  · exact staysInList_gap (by decide) names hx pad
  · exact staysInList_comma names hx pad

/-- A list that closes on its line is written on one line, whatever follows it. -/
theorem exists_closed_list (h : d.Free) : ∀ (names x : Text) (pad : Bool),
    (∀ c ∈ names, isOpen c = true) → '\n' ∉ x → ∃ y, '\n' ∉ y ∧ ∀ m n rest, ∃ k,
      read q (d.inList x pad m n) (names ++ '}' :: rest) =
        read q ((d.write ('{' :: (y ++ ['}']))).recount k) rest := by
  intro names
  induction hlength : names.length using Nat.strong_induction_on generalizing names with
  | _ length ih =>
    intro x pad hnames hx
    cases names with
    | nil =>
      let e : Draft := { d.inList x pad 0 0 with frames := [], pad := false }
      obtain ⟨y, hy, hend⟩ := exists_endList (e := e) rfl hx
      refine ⟨y.reverse, by simpa using hy, fun m n rest => ⟨n, ?_⟩⟩
      have hclose : (d.inList x pad m n).step q '}' rest =
          .ok (((e.recount n).endList .list).write ['}'], rest) := rfl
      rw [List.nil_append, read_of_step hclose, endList_recount, hend]
      congr 1
      obtain ⟨back, ends, frames, line, pad⟩ := d
      cases h.frames
      cases h.pad
      simp [e, inList, write, recount]
    | cons c names =>
      have hstays : StaysInList q d x pad c names :=
        staysInList (hnames c List.mem_cons_self) names hx pad
      obtain ⟨y, pad', names', hy, hsuffix, hstep⟩ := hstays
      have hlt : names'.length < length := by
        rw [← hlength, List.length_cons]
        exact Nat.lt_succ_of_le hsuffix.length_le
      obtain ⟨z, hz, hread⟩ := ih _ hlt names' rfl y pad'
        (fun c' hc' => hnames c' (List.mem_cons_of_mem c (hsuffix.subset hc'))) hy
      refine ⟨z, hz, fun m n rest => ?_⟩
      obtain ⟨k, hk⟩ := hstep m n rest
      obtain ⟨l, hl⟩ := hread m k rest
      exact ⟨l, by rw [List.cons_append, read_of_step hk, hl]⟩

/-- Braces that close on their line are written on one line, with the blanks in them as they stand
or as a list has them. -/
theorem Free.exists_braces (h : d.Free) {names : Text} (hnames : ∀ c ∈ names, isOpen c = true) :
    ∃ x, '\n' ∉ x ∧ ∀ n, Takes q (d.recount n) ('{' :: (names ++ ['}']))
      ((d.recount n).write ('{' :: (x ++ ['}']))) := by
  have hone (rest : Text) := Members.onOneLine_open hnames rest
  have hframe : ∃ f, (f = .list ∨ f = .block) ∧
      ∀ rest, d.braceFrame (names ++ '}' :: rest) = f := by
    by_cases hblock : d.opensLabelled = true ∨ d.opensMembers = false
    · refine ⟨.block, .inr rfl, fun rest => ?_⟩
      rcases hblock with hblock | hblock
      · simp [braceFrame, h.inMarkup, hblock]
      · simp [braceFrame, h.inMarkup, hblock]
    · rw [not_or, Bool.not_eq_true, Bool.not_eq_false] at hblock
      refine ⟨.list, .inl rfl, fun rest => ?_⟩
      simp [braceFrame, h.inMarkup, hblock, hone]
  have hopen {f : Frame} (hf : f = .list ∨ f = .block)
      (hbrace : ∀ rest, d.braceFrame (names ++ '}' :: rest) = f) (n : Nat) (rest : Text) :
      (d.recount n).step q '{' (names ++ '}' :: rest) =
        .ok ({ (d.recount n).write ['{'] with frames := [(f, n)], pad := f == .list },
          names ++ '}' :: rest) := by
    have hbrace' : (d.recount n).braceFrame (names ++ '}' :: rest) = f := hbrace rest
    change Except.ok ((d.recount n).openFrame ((d.recount n).braceFrame _), _) = _
    rw [hbrace', openFrame, token_eq_write (h.recount n).pad, (h.recount n).frames]
    rcases hf with rfl | rfl
    · rfl
    · rfl
  obtain ⟨f, hf, hbrace⟩ := hframe
  rcases hf with rfl | rfl
  · obtain ⟨y, hy, hread⟩ := exists_closed_list (q := q) h names [] true hnames List.not_mem_nil
    refine ⟨y, hy, fun n rest => ?_⟩
    obtain ⟨k, hk⟩ := hread n n rest
    refine ⟨k, ?_⟩
    rw [List.cons_append, List.append_assoc, List.singleton_append,
      read_of_step (hopen (.inl rfl) hbrace n rest)]
    exact hk
  · refine ⟨names, fun hmem => ?_, fun n rest => ⟨n, ?_⟩⟩
    · exact absurd (hnames _ hmem) (by decide)
    · let e : Draft := { (d.recount n).write ['{'] with frames := [(.block, n)], pad := false }
      have hclose : (e.write names).step q '}' rest =
          .ok (({ e.write names with frames := [], pad := false } : Draft).write ['}'], rest) := rfl
      rw [List.cons_append, List.append_assoc, List.singleton_append,
        read_of_step (hopen (.inr rfl) hbrace n rest)]
      change read q e (names ++ '}' :: rest) = _
      rw [read_open hnames rfl rfl, read_of_step hclose]
      congr 1
      obtain ⟨back, ends, frames, line, pad⟩ := d
      cases h.frames
      cases h.pad
      simp [e, Draft.write, Draft.recount]

end Draft

namespace Import

/-- What may stand between the word `import` and the module: a text without quotes, slashes,
brackets and line breaks, apart from one pair of braces around such a text. -/
inductive Clause : Text → Prop where
  | plain {t : Text} : (∀ c ∈ t, isOpen c = true) → Clause t
  | braced {t names u : Text} : (∀ c ∈ t, isOpen c = true) → (∀ c ∈ names, isOpen c = true) →
      (∀ c ∈ u, isOpen c = true) → Clause (t ++ '{' :: (names ++ '}' :: u))

end Import

/-- The parts of an import on one line, in any spacing. -/
structure StaticImport where
  indent : Text := []
  clause : Text
  quote : Char := '\''
  source : Text
  stop : Text := []

namespace StaticImport

variable {q : Char} {d : Draft} {i : StaticImport}

def text (i : StaticImport) : Text :=
  i.indent ++ ("import".toList ++ (i.clause ++ i.quote :: (i.source ++ i.quote :: i.stop)))

-- the equation that `rw` would make for `text` takes the literal apart
theorem text_eq (i : StaticImport) : i.text =
    i.indent ++ ("import".toList ++ (i.clause ++ i.quote :: (i.source ++ i.quote :: i.stop))) := rfl

/-- The parts that every form of the import shares: blanks ahead of it, a module between quotes, and
a semicolon at most behind it. -/
structure Framed (i : StaticImport) : Prop where
  indent : ∀ c ∈ i.indent, Header.isSpace c = true
  unbroken : '\n' ∉ i.clause
  quote : IsMark i.quote
  source : Bare i.source
  stop : i.stop = [] ∨ ∃ gap, (∀ c ∈ gap, Header.isSpace c = true) ∧ i.stop = gap ++ [';']

/-- A static import on one line. -/
structure Plain (i : StaticImport) : Prop extends Framed i where
  clause : Import.Clause i.clause
  word : Header.isImport i.text = true

theorem isBlank_of_isSpace {c : Char} (hc : Header.isSpace c = true) : Text.isBlank c = true := by
  simp only [Header.isSpace, Bool.or_eq_true, beq_iff_eq] at hc
  rcases hc with rfl | rfl <;> decide

theorem isOpen_of_isSpace {c : Char} (hc : Header.isSpace c = true) : isOpen c = true := by
  simp only [Header.isSpace, Bool.or_eq_true, beq_iff_eq] at hc
  rcases hc with rfl | rfl <;> decide

namespace Framed

theorem isOpen_stop (h : i.Framed) : ∀ c ∈ i.stop, isOpen c = true := by
  intro c hc
  rcases h.stop with hstop | ⟨gap, hgap, hstop⟩
  · rw [hstop] at hc
    cases hc
  · rw [hstop] at hc
    rcases List.mem_append.1 hc with hc | hc
    · exact isOpen_of_isSpace (hgap c hc)
    · rw [List.mem_singleton.1 hc]
      decide

theorem unbroken_text (h : i.Framed) : '\n' ∉ i.text := by
  have hopen {t : Text} (ht : ∀ c ∈ t, isOpen c = true) : '\n' ∉ t :=
    fun hmem => absurd (ht _ hmem) (by decide)
  have hquote : '\n' ≠ i.quote := by rcases h.quote with hq | hq <;> rw [hq] <;> decide
  rw [text_eq]
  simp only [List.mem_append, List.mem_cons, not_or]
  exact ⟨hopen fun c hc => isOpen_of_isSpace (h.indent c hc), by decide, h.unbroken, hquote,
    fun hmem => (h.source _ hmem).2.2.2 rfl, hquote, hopen h.isOpen_stop⟩

theorem blank_indent (h : i.Framed) : i.indent.blank = true :=
  List.all_eq_true.2 fun c hc => isBlank_of_isSpace (h.indent c hc)

theorem not_blank (h : i.Framed) : i.text.blank = false := by
  rw [text_eq, Text.blank_append, Text.blank_append, h.blank_indent]
  rfl

/-- An import does not go on with the statement before it. -/
theorem tame (h : i.Framed) : Lines.startsHazardously i.text = false := by
  rw [text_eq, Lines.startsHazardously_append, if_pos h.blank_indent]
  rfl

/-- The last character of the import. -/
theorem getLast?_text (h : i.Framed) :
    i.text.getLast? = some (if i.stop = [] then i.quote else ';') := by
  rw [text_eq, List.getLast?_append_of_ne_nil _ (by simp),
    List.getLast?_append_of_ne_nil _ (by simp), List.getLast?_append_of_ne_nil _ (by simp),
    List.getLast?_cons_of_ne_nil (by simp),
    List.getLast?_append_of_ne_nil _ (by simp)]
  rcases h.stop with hstop | ⟨gap, -, hstop⟩
  · rw [if_pos hstop, hstop]
    rfl
  · rw [if_neg (by simp [hstop]), hstop, List.getLast?_cons_of_ne_nil (by simp),
      List.getLast?_concat]

theorem trimEnd_text (h : i.Framed) : i.text.trimEnd = i.text := by
  refine Text.trimEnd_of_getLast? h.getLast?_text ?_
  split
  · exact isBlank_of_isMark h.quote
  · decide

end Framed

/-- A static import is read by itself: what is written differs from it in the blanks of its braces
and in its quotes at most. -/
theorem Plain.exists_takes (hi : i.Plain) (h : d.Free) (hq : IsMark q) :
    ∃ clause, '\n' ∉ clause ∧ ∀ n, Takes q (d.recount n) i.text
      ((d.recount n).write { i with clause, quote := q }.text) := by
  let start := i.indent ++ "import".toList
  have hstart : ∀ c ∈ start, isOpen c = true := by
    intro c hc
    rcases List.mem_append.1 hc with hc | hc
    · exact isOpen_of_isSpace (hi.indent c hc)
    · exact List.all_eq_true.1 (by rfl : "import".toList.all isOpen = true) c hc
  have hclause : ∃ clause, '\n' ∉ clause ∧ ∀ n,
      Takes q (d.recount n) (start ++ i.clause) ((d.recount n).write (start ++ clause)) := by
    have hform := hi.clause
    have hunbroken := hi.unbroken
    generalize i.clause = clause at hform hunbroken
    cases hform with
    | plain ht =>
      refine ⟨clause, hunbroken, fun n => (h.recount n).takes fun c hc => ?_⟩
      rcases List.mem_append.1 hc with hc | hc
      · exact hstart c hc
      · exact ht c hc
    | @braced t names u ht hnames hu =>
      -- the text up to the brace counts no lines, so that the brace is read below one draft
      have hopen : ∀ c ∈ start ++ t, isOpen c = true := fun c hc =>
        (List.mem_append.1 hc).elim (hstart c) (ht c)
      obtain ⟨x, hx, hbraces⟩ := (h.write (start ++ t)).exists_braces (q := q) hnames
      have hfront (n : Nat) : Takes q (d.recount n) ((start ++ t) ++ '{' :: (names ++ ['}']))
          ((d.recount n).write ((start ++ t) ++ '{' :: (x ++ ['}']))) := by
        intro rest
        obtain ⟨k, hk⟩ := hbraces n rest
        refine ⟨k, ?_⟩
        rw [List.append_assoc, read_open hopen (h.recount n).joins (h.recount n).pad]
        refine hk.trans (congrArg (Draft.read q · rest) ?_)
        simp [Draft.write, Draft.recount]
      refine ⟨t ++ '{' :: (x ++ '}' :: u), ?_, fun n => ?_⟩
      · simp only [List.mem_append, List.mem_cons, not_or] at hunbroken ⊢
        exact ⟨hunbroken.1, hunbroken.2.1, hx, hunbroken.2.2.2⟩
      · have hsplit (y : Text) : start ++ (t ++ '{' :: (y ++ '}' :: u)) =
            (start ++ t) ++ '{' :: (y ++ ['}']) ++ u := by simp
        rw [hsplit, hsplit]
        exact (hfront n).write fun k => (((h.recount n).recount k).write _).takes hu
  obtain ⟨clause, hunbroken, htakes⟩ := hclause
  refine ⟨clause, hunbroken, fun n => ?_⟩
  have htext (j : StaticImport) : j.text = (j.indent ++ "import".toList ++ j.clause) ++
      ((j.quote :: (j.source ++ [j.quote])) ++ j.stop) := by
    rw [text_eq]
    simp
  rw [htext, htext]
  refine (htakes n).write fun k => ?_
  have hfree : (((d.recount n).recount k).write (start ++ clause)).Free :=
    ((h.recount n).recount k).write _
  exact (hfree.takes_module hq hi.quote hi.source).write fun l =>
    ((hfree.recount l).write _).takes hi.isOpen_stop

end StaticImport

/-- A line of a header: blank, or a static import. -/
def Header.StaticLine (l : Text) : Prop := l = [] ∨ ∃ i : StaticImport, i.Plain ∧ i.text = l

/-- How a line of a header is written under the quote `q`. -/
inductive Echo (q : Char) : Text → Text → Prop where
  | blank : Echo q [] []
  | statement {i : StaticImport} {clause : Text} : i.Framed → '\n' ∉ clause →
      Echo q i.text { i with clause, quote := q }.text

theorem StaticImport.Framed.echo {i : StaticImport} (h : i.Framed) {clause : Text}
    (hclause : '\n' ∉ clause) {q : Char} (hq : IsMark q) :
    StaticImport.Framed { i with clause, quote := q } :=
  ⟨h.indent, hclause, hq, h.source, h.stop⟩

/-- A line of a header is read as a line of its own. -/
theorem Draft.Free.exists_line {q : Char} {d : Draft} (h : d.Free) (hq : IsMark q) {l : Text}
    (hl : Header.StaticLine l) :
    ∃ k, Echo q l k ∧ ∀ n, Takes q (d.recount n) (l ++ ['\n']) ((d.recount n).addLine k) := by
  rcases hl with rfl | ⟨i, hi, rfl⟩
  · exact ⟨[], .blank, fun n => (h.recount n).takes_newline⟩
  · obtain ⟨clause, hclause, htakes⟩ := hi.exists_takes h hq
    exact ⟨_, .statement hi.toFramed hclause, fun n => (htakes n).append fun k =>
      (((h.recount n).write _).recount k).takes_newline⟩

/-- The lines of a header are read one by one, each as a line of its own. -/
theorem Draft.Free.exists_header {q : Char} {d : Draft} (h : d.Free) (hq : IsMark q)
    {ls : List Text} (hls : ∀ l ∈ ls, Header.StaticLine l) :
    ∃ ks, List.Forall₂ (Echo q) ls ks ∧
      ∀ n, Takes q (d.recount n) (Header.joinLines ls) ((d.recount n).addLines ks) := by
  induction ls generalizing d with
  | nil => exact ⟨[], .nil, fun n rest => ⟨n, rfl⟩⟩
  | cons l ls ih =>
    obtain ⟨k, hecho, htakes⟩ := h.exists_line hq (hls l List.mem_cons_self)
    have hfree : (d.addLine k).Free := ⟨h.frames, h.pad⟩
    obtain ⟨ks, hechoes, htakes'⟩ := ih hfree fun l hl => hls l (List.mem_cons_of_mem _ hl)
    refine ⟨k :: ks, .cons hecho hechoes, fun n => ?_⟩
    rw [Header.joinLines_cons, List.append_cons]
    refine (htakes n).append fun m => ?_
    have hrest := htakes' m
    rw [addLines_recount] at hrest
    change Takes q _ _ (((d.addLine k).recount n).addLines ks)
    rw [addLines_recount]
    exact hrest

end ProjectSetup
