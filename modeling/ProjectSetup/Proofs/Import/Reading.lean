import ProjectSetup.Proofs.Import.Names
import ProjectSetup.Proofs.Layout.Members

/-!
# Reading imports

An import is read as it stands, whether its names share a line or not, and whatever follows it: its
brace opens a list of names, and its module is written between the quotes of the style.
-/
namespace ProjectSetup

open Lines (NamedImport)

namespace Members

open Draft (isGap braced closing)

variable {s : Seen} {c : Char} (rest : Text)

/-- The search is directly inside the braces, has found no body in them, and a line that ended did
not end an operand. -/
structure Calm (s : Seen) : Prop where
  depth : s.depth = 1
  holdsBody : s.holdsBody = false
  broken : s.broken = true → endsOperand s.last = false

theorem Calm.next (h : Calm s) (hc : NamedImport.isBinding c = true ∨ c = ',') :
    search s (c :: rest) = search (s.next c) rest ∧ Calm (s.next c) := by
  have hmark : c ∉ marks := by
    have hno : ∀ m ∈ marks, NamedImport.isBinding m = false ∧ m ≠ ',' := by decide
    intro hm
    obtain ⟨hbinding, hcomma⟩ := hno c hm
    rcases hc with hc | hc
    · rw [hbinding] at hc
      cases hc
    · exact hcomma hc
  have hblank : Text.isBlank c = false := by
    rcases hc with hc | rfl
    · exact Import.isBlank_of_isBinding hc
    · decide
  have hparts : s.parts c = false := by
    cases hb : s.broken with
    | false => simp [Seen.parts, hb]
    | true => simp [Seen.parts, h.broken hb]
  refine ⟨search_of_not_mem hmark hblank hparts rest, ?_, ?_, ?_⟩
  · exact (depth_next_of_not_mem s hmark).trans h.depth
  · exact (holdsBody_next_of_not_mem s hmark).trans h.holdsBody
  · simp [Seen.next]

theorem search_blank (hc : isGap c = true) :
    search s (c :: rest) = search (if c = '\n' then s.lineBreak else s) rest := by
  rw [search]
  split
  · rfl
  · next hn =>
    have hblank : Text.isBlank c = true := by
      simp only [isGap, Bool.or_eq_true, beq_iff_eq, hn, or_false] at hc
      rcases hc with (rfl | rfl) | rfl
      · decide
      · decide
      · decide
    rw [if_pos hblank]

/-- Blanks that stand behind no operand change nothing. -/
theorem Calm.gap {run : Text} (hrun : ∀ c ∈ run, isGap c = true) (h : Calm s)
    (hlast : endsOperand s.last = false) :
    ∃ s', search s (run ++ rest) = search s' rest ∧ Calm s' := by
  induction run generalizing s with
  | nil => exact ⟨s, rfl, h⟩
  | cons c run ih =>
    rw [List.cons_append, search_blank _ (hrun c List.mem_cons_self)]
    refine ih (fun x hx => hrun x (List.mem_cons_of_mem c hx)) ?_ ?_
    · split
      · exact ⟨h.depth, h.holdsBody, fun _ => hlast⟩
      · exact h
    · split
      · exact hlast
      · exact hlast

theorem Calm.name {t : Text} (ht : ∀ c ∈ t, NamedImport.isBinding c = true) (h : Calm s) :
    ∃ s', search s (t ++ rest) = search s' rest ∧ Calm s' := by
  induction t generalizing s with
  | nil => exact ⟨s, rfl, h⟩
  | cons c t ih =>
    obtain ⟨hc, hnext⟩ := h.next (t ++ rest) (.inl (ht c List.mem_cons_self))
    rw [List.cons_append, hc]
    exact ih (fun x hx => ht x (List.mem_cons_of_mem c hx)) hnext

theorem Calm.phrase {p : Text} (hp : Import.Phrase p) (h : Calm s) :
    ∃ s', search s (p ++ rest) = search s' rest ∧ Calm s' := by
  induction hp generalizing s with
  | name ht => exact h.name rest ht.chars
  | @cons t p ht _ ih =>
    obtain ⟨s', hs', hcalm⟩ := h.name (' ' :: p ++ rest) ht.chars
    obtain ⟨s'', hs'', hcalm'⟩ := ih hcalm
    refine ⟨s'', ?_, hcalm'⟩
    rw [List.append_assoc, hs', List.cons_append, search_blank _ (by decide), ← hs'']
    rfl

/-- The closing brace ends the search, on whatever line it stands. -/
theorem search_close (hdepth : s.depth = 1) (hbody : s.holdsBody = false) {g : Char}
    (hg : isGap g = true) : search s (g :: '}' :: rest) = .closed true rest := by
  have hend (s : Seen) (hdepth : s.depth = 1) (hbody : s.holdsBody = false) :
      search s ('}' :: rest) = .closed true rest := by
    have hparts : s.parts '}' = false := by
      have hno : startsOperand '}' = false := by decide
      simp [Seen.parts, hno]
    have hcloses : s.closes '}' = true := by simp [Seen.closes, hdepth]
    have hblank : Text.isBlank '}' = false := by decide
    rw [search]
    simp [hparts, hcloses, hblank, hbody]
  rw [search_blank _ hg]
  split
  · exact hend s.lineBreak hdepth hbody
  · exact hend s hdepth hbody

theorem Calm.closing (h : Calm s) (comma : Bool) {g : Char} (hg : isGap g = true) :
    search s (closing comma g ++ rest) = .closed true rest := by
  cases comma with
  | false => exact search_close rest h.depth h.holdsBody hg
  | true =>
    obtain ⟨hcomma, hnext⟩ := h.next (g :: '}' :: rest) (.inr rfl)
    exact hcomma.trans (search_close rest hnext.depth hnext.holdsBody hg)

theorem Calm.braced {gap : Text} (hgap : ∀ c ∈ gap, isGap c = true) (comma : Bool) {g : Char}
    (hg : isGap g = true) {names : List Text} (hnames : names ≠ [])
    (hphrase : ∀ p ∈ names, Import.Phrase p) (h : Calm s) (hlast : endsOperand s.last = false) :
    search s (braced gap (Draft.closing comma g) names ++ rest) = .closed true rest := by
  induction names generalizing s with
  | nil => exact absurd rfl hnames
  | cons p ps ih =>
    cases ps with
    | nil =>
      obtain ⟨s₁, h₁, hcalm₁⟩ := h.gap (p ++ (Draft.closing comma g ++ rest)) hgap hlast
      obtain ⟨s₂, h₂, hcalm₂⟩ := hcalm₁.phrase (Draft.closing comma g ++ rest)
        (hphrase p List.mem_cons_self)
      rw [Draft.braced, List.append_assoc, List.append_assoc, h₁, h₂]
      exact hcalm₂.closing rest comma hg
    | cons p' ps =>
      let more := Draft.braced gap (Draft.closing comma g) (p' :: ps) ++ rest
      obtain ⟨s₁, h₁, hcalm₁⟩ := h.gap (p ++ ',' :: more) hgap hlast
      obtain ⟨s₂, h₂, hcalm₂⟩ := hcalm₁.phrase (',' :: more)
        (hphrase p List.mem_cons_self)
      obtain ⟨h₃, hcalm₃⟩ := hcalm₂.next more (.inr rfl)
      have hcomma : endsOperand ',' = false := by decide
      rw [Draft.braced, List.append_assoc, List.append_assoc, List.cons_append, h₁, h₂, h₃]
      exact ih (List.cons_ne_nil p' ps) (fun p hp => hphrase p (List.mem_cons_of_mem _ hp)) hcalm₃
        hcomma

/-- Names in braces are written on one line, whether they share it yet or not. -/
theorem onOneLine_braced {gap : Text} (hgap : ∀ c ∈ gap, isGap c = true) (comma : Bool) {g : Char}
    (hg : isGap g = true) {names : List Text} (hnames : names ≠ [])
    (hphrase : ∀ p ∈ names, Import.Phrase p) :
    onOneLine (braced gap (Draft.closing comma g) names ++ rest) = true := by
  have hstart : Calm {} := ⟨rfl, rfl, fun h => by cases h⟩
  rw [onOneLine, hstart.braced rest hgap comma hg hnames hphrase (by decide)]

end Members

namespace Literal

theorem string?_bare {t : Text} (h : Bare t) {q : Char} (hq : IsMark q) (rest : Text) :
    string? q (t ++ q :: rest) = some (t, rest) := by
  induction t with
  | nil => rcases hq with rfl | rfl <;> rfl
  | cons c t ih =>
    have hc := h c List.mem_cons_self
    have hne : c ≠ q := fun he => h.not_mem hq (he ▸ List.mem_cons_self)
    rw [List.cons_append, string?, ih fun c hc => h c (List.mem_cons_of_mem _ hc)]
    · simp [hc, hne]
    · exact fun he _ => hc.2.2.1 he
    · exact fun _ _ he _ => hc.2.2.1 he

theorem hasUnescaped_bare {t : Text} (h : Bare t) {q : Char} (hq : IsMark q) :
    hasUnescaped q t = false := by
  induction t with
  | nil => rfl
  | cons c t ih =>
    have hc := h c List.mem_cons_self
    have hne : c ≠ q := fun he => h.not_mem hq (he ▸ List.mem_cons_self)
    rw [hasUnescaped, ih fun c hc => h c (List.mem_cons_of_mem _ hc)]
    · simp [hne]
    · exact fun he _ => hc.2.2.1 he
    · exact fun _ _ he _ => hc.2.2.1 he

end Literal

namespace Draft

variable {q q' : Char} {b d : Draft} {rest : Text}

theorem Takes.write {s s' t t' : Text} (h : Takes q d s (d.write s'))
    (h' : ∀ n, Takes q ((d.recount n).write s') t (((d.recount n).write s').write t')) :
    Takes q d (s ++ t) (d.write (s' ++ t')) := by
  rw [← write_write]
  exact h.append h'

/-- Outside brackets, with no blank due. -/
structure Free (d : Draft) : Prop where
  frames : d.frames = []
  pad : d.pad = false

theorem Free.write (h : d.Free) (t : Text) : (d.write t).Free := ⟨h.frames, h.pad⟩

theorem Free.recount (h : d.Free) (n : Nat) : (d.recount n).Free := ⟨h.frames, h.pad⟩

theorem Free.joins (h : d.Free) : d.joins = false := by simp [Draft.joins, top?, h.frames]

theorem Free.inMarkup (h : d.Free) : d.inMarkup = false := by simp [Draft.inMarkup, top?, h.frames]

theorem Free.takes (h : d.Free) {t : Text} (ht : ∀ c ∈ t, isOpen c = true) :
    Takes q d t (d.write t) :=
  fun _ => ⟨d.line, read_open ht h.joins h.pad⟩

theorem copy_of_not_mem {t : Text} (h : '\n' ∉ t) (d : Draft) : d.copy t = d.write t := by
  induction t generalizing d with
  | nil => rfl
  | cons c t ih =>
    rw [List.mem_cons, not_or] at h
    rw [copy, if_neg (Ne.symm h.1), ih h.2, write_write]
    rfl

/-- A module between quotes is written between the quotes of the style. -/
theorem Free.takes_module (h : d.Free) (hq : IsMark q) (hq' : IsMark q') {t : Text} (ht : Bare t) :
    Takes q d (q' :: (t ++ [q'])) (d.write (q :: (t ++ [q]))) := by
  intro rest
  have hn : '\n' ∉ t := fun hmem => (ht _ hmem).2.2.2 rfl
  have hquote : d.step q q' (t ++ q' :: rest) = d.string q q' (t ++ q' :: rest) := by
    rcases hq' with rfl | rfl <;> rfl
  have hstring : d.string q q' (t ++ q' :: rest) = .ok (d.write (q :: (t ++ [q])), rest) := by
    have hwrite : (d.write [q]).copy t = d.write (q :: t) := by
      rw [copy_of_not_mem hn, write_write]
      rfl
    simp only [string, h.inMarkup, Bool.false_and, Bool.false_eq_true, if_false,
      Literal.string?_bare ht hq', Literal.requote, Literal.hasUnescaped_bare ht hq,
      token_eq_write h.pad, hwrite, write_write]
    simp [advance, List.count_eq_zero.2 hn]
  refine ⟨d.line, ?_⟩
  rw [List.cons_append, List.append_assoc, List.singleton_append,
    read_of_step (hquote.trans hstring)]
  rfl

/-- At the beginning of a line between statements. -/
structure AtLine (d : Draft) : Prop extends Free d where
  back : ∀ c ∈ d.back.head?, c = '\n'

theorem AtLine.endsWithWord (h : d.AtLine) (word : String) :
    endsWithWord (word.toList.reverse ++ d.back) word = true := by
  rw [Draft.endsWithWord, Text.after?_eq_some_iff.2 rfl]
  cases hback : d.back with
  | nil => rfl
  | cons c back =>
    rw [h.back c (by rw [hback]; rfl)]
    exact congrArg not
      (by decide : (Text.isAlphanumeric '\n' || ['_', '$', '.'].contains '\n') = false)

theorem AtLine.recount (h : d.AtLine) (n : Nat) : (d.recount n).AtLine :=
  ⟨h.toFree.recount n, h.back⟩

/-- Behind the word `import`, and a default binding if there is one, a brace opens a list. -/
theorem AtLine.braceFrame (h : d.AtLine) (i : Import)
    (hone : Members.onOneLine rest = true) :
    (d.write ("import ".toList ++ i.head)).braceFrame rest = .list := by
  have hframe {e : Draft} (he : e.Free) {c : Char} {x : Text} (hbefore : e.before = c :: x)
      (hc : c = 't' ∨ c = ',')
      (hopens : c = ',' ∨ listWords.any (Draft.endsWithWord e.before) = true) :
      e.braceFrame rest = .list := by
    have hlabelled : e.opensLabelled = false := by
      rw [opensLabelled, hbefore, Bool.and_eq_false_iff]
      right
      rcases hc with rfl | rfl
      · exact isLabel_of_getLast? (c := 't') (by simp) (by decide) (by decide)
      · exact isLabel_of_getLast? (c := ',') (by simp) (by decide) (by decide)
    have hmembers : e.opensMembers = true := by
      rw [opensMembers, Bool.and_eq_true]
      constructor
      · rw [hbefore]
        rcases hc with rfl | rfl <;> rfl
      · rcases hopens with rfl | hopens
        · simp [hbefore]
        · simp [hopens]
    simp [Draft.braceFrame, he.inMarkup, hlabelled, hmembers, hone]
  cases hb : i.binding with
  | none =>
    have hhead : i.head = [] := by rw [Import.head, hb]
    have hbefore : (d.write ("import ".toList ++ i.head)).before =
        "import".toList.reverse ++ d.back := by rw [hhead]; rfl
    refine hframe (h.write _) hbefore (.inl rfl) (.inr ?_)
    rw [hbefore]
    exact List.any_eq_true.2 ⟨"import", by decide, h.endsWithWord "import"⟩
  | some b =>
    have hhead : i.head = b ++ [',', ' '] := by rw [Import.head, hb]
    have hbefore : (d.write ("import ".toList ++ i.head)).before =
        ',' :: (b.reverse ++ ("import ".toList.reverse ++ d.back)) := by
      have hback : (d.write ("import ".toList ++ i.head)).back =
          ' ' :: ',' :: (b.reverse ++ ("import ".toList.reverse ++ d.back)) := by
        rw [hhead, Draft.write]
        simp only [List.reverse_append, List.append_assoc]
        rfl
      rw [Draft.before, hback]
      rfl
    exact hframe (h.write _) hbefore (.inr rfl) (.inl rfl)

/-- The names of an import in braces are written on one line. -/
theorem AtLine.takes_names (h : d.AtLine) (i : Import) {gap : Text} (hne : gap ≠ [])
    (hgap : ∀ c ∈ gap, isGap c = true) (comma : Bool) {g : Char} (hg : isGap g = true)
    {names : List Text} (hnames : names ≠ []) (hphrase : ∀ p ∈ names, Import.Phrase p) :
    Takes q (d.write ("import ".toList ++ i.head)) ('{' :: braced gap (closing comma g) names)
      ((d.write ("import ".toList ++ i.head)).write ('{' :: braced [' '] [' ', '}'] names)) := by
  intro rest
  have hframe := h.braceFrame i
    (Members.onOneLine_braced rest hgap comma hg hnames hphrase)
  have hfree := h.write ("import ".toList ++ i.head)
  generalize d.write ("import ".toList ++ i.head) = e at hframe hfree ⊢
  have hopen : e.step q '{' (braced gap (closing comma g) names ++ rest) =
      .ok ({ e.write ['{'] with frames := [(.list, e.line)], pad := true },
        braced gap (closing comma g) names ++ rest) := by
    change Except.ok (e.openFrame (e.braceFrame _), _) = _
    rw [hframe, openFrame, token_eq_write hfree.pad, hfree.frames]
    rfl
  obtain ⟨n, hn⟩ := takes_braced (q := q) (n := e.line)
    (d := { e.write ['{'] with frames := [(.list, e.line)], pad := true }) rfl (x := '{') rfl
    (by decide) hne hgap comma hg hnames hphrase rest
  refine ⟨n, ?_⟩
  rw [List.cons_append, read_of_step hopen, hn]
  refine congrArg (read q · rest) ?_
  simp [Draft.write, hfree.frames, hfree.pad]

end Draft

namespace Import

open Draft (AtLine Takes braced closing isGap isOpen isSingle)

variable {q q' : Char} {d : Draft} {i : Import}

/-- The import with its names in braces, `gap` ahead of each of them and `close` at the end. -/
def spread (gap close : Text) (quote : Char) (i : Import) : Text :=
  ("import ".toList ++ i.head) ++ ('{' :: braced gap close i.names ++
    (" from ".toList ++ quote :: (i.source ++ [quote])))

-- the equation that `rw` would make for `spread` takes the literal apart
theorem spread_eq (gap close : Text) (quote : Char) (i : Import) :
    i.spread gap close quote = ("import ".toList ++ i.head) ++ ('{' :: braced gap close i.names ++
      (" from ".toList ++ quote :: (i.source ++ [quote]))) := rfl

theorem isOpen_of_isBinding {c : Char} (h : NamedImport.isBinding c = true) : isOpen c = true := by
  simp [isOpen, Draft.isSingle_of_isBinding h]

theorem Plain.isOpen_head (hi : i.Plain) : ∀ c ∈ "import ".toList ++ i.head, isOpen c = true := by
  intro c hc
  rcases List.mem_append.1 hc with hc | hc
  · exact (by decide : ∀ c ∈ "import ".toList, isOpen c = true) c hc
  · cases hb : i.binding with
    | none =>
      rw [head, hb] at hc
      cases hc
    | some b =>
      rw [head, hb] at hc
      rcases List.mem_append.1 hc with hc | hc
      · exact isOpen_of_isBinding ((hi.binding b hb).chars c hc)
      · exact (by decide : ∀ c ∈ [',', ' '], isOpen c = true) c hc

theorem takes_from (h : d.Free) {t : Text} (ht : ∀ c ∈ t, isOpen c = true) (hq : IsMark q)
    (hq' : IsMark q') {source : Text} (hsource : Bare source) :
    Takes q d (t ++ q' :: (source ++ [q'])) (d.write (t ++ q :: (source ++ [q]))) :=
  Takes.write (h.takes ht) fun n => ((h.recount n).write t).takes_module hq hq' hsource

/-- Names that are spread over lines are read as if they shared one. -/
theorem Plain.takes_spread (hi : i.Plain) (hnames : i.names ≠ []) (h : d.AtLine) (hq : IsMark q)
    (hq' : IsMark q') {gap : Text} (hne : gap ≠ []) (hgap : ∀ c ∈ gap, isGap c = true)
    (comma : Bool) {g : Char} (hg : isGap g = true) :
    Takes q d (i.spread gap (closing comma g) q') (d.write (i.spread [' '] [' ', '}'] q)) := by
  refine Takes.write (h.takes hi.isOpen_head) fun n => ?_
  have hline := h.recount n
  refine Takes.write (hline.takes_names i hne hgap comma hg hnames hi.names) fun k => ?_
  exact takes_from (((hline.toFree.write _).recount k).write _) (by decide) hq hq' hi.source

theorem braced_eq_join {names : List Text} (hnames : names ≠ []) :
    braced [' '] [' ', '}'] names = ' ' :: (Text.join [',', ' '] names ++ [' ', '}']) := by
  induction names with
  | nil => exact absurd rfl hnames
  | cons p ps ih =>
    cases ps with
    | nil => rfl
    | cons p' ps =>
      rw [braced, ih (List.cons_ne_nil p' ps), Text.join_cons _ _ _ (List.cons_ne_nil p' ps)]
      simp

theorem clause_of_names (hwhole : i.whole = none) (hnames : i.names ≠ []) :
    i.clause = i.head ++ ['{', ' '] ++ Text.join [',', ' '] i.names ++ " \x7d from ".toList := by
  obtain ⟨source, binding, names, whole⟩ := i
  cases hwhole
  obtain ⟨n, ns, rfl⟩ := List.exists_cons_of_ne_nil hnames
  cases binding with
  | none => simp only [clause]
  | some b => simp only [clause]

theorem line_of_names (hwhole : i.whole = none) (hnames : i.names ≠ []) (quote : Char) :
    i.line quote = i.spread [' '] [' ', '}'] quote := by
  rw [line_eq, spread_eq, clause_of_names hwhole hnames, braced_eq_join hnames]
  simp only [List.append_assoc, List.cons_append, List.nil_append]
  rfl

/-- Without names in braces, all characters up to the module are written as they stand. -/
theorem Plain.isOpen_clause (hi : i.Plain) (h : i.whole ≠ none ∨ i.names = []) :
    ∀ c ∈ "import ".toList ++ i.clause, isOpen c = true := by
  have hname {t : Text} (ht : Name t) (pre post : Text) (hpre : ∀ c ∈ pre, isOpen c = true)
      (hpost : ∀ c ∈ post, isOpen c = true) : ∀ c ∈ pre ++ t ++ post, isOpen c = true := by
    intro c hc
    rcases List.mem_append.1 hc with hc | hc
    · rcases List.mem_append.1 hc with hc | hc
      · exact hpre c hc
      · exact isOpen_of_isBinding (ht.chars c hc)
    · exact hpost c hc
  have hclause : ∀ c ∈ i.clause, isOpen c = true := by
    obtain ⟨source, binding, names, whole⟩ := i
    cases whole with
    | some w =>
      simp only [clause]
      exact hname (hi.whole w rfl) _ _ (by decide) (by decide)
    | none =>
      obtain rfl : names = [] := h.resolve_left (not_not.2 rfl)
      cases binding with
      | none => exact fun c hc => absurd hc List.not_mem_nil
      | some b =>
        simp only [clause]
        exact hname (hi.binding b rfl) [] _ (by decide) (by decide)
  intro c hc
  rcases List.mem_append.1 hc with hc | hc
  · exact (by decide : ∀ c ∈ "import ".toList, isOpen c = true) c hc
  · exact hclause c hc

/-- An import on one line is read as it stands, with its module between the quotes of the style. -/
theorem Plain.takes_line (hi : i.Plain) (h : d.AtLine) (hq : IsMark q) (hq' : IsMark q') :
    Takes q d (i.line q') (d.write (i.line q)) := by
  by_cases hopen : i.whole ≠ none ∨ i.names = []
  · rw [line_eq, line_eq, ← List.append_assoc, ← List.append_assoc]
    exact takes_from h.toFree (hi.isOpen_clause hopen) hq hq' hi.source
  · rw [not_or, not_not] at hopen
    rw [line_of_names hopen.1 hopen.2, line_of_names hopen.1 hopen.2]
    exact hi.takes_spread hopen.2 h hq hq' (List.cons_ne_nil _ _) (by decide) false
      (g := ' ') (by decide)

end Import

end ProjectSetup
