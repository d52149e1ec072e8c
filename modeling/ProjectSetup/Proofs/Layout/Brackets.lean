import ProjectSetup.Layout.Normal
import ProjectSetup.Proofs.Layout.Reading
import ProjectSetup.Proofs.Text.Brackets

/-!
# Brackets of scripts

A script without quotes, backticks and slashes has neither literals nor comments in it, and all that
reading it can fail at are its brackets. What kind of frame a bracket opens depends on the text
around it, and so does what becomes of the line breaks inside. Yet a frame remembers which bracket
opened it, and every line break is counted, so the frames of a draft pair the brackets of the text.
-/
namespace ProjectSetup

/-- No literal and no comment can begin in the text. -/
def Text.NoLiteral (t : Text) : Prop := ∀ c ∈ t, c ≠ '\'' ∧ c ≠ '"' ∧ c ≠ '\x60' ∧ c ≠ '/'

instance (t : Text) : Decidable t.NoLiteral := inferInstanceAs (Decidable (∀ c ∈ t, _))

theorem Text.NoLiteral.of_suffix {s t : Text} (h : t.NoLiteral) (hs : s <:+ t) : s.NoLiteral :=
  fun c hc => h c (hs.mem hc)

@[simp] theorem Frame.closerOf?_opener (f : Frame) : Text.closerOf? f.opener = some f.closer := by
  cases f <;> rfl

namespace Draft

variable {q c : Char} {d d' e : Draft} {rest rest' t : Text}

/-- The same brackets are open, and the same line is being read. -/
structure SameOpen (d e : Draft) : Prop where
  frames : e.frames = d.frames
  line : e.line = d.line

namespace SameOpen

theorem refl (d : Draft) : SameOpen d d := ⟨rfl, rfl⟩

theorem trans (h : SameOpen d d') (h' : SameOpen d' e) : SameOpen d e :=
  ⟨h'.frames.trans h.frames, h'.line.trans h.line⟩

end SameOpen

theorem sameOpen_write (d : Draft) (t : Text) : SameOpen d (d.write t) := ⟨rfl, rfl⟩

theorem sameOpen_space (d : Draft) : SameOpen d d.space := by
  unfold space
  split
  · exact .refl d
  · exact d.sameOpen_write [' ']

theorem sameOpen_settle (d : Draft) : SameOpen d d.settle := by
  unfold settle
  split
  · exact ⟨d.sameOpen_space.frames, d.sameOpen_space.line⟩
  · exact .refl d

theorem sameOpen_token (d : Draft) (t : Text) : SameOpen d (d.token t) :=
  d.sameOpen_settle.trans (d.settle.sameOpen_write t)

theorem sameOpen_comma (d : Draft) : SameOpen d d.comma := by
  unfold comma
  split
  · exact ⟨rfl, rfl⟩
  · exact d.sameOpen_token [',']

theorem sameOpen_endList (d : Draft) (f : Frame) : SameOpen d (d.endList f) := by
  unfold endList
  dsimp only
  split_ifs <;> exact ⟨rfl, rfl⟩

/-- A closing bracket leaves those open that are around it. -/
theorem sameOpen_closeFrame (d : Draft) (f : Frame) (frames : List (Frame × Nat)) :
    SameOpen { d with frames := frames, pad := false } (d.closeFrame f frames) := by
  unfold closeFrame
  dsimp only
  split_ifs
  · exact (sameOpen_endList _ f).trans (sameOpen_write _ [f.closer])
  · exact sameOpen_write _ [f.closer]

theorem sameOpen_lines (d : Draft) (run : Text) : SameOpen d (run.foldl (fun d c =>
    if c = '\n' then d.breakLine d.lineEnd else if c = '\r' then d else d.write [c]) d) := by
  induction run generalizing d with
  | nil => exact .refl d
  | cons c run ih =>
    rw [List.foldl_cons]
    refine SameOpen.trans ?_ (ih _)
    split_ifs
    · exact ⟨rfl, rfl⟩
    · exact .refl d
    · exact d.sameOpen_write [c]

theorem sameOpen_gap (d : Draft) (run rest : Text) : SameOpen (d.advance run) (d.gap run rest) := by
  unfold gap
  dsimp only
  split
  · split
    · exact .refl _
    · exact ⟨(d.advance run).sameOpen_space.frames, (d.advance run).sameOpen_space.line⟩
  · exact (d.advance run).sameOpen_lines run

/-- The open brackets with the lines they opened on, innermost first. -/
def pending (d : Draft) : List (Char × Nat) := d.frames.map fun (f, n) => (f.opener, n)

/-- No open bracket stands in a template literal. -/
def NoTemplate (d : Draft) : Prop := ∀ x ∈ d.frames, x.1 ≠ .substitution

theorem SameOpen.pending (h : SameOpen d e) : e.pending = d.pending := by
  rw [Draft.pending, h.frames]
  rfl

theorem SameOpen.noTemplate (h : SameOpen d e) (hd : d.NoTemplate) : e.NoTemplate := by
  rwa [NoTemplate, h.frames]

theorem pending_openFrame (d : Draft) (f : Frame) :
    (d.openFrame f).pending = (f.opener, d.line) :: d.pending := rfl

theorem line_openFrame (d : Draft) (f : Frame) : (d.openFrame f).line = d.line :=
  (d.sameOpen_token [f.opener]).line

theorem NoTemplate.openFrame (hd : d.NoTemplate) {f : Frame} (hf : f ≠ .substitution) :
    (d.openFrame f).NoTemplate :=
  List.forall_mem_cons.2 ⟨hf, hd⟩

/-- A stray bracket, with its line, as a fault. -/
def strayFault (e : Char × Nat) : Fault := .unbalancedBracket e.1 e.2

/-- The open brackets once `t` is read too, or the fault at the first stray one. -/
def paired (d : Draft) (t : Text) : Except Fault (List (Char × Nat)) :=
  (Text.pairs d.line d.pending t).mapError strayFault

/-- What a step does to the brackets: it pairs those that it reads, and fails at a stray one. -/
def Pairs (d : Draft) (t : Text) : Except Fault (Draft × Text) → Prop
  | .ok (d', rest) => d'.NoTemplate ∧ rest <:+ t ∧ d.paired t = d'.paired rest
  | .error f => d.paired t = .error f

/-- A character that is no line break and leaves the open brackets of `d'`. -/
theorem pairs_cons (hd' : d'.NoTemplate) (hline : d'.line = d.line) (hc : c ≠ '\n')
    (h : Text.pair d.line d.pending c = .ok d'.pending) (rest : Text) :
    d.Pairs (c :: rest) (.ok (d', rest)) := by
  refine ⟨hd', List.suffix_cons c rest, ?_⟩
  rw [paired, Text.pairs_cons_of_pair h hc, paired, hline]

theorem pairs_openFrame (hd : d.NoTemplate) {f : Frame} (hf : f ≠ .substitution)
    (hc : f.opener = c) (rest : Text) : d.Pairs (c :: rest) (.ok (d.openFrame f, rest)) := by
  refine pairs_cons (hd.openFrame hf) (d.line_openFrame f) ?_ ?_ rest
  · rw [← hc]
    cases f <;> decide
  · rw [← hc, Text.pair_opener (by simp), pending_openFrame]

theorem pairs_sameOpen (hd : d.NoTemplate) (h : SameOpen d d') (hopen : Text.closerOf? c = none)
    (hclose : Text.isCloser c = false) (hc : c ≠ '\n') (rest : Text) :
    d.Pairs (c :: rest) (.ok (d', rest)) := by
  refine pairs_cons (h.noTemplate hd) h.line hc ?_ rest
  rw [Text.pair_plain hopen hclose, h.pending]

theorem pairs_gap (hd : d.NoTemplate) {run : Text} (hrun : ∀ c ∈ run, isGap c = true)
    (rest : Text) : d.Pairs (run ++ rest) (.ok (d.gap run rest, rest)) := by
  have hsame := d.sameOpen_gap run rest
  have hplain : Text.Balanced run := by
    refine .of_plain fun c hc => ?_
    have hgap := hrun c hc
    simp only [isGap, Bool.or_eq_true, beq_iff_eq] at hgap
    rcases hgap with ((rfl | rfl) | rfl) | rfl <;> decide
  refine ⟨hsame.noTemplate hd, List.suffix_append _ _, ?_⟩
  rw [paired, Text.pairs_append, Text.pairs_of_balanced hplain, paired, hsame.line, hsame.pending]
  rfl

theorem pairs_stray (h : Text.pair d.line d.pending c = .error (c, d.line)) (rest : Text) :
    d.Pairs (c :: rest) (.error (.unbalancedBracket c d.line)) := by
  change d.paired (c :: rest) = _
  rw [paired, Text.pairs_cons_of_error h]
  rfl

theorem pairs_close (hd : d.NoTemplate) (hc : Text.isCloser c = true) (rest : Text) :
    d.Pairs (c :: rest) (d.close c rest) := by
  have hpair : Text.pair d.line d.pending c = _ := Text.pair_closer hc
  rw [close]
  cases hframes : d.frames with
  | nil =>
    rw [show d.pending = [] by rw [pending, hframes]; rfl] at hpair
    exact pairs_stray (by rw [pending, hframes]; exact hpair) rest
  | cons top frames =>
    obtain ⟨f, n⟩ := top
    have hd : ∀ x ∈ (f, n) :: frames, x.1 ≠ .substitution := fun x hx => hd x (hframes ▸ hx)
    obtain ⟨hf, hframes'⟩ := List.forall_mem_cons.1 hd
    have hpending : d.pending = (f.opener, n) :: frames.map fun (f, n) => (f.opener, n) := by
      rw [pending, hframes]
      rfl
    dsimp only
    by_cases hcloser : f.closer = c
    · subst hcloser
      have hsame := d.sameOpen_closeFrame f frames
      have hbreak : f.closer ≠ '\n' := by cases f <;> decide
      rw [if_neg (not_not_intro rfl), if_neg hf]
      refine pairs_cons (d := d) (hsame.noTemplate hframes') hsame.line hbreak ?_ rest
      rw [hsame.pending, hpending]
      exact Text.pair_closing (Frame.closerOf?_opener f) n
    · rw [if_pos hcloser]
      refine pairs_stray ?_ rest
      rw [hpair, hpending]
      exact if_neg (by simpa using hcloser)

/-- One case for each kind of token; strings, template literals, comments and regular expressions
are ruled out. -/
theorem pairs_step (hd : d.NoTemplate) (hplain : Text.NoLiteral (c :: rest)) :
    d.Pairs (c :: rest) (d.step q c rest) := by
  obtain ⟨hsingle, hdouble, hback, hslash⟩ := hplain c List.mem_cons_self
  unfold step
  split_ifs with hgap hquote hparen hbracket hbrace hclose hcomma
  · have hrun : ∀ x ∈ c :: rest.takeWhile isGap, isGap x = true :=
      List.forall_mem_cons.2 ⟨hgap, fun x hx => List.mem_takeWhile_imp hx⟩
    have h := pairs_gap hd hrun (rest.dropWhile isGap)
    rwa [List.cons_append, List.takeWhile_append_dropWhile] at h
  · simp [hsingle, hdouble] at hquote
  · obtain ⟨hopener, hframe⟩ := parenFrame_bracket rest
    exact pairs_openFrame hd hframe (hopener.trans hparen.symm) rest
  · exact pairs_openFrame (f := .bracket) hd (by decide) hbracket.symm rest
  · obtain ⟨hopener, hframe⟩ := d.braceFrame_bracket rest
    exact pairs_openFrame hd hframe (hopener.trans hbrace.symm) rest
  · exact pairs_close hd (by simpa [Text.isCloser] using hclose) rest
  · rw [hcomma]
    exact pairs_sameOpen hd d.sameOpen_comma (by decide) (by decide) (by decide) rest
  · have hopen : Text.closerOf? c = none := by
      simp [Text.closerOf?, hparen, hbracket, hbrace]
    have hbreak : c ≠ '\n' := by
      rintro rfl
      exact hgap rfl
    exact pairs_sameOpen hd (d.sameOpen_token [c]) hopen (by simpa [Text.isCloser] using hclose) hbreak
      rest

/-- Reading a whole text pairs its brackets. -/
theorem read_pending (hd : d.NoTemplate) (hplain : Text.NoLiteral t) :
    (read q d t).map pending = d.paired t := by
  induction d, t using read.induct q with
  | case1 d =>
    rw [read]
    rfl
  | case2 d c rest f hf =>
    have h := pairs_step (q := q) hd hplain
    rw [hf] at h
    rw [read_of_error hf]
    exact Eq.symm h
  | case3 d c rest e rest' he ih =>
    have h := pairs_step (q := q) hd hplain
    rw [he] at h
    obtain ⟨hd', hsuffix, hpaired⟩ := h
    rw [read_of_step he, ih hd' (hplain.of_suffix hsuffix), hpaired]

/-- All that can go wrong with a script without literals and comments are its brackets. -/
theorem collapse_pairs (hplain : Text.NoLiteral t) :
    (collapse q t).map (fun _ => ()) = match Text.pairs 1 [] t with
      | .error e => .error (strayFault e)
      | .ok [] => .ok ()
      | .ok ((o, n) :: _) => .error (.unclosedBracket o n) := by
  have h := read_pending (q := q) (d := {}) (fun _ hx => nomatch hx) hplain
  have hpaired : ({} : Draft).paired t = (Text.pairs 1 [] t).mapError strayFault := rfl
  rw [hpaired] at h
  rw [collapse]
  cases hread : read q {} t with
  | error f =>
    rw [hread] at h
    cases hp : Text.pairs 1 [] t with
    | error e =>
      rw [hp] at h
      cases h
      rfl
    | ok stack =>
      rw [hp] at h
      cases h
  | ok d =>
    rw [hread] at h
    cases hp : Text.pairs 1 [] t with
    | error e =>
      rw [hp] at h
      cases h
    | ok stack =>
      rw [hp] at h
      cases h
      dsimp only
      rw [pending]
      cases d.frames <;> rfl

end Draft

/-- A script without literals and comments is laid out iff its brackets are balanced. Otherwise the
fault names the first closing bracket that is not that of the innermost open one or, where there is
none, the innermost bracket that is open at the end, each with the line on which it stands. -/
theorem normalize_pairs_brackets {path : String} (script : isScript path = true)
    (o : StyleOverrides) {source : Text} (plain : source.NoLiteral) :
    ((∃ y, normalize path o source = .ok y) ↔ Text.Balanced source) ∧
      ∀ f, normalize path o source = .error f ↔
        (∃ front c rest, source = front ++ c :: rest ∧ Text.Matched front ∧ Text.Stray front c ∧
          f = .unbalancedBracket c (1 + front.count '\n')) ∨
        Text.Matched source ∧ ∃ b n, Text.Innermost source b n ∧ f = .unclosedBracket b n := by
  have hverdict : (normalize path o source).map (fun _ => ()) =
      (Draft.collapse o.resolve.quote source).map fun _ => () := by
    rw [normalize, if_pos script, normalizeScript]
    cases Draft.collapse o.resolve.quote source <;> rfl
  rw [Draft.collapse_pairs plain] at hverdict
  have hstray (f : Fault) : (∃ front c rest, source = front ++ c :: rest ∧ Text.Matched front ∧
      Text.Stray front c ∧ f = .unbalancedBracket c (1 + front.count '\n')) ↔
        ∃ e, Text.pairs 1 [] source = .error e ∧ f = Draft.strayFault e := by
    constructor
    · rintro ⟨front, c, rest, hsource, hfront, hc, rfl⟩
      exact ⟨_, Text.pairs_eq_error_iff.2 ⟨front, c, rest, hsource, hfront, hc, rfl⟩, rfl⟩
    · rintro ⟨e, he, rfl⟩
      obtain ⟨front, c, rest, hsource, hfront, hc, rfl⟩ := Text.pairs_eq_error_iff.1 he
      exact ⟨front, c, rest, hsource, hfront, hc, rfl⟩
  have hopen (f : Fault) : (Text.Matched source ∧ ∃ b n, Text.Innermost source b n ∧
      f = .unclosedBracket b n) ↔ ∃ b n, (∃ stack, Text.pairs 1 [] source = .ok ((b, n) :: stack)) ∧
        f = .unclosedBracket b n := by
    simp only [← Text.open_iff, and_assoc, exists_and_left]
  simp only [hstray, hopen, Text.balanced_iff]
  cases hn : normalize path o source with
  | ok y =>
    rw [hn] at hverdict
    split at hverdict
    · cases hverdict
    · next hp => simp [hp]
    · cases hverdict
  | error f =>
    rw [hn] at hverdict
    split at hverdict
    · next e hp =>
      cases hverdict
      simp [hp, eq_comm]
    · cases hverdict
    · next b n stack hp =>
      cases hverdict
      refine ⟨by simp [hp], fun f => ⟨fun h => ?_, ?_⟩⟩
      · cases h
        exact .inr ⟨b, n, ⟨stack, hp⟩, rfl⟩
      · rintro (⟨e, he, -⟩ | ⟨b', n', ⟨stack', hp'⟩, rfl⟩)
        · exact nomatch hp.symm.trans he
        · cases hp.symm.trans hp'
          rfl

/-- Markup over two lines, a bracket in it that another kind closes, and one that is left open. -/
theorem normalize_pairs_brackets_markup :
    let whole := "f(\n  <b x=\x7b[1]\x7d>\n)\n".toList
    let crossed := "f(\n  <b x=\x7b[1\x7d>\n)\n".toList
    let cut := "f(\n  <b x=\x7b[1]\n".toList
    (∃ y, normalize "src/App.tsx" {} whole = .ok y) ∧
      normalize "src/App.tsx" {} crossed = .error (.unbalancedBracket '\x7d' 2) ∧
      normalize "src/App.tsx" {} cut = .error (.unclosedBracket '\x7b' 2) := by
  intro whole crossed cut
  have script : isScript "src/App.tsx" = true := by decide
  refine ⟨?_, ?_, ?_⟩
  · exact (normalize_pairs_brackets script {} (by decide)).1.2 (Text.balanced_iff.2 (by decide))
  · refine ((normalize_pairs_brackets script {} (by decide)).2 _).2 (.inl ?_)
    have hstops : Text.pairs 1 [] crossed = .error ('\x7d', 2) := by decide
    obtain ⟨front, c, rest, hsource, hfront, hstray, he⟩ := Text.pairs_eq_error_iff.1 hstops
    obtain ⟨hc, hline⟩ := Prod.mk.inj he
    exact ⟨front, c, rest, hsource, hfront, hstray, by rw [hc, hline]⟩
  · refine ((normalize_pairs_brackets script {} (by decide)).2 _).2 (.inr ?_)
    have hleft : Text.pairs 1 [] cut = .ok [('\x7b', 2), ('(', 1)] := by decide
    obtain ⟨hmatched, hinner⟩ := Text.open_iff.2 ⟨_, hleft⟩
    exact ⟨hmatched, _, _, hinner, rfl⟩

end ProjectSetup
