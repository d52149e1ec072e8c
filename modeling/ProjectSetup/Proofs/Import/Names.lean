import ProjectSetup.Proofs.Import.Statement
import ProjectSetup.Proofs.Layout.Context

/-!
# Reading names

Characters of names are written as they stand, and names in braces are written on one line, whether
they share a line in the text or not. What follows them does not matter.
-/
namespace ProjectSetup

open Lines (NamedImport)

namespace Draft

variable {q c : Char} {b d : Draft} {rest : Text}

/-- A character that reading takes by itself and writes wherever it stands. -/
def isSingle (c : Char) : Bool :=
  !isGap c && !(['\'', '"', '\x60', '/', '(', '[', '{', ')', ']', '}', ','].contains c)

/-- A character that is written as it stands where lines are not joined. -/
def isOpen (c : Char) : Bool := isSingle c || c == ' ' || c == '\t' || c == ','

theorem token_eq_write (hpad : d.pad = false) (t : Text) : d.token t = d.write t := by
  simp [token, settle, hpad]

theorem step_single (h : isSingle c = true) : d.step q c rest = .ok (d.token [c], rest) := by
  simp only [isSingle, Bool.and_eq_true, Bool.not_eq_true', List.contains_eq_mem,
    decide_eq_false_iff_not] at h
  exact step_plain h.1 h.2

theorem read_single (h : isSingle c = true) (hpad : d.pad = false) :
    read q d (c :: rest) = read q (d.write [c]) rest := by
  rw [read_of_step (step_single h), token_eq_write hpad]

theorem write_write (d : Draft) (s t : Text) : (d.write s).write t = d.write (s ++ t) := by
  simp [write]

theorem read_singles {t : Text} (h : ∀ c ∈ t, isSingle c = true) (hpad : d.pad = false) :
    read q d (t ++ rest) = read q (d.write t) rest := by
  induction t generalizing d with
  | nil => rfl
  | cons c t ih =>
    rw [List.cons_append, read_single (h c List.mem_cons_self) hpad,
      ih (d := d.write [c]) (fun x hx => h x (List.mem_cons_of_mem c hx)) hpad, write_write]
    rfl

/-- Write a blank where lines are not joined. -/
def writeGap (d : Draft) (c : Char) : Draft :=
  if c = '\n' then d.breakLine d.lineEnd else if c = '\r' then d else d.write [c]

theorem writeGap_advance (d : Draft) (t : Text) (c : Char) :
    (d.advance t).writeGap c = (d.writeGap c).advance t := by
  unfold writeGap
  split
  · rfl
  · split <;> rfl

theorem foldl_writeGap_advance (d : Draft) (t run : Text) :
    run.foldl writeGap (d.advance t) = (run.foldl writeGap d).advance t := by
  induction run generalizing d with
  | nil => rfl
  | cons c run ih => rw [List.foldl_cons, List.foldl_cons, writeGap_advance, ih]

theorem advance_advance (d : Draft) (s t : Text) : (d.advance s).advance t = d.advance (s ++ t) := by
  simp [advance, Nat.add_assoc]

theorem gap_of_not_joins (hj : d.joins = false) (run rest : Text) :
    d.gap run rest = (run.foldl writeGap d).advance run := by
  have hno : (d.advance run).joins = false := hj
  rw [← foldl_writeGap_advance, gap]
  simp only [hno, Bool.false_eq_true, if_false]
  rfl

theorem joins_writeGap (d : Draft) (c : Char) : (d.writeGap c).joins = d.joins := by
  unfold writeGap
  split
  · rfl
  · split <;> rfl

/-- Where lines are not joined, blanks are read one by one. -/
theorem read_gap (hj : d.joins = false) (hc : isGap c = true) :
    read q d (c :: rest) = read q ((d.writeGap c).advance [c]) rest := by
  have hj' : ((d.writeGap c).advance [c]).joins = false := (joins_writeGap d c).trans hj
  rw [read_of_step (step_gap hc), gap_of_not_joins hj, List.foldl_cons]
  cases rest with
  | nil => rfl
  | cons c' rest =>
    by_cases hc' : isGap c' = true
    · rw [read_of_step (step_gap hc'), gap_of_not_joins hj', List.takeWhile_cons_of_pos hc',
        List.dropWhile_cons_of_pos hc', foldl_writeGap_advance, advance_advance]
      rfl
    · rw [List.takeWhile_cons_of_neg hc', List.dropWhile_cons_of_neg hc']
      rfl

theorem read_open {t : Text} (h : ∀ c ∈ t, isOpen c = true) (hj : d.joins = false)
    (hpad : d.pad = false) : read q d (t ++ rest) = read q (d.write t) rest := by
  induction t generalizing d with
  | nil => rfl
  | cons c t ih =>
    have hfirst : read q d (c :: (t ++ rest)) = read q (d.write [c]) (t ++ rest) := by
      have hc := h c List.mem_cons_self
      simp only [isOpen, Bool.or_eq_true, beq_iff_eq] at hc
      rcases hc with ((hc | rfl) | rfl) | rfl
      · exact read_single hc hpad
      · rw [read_gap hj (by decide)]
        rfl
      · rw [read_gap hj (by decide)]
        rfl
      · have hcomma : d.step q ',' (t ++ rest) = .ok (d.comma, t ++ rest) := rfl
        rw [read_of_step hcomma, comma, hj, if_neg Bool.false_ne_true, token_eq_write hpad]
    rw [List.cons_append, hfirst,
      ih (d := d.write [c]) (fun x hx => h x (List.mem_cons_of_mem c hx)) hj hpad, write_write]
    rfl

/-- A character that no blank, quote, slash, bracket or other mark is. -/
def isPlain (c : Char) : Bool := !Text.isBlank c && !Import.marks.contains c

theorem isPlain_of_isBinding (hc : NamedImport.isBinding c = true) : isPlain c = true := by
  simp [isPlain, Import.isBlank_of_isBinding hc, Import.not_mem_marks hc]

theorem isGap_of_isPlain (hc : isPlain c = true) : isGap c = false := by
  have hno : ∀ c ∈ [' ', '\t', '\r', '\n'], isPlain c = false := by decide
  rw [← Bool.not_eq_true]
  intro hgap
  have hmem : c ∈ [' ', '\t', '\r', '\n'] := by simpa [isGap, or_assoc] using hgap
  rw [hno c hmem] at hc
  cases hc

theorem not_mem_marks_of_isPlain (hc : isPlain c = true) : c ∉ Import.marks := by
  simp only [isPlain, Bool.and_eq_true, Bool.not_eq_true', List.contains_eq_mem,
    decide_eq_false_iff_not] at hc
  exact hc.2

theorem isSingle_of_isPlain (hc : isPlain c = true) : isSingle c = true := by
  have hmarks := not_mem_marks_of_isPlain hc
  simp only [Import.marks, List.mem_cons, not_or] at hmarks
  simp [isSingle, isGap_of_isPlain hc, hmarks]

theorem isGap_of_isBinding (hc : NamedImport.isBinding c = true) : isGap c = false :=
  isGap_of_isPlain (isPlain_of_isBinding hc)

theorem isSingle_of_isBinding (hc : NamedImport.isBinding c = true) : isSingle c = true :=
  isSingle_of_isPlain (isPlain_of_isBinding hc)

/-- Inside brackets that join lines, blanks ahead of a word become one. -/
theorem read_joined_gap (hj : d.joins = true) {gap : Text} (hne : gap ≠ [])
    (hgap : ∀ c ∈ gap, isGap c = true) {x : Char} (hx : d.back.head? = some x)
    (hopen : x ≠ '(' ∧ x ≠ '[' ∧ x ≠ ' ') (hc : isPlain c = true) :
    read q d (gap ++ c :: rest) =
      read q { (d.write [' ']).advance gap with pad := false } (c :: rest) := by
  have hstop : isGap c ≠ true := by simp [isGap_of_isPlain hc]
  have hcloser : [')', ']', '}', ','].contains c = false := by
    have hmarks := not_mem_marks_of_isPlain hc
    simp only [Import.marks, List.mem_cons, not_or] at hmarks
    simp [hmarks]
  obtain ⟨g, run, rfl⟩ := List.exists_cons_of_ne_nil hne
  have htake : (run ++ c :: rest).takeWhile isGap = run := by
    rw [List.takeWhile_append_of_pos fun x hx => hgap x (List.mem_cons_of_mem g hx),
      List.takeWhile_cons_of_neg hstop, List.append_nil]
  have hdrop : (run ++ c :: rest).dropWhile isGap = c :: rest := by
    rw [List.dropWhile_append_of_pos fun x hx => hgap x (List.mem_cons_of_mem g hx),
      List.dropWhile_cons_of_neg hstop]
  rw [List.cons_append, read_of_step (step_gap (hgap g List.mem_cons_self)), htake, hdrop]
  congr 1
  have hjoins : (d.advance (g :: run)).joins = true := hj
  have hends : (d.advance (g :: run)).endsWith ['(', '['] = false := by
    change d.endsWith ['(', '['] = false
    simp [endsWith, hx, hopen]
  have hblank : (d.advance (g :: run)).endsWith [' '] = false := by
    change d.endsWith [' '] = false
    simp [endsWith, hx, hopen]
  simp only [Draft.gap, hjoins, hends, List.head?_cons, Option.all_some, hcloser, space, hblank,
    Bool.false_or, Bool.false_eq_true, if_false, if_true]
  rfl

theorem head?_write {t : Text} (hc : t.getLast? = some c) (d : Draft) :
    (d.write t).back.head? = some c := by
  obtain ⟨r, rfl⟩ := List.getLast?_eq_some_iff.1 hc
  simp [write]

theorem ne_of_isBinding (hc : NamedImport.isBinding c = true) : c ≠ '(' ∧ c ≠ '[' ∧ c ≠ ' ' := by
  refine ⟨?_, ?_, ?_⟩
  all_goals
    rintro rfl
    exact absurd hc (by decide)

theorem read_phrase {p : Text} (hp : Import.Phrase p) (hj : d.joins = true)
    (hpad : d.pad = false) : read q d (p ++ rest) = read q (d.write p) rest := by
  induction hp generalizing d with
  | name hname => exact read_singles (fun c hc => isSingle_of_isBinding (hname.chars c hc)) hpad
  | @cons t p hname hp ih =>
    obtain ⟨x, hx, hbinding⟩ := hname.exists_last
    obtain ⟨c, r, rfl, hc⟩ := hp.exists_cons
    have hblank : { ((d.write t).write [' ']).advance [' '] with pad := false } =
        d.write (t ++ [' ']) := by
      cases d
      simp_all [write, advance]
    rw [List.append_assoc, read_singles (fun c hc => isSingle_of_isBinding (hname.chars c hc)) hpad]
    change read q (d.write t) ([' '] ++ c :: (r ++ rest)) = _
    rw [read_joined_gap (d := d.write t) hj (List.cons_ne_nil _ _) (by simp [isGap])
      (head?_write hx d) (ne_of_isBinding hbinding) (isPlain_of_isBinding hc), hblank]
    have hrest := ih (d := d.write (t ++ [' '])) hj hpad
    rw [List.cons_append] at hrest
    rw [hrest, write_write, List.append_assoc]
    rfl

/-- The draft with another count of the lines that were read. -/
def recount (d : Draft) (n : Nat) : Draft := { d with line := n }

/-- Reading `t` onto `d` gives `e`, whatever follows, up to the count of lines. -/
def Takes (q : Char) (d : Draft) (t : Text) (e : Draft) : Prop :=
  ∀ rest, ∃ n, read q d (t ++ rest) = read q (e.recount n) rest

theorem Takes.append {e f : Draft} {s t : Text} (h : Takes q d s e)
    (h' : ∀ n, Takes q (e.recount n) t f) : Takes q d (s ++ t) f := by
  intro rest
  obtain ⟨n, hs⟩ := h (t ++ rest)
  obtain ⟨k, ht⟩ := h' n rest
  exact ⟨k, by rw [List.append_assoc, hs, ht]⟩

/-- Names in braces behind the opening one, with `gap` ahead of each name and `close` at the end. -/
def braced (gap close : Text) : List Text → Text
  | [] => close
  | [n] => gap ++ (n ++ close)
  | n :: m :: ns => gap ++ (n ++ ',' :: braced gap close (m :: ns))

/-- What may stand behind the last name: a comma, one blank and the closing brace. -/
def closing (comma : Bool) (c : Char) : Text := if comma then [',', c, '}'] else [c, '}']

theorem takes_phrase (hj : d.joins = true) {gap : Text} (hne : gap ≠ [])
    (hgap : ∀ c ∈ gap, isGap c = true) {x : Char} (hx : d.back.head? = some x)
    (hopen : x ≠ '(' ∧ x ≠ '[' ∧ x ≠ ' ') {p : Text} (hp : Import.Phrase p) :
    Takes q d (gap ++ p) { d.write (' ' :: p) with pad := false } := by
  intro rest
  obtain ⟨c, r, rfl, hc⟩ := hp.exists_cons
  have hwrite : ({ (d.write [' ']).advance gap with pad := false } : Draft).write (c :: r) =
      { d.write (' ' :: c :: r) with line := (d.advance gap).line, pad := false } := by
    simp [write, advance]
  refine ⟨(d.advance gap).line, ?_⟩
  rw [List.append_assoc, List.cons_append, read_joined_gap hj hne hgap hx hopen
      (isPlain_of_isBinding hc),
    ← List.cons_append, read_phrase (d := { (d.write [' ']).advance gap with pad := false }) hp hj rfl,
    hwrite]
  rfl

/-- The last character that was written is one of a name. -/
def EndsInName (d : Draft) : Prop := ∃ c, d.back.head? = some c ∧ NamedImport.isBinding c = true

theorem endsInName_write {p : Text} (hp : Import.Phrase p) (d : Draft) : (d.write p).EndsInName := by
  obtain ⟨c, hc, hbinding⟩ := hp.exists_last
  exact ⟨c, head?_write hc d, hbinding⟩

theorem retract_of_head? (hx : d.back.head? = some c) (hc : c ≠ ' ' ∧ c ≠ '\t') :
    d.retract = d :=
  retract_of_head fun x hx' => by
    cases hx.symm.trans hx'
    exact hc

theorem EndsInName.retract (h : d.EndsInName) : d.retract = d := by
  obtain ⟨c, hc, hbinding⟩ := h
  have hgap := isGap_of_isBinding hbinding
  simp only [isGap, Bool.or_eq_false_iff, beq_eq_false_iff_ne] at hgap
  exact retract_of_head? hc hgap.1.1

theorem EndsInName.endsWith (h : d.EndsInName) {m : Char} (hm : m ∈ Import.marks) :
    d.endsWith [m] = false := by
  obtain ⟨c, hc, hbinding⟩ := h
  have hne : c ≠ m := fun he => Import.not_mem_marks hbinding (he ▸ hm)
  simp [Draft.endsWith, hc, hne]

/-- The end of a list keeps one blank behind the last item. -/
theorem endList_of_head? (hx : d.back.head? = some c) (hc : c ∉ [' ', '\t', ',', '{']) :
    d.endList .list = d.write [' '] := by
  simp only [List.mem_cons, List.not_mem_nil, or_false, not_or] at hc
  have hends (m : Char) (hm : c ≠ m) : d.endsWith [m] = false := by simp [endsWith, hx, hm]
  simp only [Draft.endList, retract_of_head? hx ⟨hc.1, hc.2.1⟩, hends ',' hc.2.2.1,
    hends '{' hc.2.2.2, Bool.false_eq_true, if_false, Bool.not_false, Bool.and_true, decide_true,
    if_true]

theorem EndsInName.endList (h : d.EndsInName) : d.endList .list = d.write [' '] := by
  obtain ⟨c, hc, hbinding⟩ := h
  refine endList_of_head? hc fun hmem => ?_
  have hno : ∀ c ∈ [' ', '\t', ',', '{'], NamedImport.isBinding c = false := by decide
  rw [hno c hmem] at hbinding
  cases hbinding

/-- The end of a list drops a comma behind the last name. -/
theorem EndsInName.endList_comma (h : d.EndsInName) :
    (d.write [',']).endList .list = d.write [' '] := by
  have hkeep : (d.write [',']).retract = d.write [','] :=
    retract_of_head? (c := ',') rfl (by decide)
  have hcomma : (d.write [',']).endsWith [','] = true := rfl
  have hdrop : ({ d.write [','] with back := (d.write [',']).back.tail } : Draft).retract = d :=
    h.retract
  simp only [Draft.endList, hkeep, hcomma, if_true, hdrop, h.endsWith (m := '{') (by decide),
    Bool.not_false, Bool.and_true, decide_true]

/-- Ahead of the closing brace of a list, blanks are dropped. -/
theorem read_close {n : Nat} (hframes : d.frames = [(.list, n)]) {g : Char} (hg : isGap g = true) :
    read q d (g :: '}' :: rest) =
      read q ((({ d.advance [g] with frames := [], pad := false } : Draft).endList .list).write ['}'])
        rest := by
  have hgap : d.step q g ('}' :: rest) = .ok (d.advance [g], '}' :: rest) := by
    have hj : (d.advance [g]).joins = true := by simp [joins, top?, advance, hframes, Frame.joins]
    have hstop : isGap '}' ≠ true := by decide
    rw [step_gap hg, List.takeWhile_cons_of_neg hstop, List.dropWhile_cons_of_neg hstop, gap]
    simp [hj]
  have hclose : (d.advance [g]).step q '}' rest = .ok
      ((({ d.advance [g] with frames := [], pad := false } : Draft).endList .list).write ['}'],
        rest) := by
    change (d.advance [g]).close '}' rest = _
    have hframes' : (d.advance [g]).frames = [(.list, n)] := hframes
    simp [close, hframes', Frame.closer, Frame.joins]
  rw [read_of_step hgap, read_of_step hclose]

theorem read_comma (hname : d.EndsInName) (hj : d.joins = true) :
    read q d (',' :: rest) = read q { d.write [','] with pad := true } rest := by
  have hcomma : d.step q ',' rest = .ok (d.comma, rest) := rfl
  rw [read_of_step hcomma, comma, if_pos hj, hname.retract]

theorem takes_closing {n : Nat} (hframes : d.frames = [(.list, n)]) (hname : d.EndsInName)
    (comma : Bool) {g : Char} (hg : isGap g = true) :
    Takes q d (closing comma g) { d.write [' ', '}'] with frames := [], pad := false } := by
  intro rest
  refine ⟨(d.advance [g]).line, ?_⟩
  let e : Draft := { d.advance [g] with frames := [], pad := false }
  have hname' : e.EndsInName := hname
  have hwrite : (e.write [' ']).write ['}'] =
      ({ d.write [' ', '}'] with frames := [], pad := false } : Draft).recount (d.advance [g]).line :=
    rfl
  rw [← hwrite]
  cases comma with
  | false =>
    rw [← hname'.endList]
    exact read_close hframes hg
  | true =>
    have hj : d.joins = true := by simp [joins, top?, hframes, Frame.joins]
    rw [← hname'.endList_comma]
    exact (read_comma hname hj).trans (read_close (d := { d.write [','] with pad := true }) hframes hg)

/-- Names in braces are written on one line, one blank ahead of each and one at the end. -/
theorem takes_braced {n : Nat} (hframes : d.frames = [(.list, n)]) {x : Char}
    (hx : d.back.head? = some x) (hopen : x ≠ '(' ∧ x ≠ '[' ∧ x ≠ ' ') {gap : Text} (hne : gap ≠ [])
    (hgap : ∀ c ∈ gap, isGap c = true) (comma : Bool) {g : Char} (hg : isGap g = true)
    {names : List Text} (hnames : names ≠ []) (hphrase : ∀ p ∈ names, Import.Phrase p) :
    Takes q d (braced gap (closing comma g) names)
      { d.write (braced [' '] [' ', '}'] names) with frames := [], pad := false } := by
  have hj (d : Draft) (hframes : d.frames = [(.list, n)]) : d.joins = true := by
    simp [joins, top?, hframes, Frame.joins]
  induction names generalizing d x with
  | nil => exact absurd rfl hnames
  | cons p ps ih =>
    have hp : Import.Phrase p := hphrase p List.mem_cons_self
    have hfirst := takes_phrase (q := q) (hj d hframes) hne hgap hx hopen hp
    have hname : (d.write (' ' :: p)).EndsInName := by
      have h := endsInName_write hp (d.write [' '])
      rwa [write_write] at h
    cases ps with
    | nil =>
      rw [braced, ← List.append_assoc]
      refine hfirst.append fun k rest => ?_
      obtain ⟨l, hl⟩ := takes_closing (q := q)
        (d := { d.write (' ' :: p) with line := k, pad := false }) hframes hname comma hg rest
      refine ⟨l, hl.trans (congrArg (read q · rest) ?_)⟩
      simp [write, braced, recount]
    | cons p' ps =>
      rw [braced, ← List.append_assoc]
      refine hfirst.append fun k rest => ?_
      let more := braced gap (closing comma g) (p' :: ps) ++ rest
      let e : Draft := { d.write (' ' :: p) with line := k, pad := false }
      have hcomma : read q e (',' :: more) = read q { e.write [','] with pad := true } more :=
        read_comma hname (hj _ hframes)
      obtain ⟨l, hl⟩ := ih (d := { d.write (' ' :: p ++ [',']) with line := k, pad := true }) hframes
        (x := ',') (by simp [write]) (by decide) (List.cons_ne_nil p' ps)
        (fun p hp => hphrase p (List.mem_cons_of_mem _ hp)) rest
      refine ⟨l, hcomma.trans ?_⟩
      have hstart : ({ e.write [','] with pad := true } : Draft) =
          { d.write (' ' :: p ++ [',']) with line := k, pad := true } := by
        simp [write, e]
      rw [hstart, hl]
      simp [write, braced, recount]

end Draft

end ProjectSetup
