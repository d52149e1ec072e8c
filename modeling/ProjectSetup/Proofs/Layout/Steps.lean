import Mathlib.Data.List.Basic
import Mathlib.Data.List.TakeWhile
import ProjectSetup.Layout.Draft

/-!
# The steps of reading

A step of reading takes one token, and what it makes of the draft depends on the kind of token. The
kinds are told apart here once. What every step keeps is then shown kind by kind, and what a whole
run keeps by induction on the run.
-/
namespace ProjectSetup.Draft

variable {q c : Char} {d d' e : Draft} {n : Nat} {rest rest' : Text}

/-- The quote between which the text of a string is written: in markup that of the source. -/
def mark (preferred : Char) (d : Draft) (quote : Char) (body : Text) : Char :=
  if d.inMarkup then quote else Literal.requote preferred quote body

/-- A string is copied between its new quotes. -/
def quoted (preferred : Char) (d : Draft) (quote : Char) (body : Text) : Draft :=
  (((d.token [d.mark preferred quote body]).copy body).write
    [d.mark preferred quote body]).advance body

def openSubstitution (d : Draft) : Draft := { d with frames := (.substitution, d.line) :: d.frames }

/-- A stretch of a template literal is copied; it may end where a substitution opens. -/
def stretched (d : Draft) (body : Text) : Literal.Stretch → Draft
  | .closed => (d.copy body).advance body
  | .opened => ((d.copy body).advance body).openSubstitution

/-- A block comment is copied through its closing mark. -/
def commented (d : Draft) (body : Text) : Draft :=
  (d.settle.copy ('/' :: '*' :: body)).advance body

/-- The innermost bracket closes, and those around it are left open. -/
def closeFrame (d : Draft) (f : Frame) (frames : List (Frame × Nat)) : Draft :=
  let d := { d with frames := frames, pad := false }
  (if f.joins then d.endList f else d).write [f.closer]

/-- Whether a slash ahead of `rest` opens a regular expression here. -/
def opensRegex (d : Draft) (rest : Text) : Bool :=
  !d.inMarkup && d.regexAllowed && rest.head? != some '/' && rest.head? != some '*'

/-- The line breaks inside the regular expression that `c` opens here, if it opens one. -/
def regexBreaks (d : Draft) (c : Char) (rest : Text) : Nat :=
  if c = '/' && d.opensRegex rest then
    match Literal.regex? false rest with
    | some (body, _) => body.count '\n'
    | none => 0
  else 0

theorem regexBreaks_of_ne (rest : Text) (h : c ≠ '/') : d.regexBreaks c rest = 0 := by
  simp [regexBreaks, h]

theorem regexBreaks_of_not_opens (c : Char) (h : d.opensRegex rest = false) :
    d.regexBreaks c rest = 0 := by
  simp [regexBreaks, h]

/-- The line breaks of a regular expression with its flags. -/
theorem regexBreaks_of_regex? {body tail : Text} (ho : d.opensRegex rest = true)
    (hs : Literal.regex? false rest = some (body, tail)) :
    d.regexBreaks '/' rest = ('/' :: body ++ tail.takeWhile Char.isAlpha).count '\n' := by
  have hflags : '\n' ∉ tail.takeWhile Char.isAlpha := by
    intro hm
    cases List.mem_takeWhile_imp hm
  simp [regexBreaks, ho, hs, List.count_eq_zero.2 hflags]

/-- Where no comment starts and a regular expression may stand, one is read. -/
theorem opensRegex_of_slash (hline : ¬(rest.head? = some '/' && !d.inMarkup) = true)
    (hblock : rest.head? ≠ some '*') (hr : (!d.inMarkup && d.regexAllowed) = true) :
    d.opensRegex rest = true := by
  simp only [Bool.and_eq_true, Bool.not_eq_true', decide_eq_true_eq, not_and] at hline hr
  simp only [opensRegex, hr.1, hr.2, Bool.not_false, Bool.true_and, Bool.and_eq_true,
    bne_iff_ne, ne_eq]
  exact ⟨fun hhead => by simp [hhead, hr.1] at hline, hblock⟩

theorem head?_ne_star_of_opensRegex (h : d.opensRegex rest = true) : rest.head? ≠ some '*' := by
  unfold opensRegex at h
  exact bne_iff_ne.1 (Bool.and_eq_true_iff.1 h).2

/-- Behind a character that is no blank there is nothing to take back. -/
theorem retract_of_head (h : ∀ a ∈ d.back.head?, a ≠ ' ' ∧ a ≠ '\t') : d.retract = d := by
  obtain ⟨back, ends, frames, line, pad⟩ := d
  cases back with
  | nil => rfl
  | cons a back =>
    obtain ⟨hspace, htab⟩ := h a rfl
    have hdrop : (a :: back).dropWhile (fun c => c == ' ' || c == '\t') = a :: back :=
      List.dropWhile_cons_of_neg (by simp [hspace, htab])
    rw [retract, hdrop]

theorem back_copy (d : Draft) (t : Text) : (d.copy t).back = t.reverse ++ d.back := by
  induction t generalizing d with
  | nil => rfl
  | cons c t ih =>
    rw [copy, List.reverse_cons, List.append_assoc]
    split
    · next hc => rw [ih, breakLine, hc]; rfl
    · rw [ih]; rfl

/-- The characters that begin a token of their own kind, blanks apart. -/
def tokenMarks : Text := ['\'', '"', '\x60', '/', '(', '[', '{', ')', ']', '}', ',']

/-- A step that reads a token from `c` ahead of `rest` onto `d`: `n` line breaks stand inside a
regular expression, and `d'` ahead of `rest'` is what comes of it. -/
inductive Step (q : Char) (d : Draft) : Char → Text → Nat → Draft → Text → Prop where
  | gap {c : Char} {rest : Text} : isGap c = true →
    Step q d c rest 0 (d.gap (c :: rest.takeWhile isGap) (rest.dropWhile isGap))
      (rest.dropWhile isGap)
  /-- A quote in the text of markup. -/
  | quote {c : Char} {rest : Text} : c = '\'' ∨ c = '"' → d.inMarkup = true →
    d.endsWith ['='] = false → Step q d c rest 0 (d.token [c]) rest
  | string {c : Char} {rest body rest' : Text} : c = '\'' ∨ c = '"' →
    (d.inMarkup = true → d.endsWith ['='] = true) →
      Literal.string? c rest = some (body, rest') → Step q d c rest 0 (d.quoted q c body) rest'
  | template {rest body rest' : Text} {s : Literal.Stretch} :
    Literal.template? rest = some (body, s, rest') →
      Step q d '\x60' rest 0 ((d.token ['\x60']).stretched body s) rest'
  | lineComment {rest : Text} : d.inMarkup = false →
    Step q d '/' ('/' :: rest) 0 (d.lineComment (rest.takeWhile (· ≠ '\n')))
      (rest.dropWhile (· ≠ '\n'))
  | blockComment {rest body rest' : Text} : Literal.comment? rest = some (body, rest') →
    Step q d '/' ('*' :: rest) 0 (d.commented body) rest'
  | regex {rest body tail : Text} : d.opensRegex rest = true →
    Literal.regex? false rest = some (body, tail) →
      Step q d '/' rest (('/' :: body ++ tail.takeWhile Char.isAlpha).count '\n')
        (d.token ('/' :: body ++ tail.takeWhile Char.isAlpha)) (tail.dropWhile Char.isAlpha)
  | slash {rest : Text} : rest.head? ≠ some '*' → (d.inMarkup = false → rest.head? ≠ some '/') →
    Step q d '/' rest 0 (d.token ['/']) rest
  | opened {f : Frame} {rest : Text} : f ≠ .substitution →
    Step q d f.opener rest 0 (d.openFrame f) rest
  | closed {f : Frame} {n : Nat} {fs : List (Frame × Nat)} {rest : Text} : f ≠ .substitution →
    d.frames = (f, n) :: fs → Step q d f.closer rest 0 (d.closeFrame f fs) rest
  /-- Behind a substitution the template literal goes on. -/
  | resumed {n : Nat} {fs : List (Frame × Nat)} {rest body rest' : Text} {s : Literal.Stretch} :
    d.frames = (.substitution, n) :: fs → Literal.template? rest = some (body, s, rest') →
      Step q d '}' rest 0 ((d.closeFrame .substitution fs).stretched body s) rest'
  | comma {rest : Text} : Step q d ',' rest 0 d.comma rest
  | plain {c : Char} {rest : Text} : isGap c = false → c ∉ tokenMarks →
    Step q d c rest 0 (d.token [c]) rest

theorem isBlank_of_isGap (hc : isGap c = true) : Text.isBlank c = true := by
  simp only [isGap, Bool.or_eq_true, beq_iff_eq] at hc
  rcases hc with ((rfl | rfl) | rfl) | rfl
  all_goals decide

theorem step_gap (hc : isGap c = true) : d.step q c rest =
    .ok (d.gap (c :: rest.takeWhile isGap) (rest.dropWhile isGap), rest.dropWhile isGap) := by
  rw [step, if_pos hc]

theorem step_plain (hgap : isGap c = false) (hc : c ∉ tokenMarks) :
    d.step q c rest = .ok (d.token [c], rest) := by
  simp only [tokenMarks, List.mem_cons, List.not_mem_nil, or_false, not_or] at hc
  simp [step, hgap, hc]

theorem parenFrame_bracket (rest : Text) :
    (parenFrame rest).opener = '(' ∧ parenFrame rest ≠ .substitution := by
  unfold parenFrame
  split_ifs <;> decide

theorem braceFrame_bracket (d : Draft) (rest : Text) :
    (d.braceFrame rest).opener = '{' ∧ d.braceFrame rest ≠ .substitution := by
  unfold braceFrame
  split_ifs <;> decide

theorem string_cases (hc : c = '\'' ∨ c = '"') (h : d.string q c rest = .ok (d', rest')) :
    Step q d c rest 0 d' rest' := by
  unfold string at h
  split at h
  · next htext =>
    cases h
    obtain ⟨hmarkup, hend⟩ := Bool.and_eq_true_iff.1 htext
    exact .quote hc hmarkup (by simpa using hend)
  · next htext =>
    split at h
    · cases h
    · next body tail hs =>
      cases h
      exact .string hc (fun hmarkup => by simpa [hmarkup] using htext) hs

theorem template_cases (h : d.template n rest = .ok (d', rest')) :
    ∃ body s, Literal.template? rest = some (body, s, rest') ∧ d' = d.stretched body s := by
  unfold template at h
  split at h
  · cases h
  · next body tail ht =>
    cases h
    exact ⟨body, .closed, ht, rfl⟩
  · next body tail ht =>
    cases h
    exact ⟨body, .opened, ht, rfl⟩

theorem slash_cases (h : d.slash rest = .ok (d', rest')) :
    Step q d '/' rest (d.regexBreaks '/' rest) d' rest' := by
  unfold slash at h
  split at h
  · next hline =>
    cases h
    obtain ⟨hhead, hmarkup⟩ := Bool.and_eq_true_iff.1 hline
    obtain ⟨tail, rfl⟩ := List.head?_eq_some_iff.1 (of_decide_eq_true hhead)
    rw [regexBreaks_of_not_opens '/' (by simp [opensRegex])]
    exact .lineComment (by simpa using hmarkup)
  · next hline =>
    split at h
    · next hblock =>
      obtain ⟨tail, rfl⟩ := List.head?_eq_some_iff.1 hblock
      rw [regexBreaks_of_not_opens '/' (by simp [opensRegex])]
      unfold blockComment at h
      split at h
      · cases h
      · next body tail' ht =>
        cases h
        exact .blockComment ht
    · next hblock =>
      split at h
      · next hallowed =>
        have ho := opensRegex_of_slash hline hblock hallowed
        unfold regex at h
        split at h
        · cases h
        · next body tail ht =>
          cases h
          rw [regexBreaks_of_regex? ho ht]
          exact .regex ho ht
      · next hallowed =>
        cases h
        rw [regexBreaks_of_not_opens '/' (by
          rw [opensRegex, Bool.eq_false_iff.2 hallowed, Bool.false_and, Bool.false_and])]
        refine .slash hblock fun hmarkup hhead => ?_
        exact hline (by simp [hhead, hmarkup])

theorem close_cases (h : d.close c rest = .ok (d', rest')) : Step q d c rest 0 d' rest' := by
  unfold close at h
  split at h
  · cases h
  · next f n frames hframes =>
    split at h
    · cases h
    · next hcloser =>
      obtain rfl := not_not.1 hcloser
      dsimp only at h
      split at h
      · next hf =>
        subst hf
        obtain ⟨body, s, ht, rfl⟩ := template_cases h
        exact .resumed hframes ht
      · next hf =>
        cases h
        exact .closed hf hframes

/-- Every step that does not fail is of one of the kinds. -/
theorem step_cases (h : d.step q c rest = .ok (d', rest')) :
    Step q d c rest (d.regexBreaks c rest) d' rest' := by
  unfold step at h
  split_ifs at h with hgap hquote htick hslash hparen hbracket hbrace hclose hcomma
  · cases h
    rw [regexBreaks_of_ne rest (by rintro rfl; cases hgap)]
    exact .gap hgap
  · have hquote : c = '\'' ∨ c = '"' := by simpa using hquote
    rw [regexBreaks_of_ne rest (by rcases hquote with rfl | rfl <;> decide)]
    exact string_cases hquote h
  · subst htick
    obtain ⟨body, s, ht, rfl⟩ := template_cases h
    exact .template ht
  · subst hslash
    exact slash_cases h
  all_goals rw [regexBreaks_of_ne rest hslash]
  · cases h
    obtain ⟨hopener, hframe⟩ := parenFrame_bracket rest
    rw [hparen, ← hopener]
    exact .opened hframe
  · cases h
    rw [hbracket]
    exact .opened (f := .bracket) (by decide)
  · cases h
    obtain ⟨hopener, hframe⟩ := d.braceFrame_bracket rest
    rw [hbrace, ← hopener]
    exact .opened hframe
  · exact close_cases h
  · cases h
    rw [hcomma]
    exact .comma
  · cases h
    refine .plain (Bool.eq_false_iff.2 hgap) ?_
    simp only [Bool.or_eq_true, decide_eq_true_eq, not_or] at hquote hclose
    simp [tokenMarks, hquote, htick, hslash, hparen, hbracket, hbrace, hclose, hcomma]

theorem read_of_step (h : d.step q c rest = .ok (e, rest')) :
    read q d (c :: rest) = read q e rest' := by
  rw [read]
  split
  · next he => rw [h] at he; cases he
  · next he =>
    rw [h] at he
    cases he
    rfl

theorem read_of_error {f : Fault} (h : d.step q c rest = .error f) :
    read q d (c :: rest) = .error f := by
  rw [read]
  split
  · next he =>
    rw [h] at he
    cases he
    rfl
  · next he => rw [h] at he; cases he

/-- Induction on a run that reads a text to its end, from its last step to its first. -/
@[elab_as_elim]
theorem read_induction {motive : ∀ d t, read q d t = .ok e → Prop}
    (done : motive e [] (by rw [read]))
    (step : ∀ {d c rest d' rest'} (hstep : d.step q c rest = .ok (d', rest'))
      (hread : read q d' rest' = .ok e), motive d' rest' hread →
        motive d (c :: rest) (by rw [read_of_step hstep, hread]))
    {d : Draft} {t : Text} (h : read q d t = .ok e) : motive d t h := by
  induction d, t using read.induct q with
  | case1 d =>
    obtain rfl : d = e := by
      rw [read] at h
      exact Except.ok.inj h
    exact done
  | case2 d c rest f hf =>
    rw [read_of_error hf] at h
    cases h
  | case3 d c rest d' rest' hstep ih =>
    have hread : read q d' rest' = .ok e := by rw [← read_of_step hstep, h]
    exact step hstep hread (ih hread)

end ProjectSetup.Draft
