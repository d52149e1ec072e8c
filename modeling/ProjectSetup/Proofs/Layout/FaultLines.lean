import ProjectSetup.Proofs.Layout.Brackets
import ProjectSetup.Proofs.Layout.Finishing

/-!
# Lines of faults in literals

Reading counts the line breaks that it passes, but for those inside regular expressions, and a fault
names the line that the count has come to. A literal that has no end is noticed at its first
character, with one exception: a template literal may be noticed at the end of a substitution in it,
where reading takes it up again.
-/
namespace ProjectSetup

/-- The characters that can begin the literal in which a fault arises. Faults of brackets have
none. -/
def Fault.marks : Fault → Text
  | .unterminatedString _ => ['\'', '"']
  | .unterminatedTemplate _ => ['\x60']
  | .unterminatedComment _ | .unterminatedRegex _ => ['/']
  | .unbalancedBracket _ _ | .unclosedBracket _ _ => []

namespace Draft

variable {q c : Char} {d d' e : Draft} {n m : Nat} {rest rest' t u source : Text} {f : Fault}

theorem sameOpen_copy (d : Draft) (t : Text) : SameOpen d (d.copy t) := by
  induction t generalizing d with
  | nil => exact .refl d
  | cons c t ih =>
    rw [copy]
    split_ifs
    · have hbroken := ih (d.breakLine .literal)
      exact ⟨hbroken.frames, hbroken.line⟩
    · exact (d.sameOpen_write [c]).trans (ih (d.write [c]))

/-- What a step that reads `c` does to the open brackets. -/
inductive Turns (d : Draft) (c : Char) (d' : Draft) : Prop where
  | kept : d'.frames = d.frames → Turns d c d'
  /-- A substitution is opened by the template literal that begins at `c`. -/
  | opened {f : Frame} {n : Nat} : d'.frames = (f, n) :: d.frames →
      (f = .substitution → c = '\x60') → Turns d c d'
  | closed {x : Frame × Nat} : d.frames = x :: d'.frames → Turns d c d'
  /-- Behind a substitution, the next one of the same template literal is opened. -/
  | resumed {n m : Nat} {fs : List (Frame × Nat)} : d.frames = (.substitution, n) :: fs →
      d'.frames = (.substitution, m) :: fs → Turns d c d'

/-- What a step does: it turns the open brackets, and counts the line breaks that it passes, but for
those inside a regular expression. -/
structure Passes (d : Draft) (c : Char) (rest : Text) (d' : Draft) (rest' : Text) : Prop where
  turns : Turns d c d'
  line : d'.line + rest'.count '\n' + d.regexBreaks c rest = d.line + (c :: rest).count '\n'

theorem sameOpen_quoted (d : Draft) (body : Text) :
    SameOpen (d.advance body) (d.quoted q c body) := by
  let opened := d.token [d.mark q c body]
  have hsame := (d.sameOpen_token [d.mark q c body]).trans (opened.sameOpen_copy body)
  exact ⟨hsame.frames, congrArg (· + body.count '\n') hsame.line⟩

theorem sameOpen_commented (d : Draft) (body : Text) :
    SameOpen (d.advance body) (d.commented body) := by
  have hsame := d.sameOpen_settle.trans (d.settle.sameOpen_copy ('/' :: '*' :: body))
  exact ⟨hsame.frames, congrArg (· + body.count '\n') hsame.line⟩

theorem sameOpen_lineComment (d : Draft) (text : Text) : SameOpen d (d.lineComment text) := by
  unfold lineComment
  split_ifs <;> exact d.sameOpen_token _

theorem line_stretched (d : Draft) (body : Text) (s : Literal.Stretch) :
    (d.stretched body s).line = d.line + body.count '\n' := by
  have hsame := d.sameOpen_copy body
  cases s <;> exact congrArg (· + body.count '\n') hsame.line

theorem frames_stretched (d : Draft) (body : Text) (s : Literal.Stretch) :
    s = .closed ∧ (d.stretched body s).frames = d.frames ∨
      s = .opened ∧ ∃ n, (d.stretched body s).frames = (.substitution, n) :: d.frames := by
  have hsame := d.sameOpen_copy body
  cases s with
  | closed => exact .inl ⟨rfl, hsame.frames⟩
  | opened => exact .inr ⟨rfl, _, congrArg _ hsame.frames⟩

theorem Step.turns (h : Step q d c rest n d' rest') : Turns d c d' := by
  cases h with
  | gap _ => exact .kept (d.sameOpen_gap _ _).frames
  | quote | plain => exact .kept (d.sameOpen_token [c]).frames
  | slash _ _ => exact .kept (d.sameOpen_token ['/']).frames
  | @string _ _ body _ _ _ _ => exact .kept (d.sameOpen_quoted body).frames
  | @template _ body _ s _ =>
    have hsame := d.sameOpen_token ['\x60']
    obtain ⟨-, hkept⟩ | ⟨-, n, hopened⟩ := frames_stretched (d.token ['\x60']) body s
    · exact .kept (hkept.trans hsame.frames)
    · exact .opened (hopened.trans (congrArg _ hsame.frames)) fun _ => rfl
  | lineComment _ => exact .kept (d.sameOpen_lineComment _).frames
  | @blockComment _ body _ _ => exact .kept (d.sameOpen_commented body).frames
  | regex _ _ => exact .kept (d.sameOpen_token _).frames
  | opened hf => exact .opened rfl fun hsub => absurd hsub hf
  | @closed f n fs _ _ hframes =>
    refine .closed (x := (f, n)) ?_
    rw [(d.sameOpen_closeFrame f fs).frames, hframes]
  | @resumed n fs _ body _ s hframes _ =>
    have hsame := d.sameOpen_closeFrame .substitution fs
    obtain ⟨-, hclosed⟩ | ⟨-, m, hopened⟩ :=
      frames_stretched (d.closeFrame .substitution fs) body s
    · exact .closed (x := (.substitution, n)) (by rw [hclosed, hsame.frames, hframes])
    · exact .resumed hframes (hopened.trans (congrArg _ hsame.frames))
  | comma => exact .kept d.sameOpen_comma.frames

/-- A token in which the count of lines goes as far as it should. -/
theorem line_of_counted {w : Text} (hrest : c :: rest = w ++ rest')
    (h : d'.line + n = d.line + w.count '\n') :
    d'.line + rest'.count '\n' + n = d.line + (c :: rest).count '\n' := by
  rw [hrest, List.count_append]
  omega

theorem line_of_single (hc : c ≠ '\n') (h : d'.line = d.line) :
    d'.line + rest.count '\n' + 0 = d.line + (c :: rest).count '\n' := by
  rw [List.count_cons_of_ne hc, h, Nat.add_zero]

theorem Step.line (h : Step q d c rest n d' rest') :
    d'.line + rest'.count '\n' + n = d.line + (c :: rest).count '\n' := by
  cases h with
  | gap _ =>
    exact line_of_counted (w := c :: rest.takeWhile isGap) (by simp) (d.sameOpen_gap _ _).line
  | quote hc _ _ =>
    exact line_of_single (by rcases hc with rfl | rfl <;> decide) (d.sameOpen_token [c]).line
  | @string _ _ body _ hc _ hs =>
    have hquote : c ≠ '\n' := by rcases hc with rfl | rfl <;> decide
    refine line_of_counted (w := c :: (body ++ [c])) (by simp [Literal.string?_append hs]) ?_
    rw [(d.sameOpen_quoted body).line, List.count_cons_of_ne hquote, List.count_append,
      List.count_cons_of_ne hquote]
    rfl
  | @template _ body _ s ht =>
    refine line_of_counted (w := '\x60' :: body) (by rw [Literal.template?_append ht]; rfl) ?_
    rw [line_stretched, (d.sameOpen_token ['\x60']).line, List.count_cons_of_ne (by decide)]
    rfl
  | @lineComment rest _ =>
    have hnone : '\n' ∉ rest.takeWhile (· ≠ '\n') := fun hm => by
      simpa using List.mem_takeWhile_imp hm
    refine line_of_counted (w := '/' :: '/' :: rest.takeWhile (· ≠ '\n')) (by simp) ?_
    rw [(d.sameOpen_lineComment _).line, List.count_cons_of_ne (by decide),
      List.count_cons_of_ne (by decide), List.count_eq_zero.2 hnone]
  | @blockComment _ body _ ht =>
    refine line_of_counted (w := '/' :: '*' :: body) (by rw [Literal.comment?_append ht]; rfl) ?_
    rw [(d.sameOpen_commented body).line, List.count_cons_of_ne (by decide),
      List.count_cons_of_ne (by decide)]
    rfl
  | @regex _ body tail _ hr =>
    refine line_of_counted (w := '/' :: body ++ tail.takeWhile Char.isAlpha)
      (by simp [Literal.regex?_append hr]) ?_
    rw [(d.sameOpen_token _).line]
  | slash _ _ => exact line_of_single (by decide) (d.sameOpen_token ['/']).line
  | @opened f _ _ => exact line_of_single (by cases f <;> decide) (d.line_openFrame f)
  | @closed f _ fs _ _ _ =>
    exact line_of_single (by cases f <;> decide) (d.sameOpen_closeFrame f fs).line
  | @resumed _ fs _ body _ s _ ht =>
    refine line_of_counted (w := '}' :: body) (by rw [Literal.template?_append ht]; rfl) ?_
    rw [line_stretched, (d.sameOpen_closeFrame .substitution fs).line,
      List.count_cons_of_ne (by decide)]
    rfl
  | comma => exact line_of_single (by decide) d.sameOpen_comma.line
  | plain hgap _ =>
    refine line_of_single ?_ (d.sameOpen_token [c]).line
    rintro rfl
    cases hgap

theorem passes_step (h : d.step q c rest = .ok (d', rest')) : Passes d c rest d' rest' :=
  ⟨(step_cases h).turns, (step_cases h).line⟩

/-- A step that fails in a literal does so at its first character, or behind a substitution of a
template literal. The fault names the line that reading has come to. -/
theorem step_fault (h : d.step q c rest = .error f) (literal : f.marks ≠ []) :
    f.line = d.line ∧ (c ∈ f.marks ∨
      c = '}' ∧ '\x60' ∈ f.marks ∧ ∃ n frames, d.frames = (.substitution, n) :: frames) := by
  have htemplate {b : Draft} {n : Nat} (hb : b.template n rest = .error f) :
      f = .unterminatedTemplate n := by
    unfold template at hb
    split at hb <;> cases hb
    rfl
  unfold step at h
  split_ifs at h with hgap hquote htick hslash hparen hbracket hbrace hclose hcomma
  · unfold string at h
    split at h
    · cases h
    · split at h <;> cases h
      exact ⟨rfl, .inl (by simpa [Fault.marks] using hquote)⟩
  · rw [htemplate h]
    exact ⟨rfl, .inl (by simpa [Fault.marks] using htick)⟩
  · unfold slash blockComment regex at h
    split at h
    · cases h
    · split at h
      · split at h <;> cases h
        exact ⟨rfl, .inl (by simpa [Fault.marks] using hslash)⟩
      · split at h
        · split at h <;> cases h
          exact ⟨rfl, .inl (by simpa [Fault.marks] using hslash)⟩
        · cases h
  · unfold close at h
    split at h
    · cases h
      exact absurd rfl literal
    · next g n frames hframes =>
      split at h
      · cases h
        exact absurd rfl literal
      · next hcloser =>
        dsimp only at h
        split at h
        · next hg =>
          subst hg
          rw [htemplate h]
          have hline := (d.sameOpen_closeFrame .substitution frames).line
          exact ⟨hline, .inr ⟨(not_not.1 hcloser).symm, List.mem_singleton_self _, n, frames, hframes⟩⟩
        · cases h

/-- Reading goes on from `d` ahead of `t` to `e` ahead of `u`, and no less than `n` brackets are
open all the way. -/
inductive Comes (q : Char) (n : Nat) : Draft → Text → Draft → Text → Prop where
  | here {d : Draft} {t : Text} : n ≤ d.frames.length → Comes q n d t d t
  | step {d d' e : Draft} {c : Char} {rest rest' u : Text} : n ≤ d.frames.length →
      d.step q c rest = .ok (d', rest') → Comes q n d' rest' e u → Comes q n d (c :: rest) e u

namespace Comes

theorem trans (h : Comes q n d t d' rest) (h' : Comes q n d' rest e u) : Comes q n d t e u := by
  induction h with
  | here _ => exact h'
  | step hn hstep _ ih => exact .step hn hstep (ih h')

theorem mono (h : Comes q n d t e u) (hm : m ≤ n) : Comes q m d t e u := by
  induction h with
  | here hn => exact .here (hm.trans hn)
  | step hn hstep _ ih => exact .step (hm.trans hn) hstep ih

/-- One step more. -/
theorem snoc (h : Comes q n d t e (c :: rest)) (hstep : e.step q c rest = .ok (d', rest'))
    (hn : n ≤ e.frames.length) (hn' : n ≤ d'.frames.length) : Comes q n d t d' rest' :=
  h.trans (.step hn hstep (.here hn'))

theorem suffix (hq : Text.isSoft q = true) (h : Comes q n d t e u) : u <:+ t := by
  induction h with
  | here _ => exact List.suffix_rfl
  | step _ hstep _ ih =>
    obtain ⟨w, hw, -⟩ := step_reads hq hstep
    rw [hw]
    exact ih.trans (List.suffix_append w _)

/-- The count of lines lacks the line breaks inside the regular expressions that have been read. -/
theorem line (h : Comes q n d t e u) :
    e.line + u.count '\n' + hiddenBreaks q d t = d.line + t.count '\n' + hiddenBreaks q e u := by
  induction h with
  | here _ => rfl
  | step _ hstep _ ih =>
    have hline := (passes_step hstep).line
    rw [hiddenBreaks_of_step hstep]
    omega

end Comes

theorem hiddenBreaks_of_error (h : d.step q c rest = .error f) :
    hiddenBreaks q d (c :: rest) = 0 := by
  rw [hiddenBreaks]
  split
  · rfl
  · next he => rw [h] at he; cases he

/-- Reading that fails comes to a step that fails. -/
theorem exists_failing_step (h : read q d t = .error f) :
    ∃ e c rest, Comes q 0 d t e (c :: rest) ∧ e.step q c rest = .error f := by
  induction d, t using read.induct q with
  | case1 d =>
    rw [read] at h
    cases h
  | case2 d c rest g hg =>
    rw [read_of_error hg] at h
    cases h
    exact ⟨d, c, rest, .here (Nat.zero_le _), hg⟩
  | case3 d c rest d' rest' hstep ih =>
    rw [read_of_step hstep] at h
    obtain ⟨e, c', rest₁, hcomes, hfails⟩ := ih h
    exact ⟨e, c', rest₁, .step (Nat.zero_le _) hstep hcomes, hfails⟩

/-- The template literal that begins behind `before`, where `depth` brackets are open, has not ended
when reading has come to `d` ahead of `t`. -/
def InTemplate (q : Char) (source before : Text) (depth : Nat) (d : Draft) (t : Text) : Prop :=
  ∃ b rest b' rest', source = before ++ '\x60' :: rest ∧ Comes q 0 {} source b ('\x60' :: rest) ∧
    b.frames.length = depth ∧ b.step q '\x60' rest = .ok (b', rest') ∧
      Comes q (depth + 1) b' rest' d t

/-- Reading `source` fails with `f` in a literal that begins behind `before`, once `held` has been
read of the literal. -/
inductive FailsIn (q : Char) (source : Text) (f : Fault) : (before held : Text) → Prop where
  /-- The literal has no end, as is found at its first character. -/
  | begun {before rest : Text} {c : Char} {d : Draft} : source = before ++ c :: rest →
      Comes q 0 {} source d (c :: rest) → c ∈ f.marks → d.step q c rest = .error f →
        FailsIn q source f before []
  /-- A template literal is taken up at the end of a substitution that stands directly in it. -/
  | resumed {before held rest : Text} {d : Draft} {depth : Nat} :
      source = before ++ held ++ '}' :: rest → InTemplate q source before depth d ('}' :: rest) →
        d.frames.length = depth + 1 → '\x60' ∈ f.marks → d.step q '}' rest = .error f →
          FailsIn q source f before held

theorem InTemplate.step {before : Text} {depth : Nat}
    (h : InTemplate q source before depth d (c :: rest))
    (hstep : d.step q c rest = .ok (d', rest')) (hdepth : depth + 1 ≤ d.frames.length)
    (hdepth' : depth + 1 ≤ d'.frames.length) : InTemplate q source before depth d' rest' := by
  obtain ⟨b, t, b', t', hsource, hcomes, hb, hbegun, hheld⟩ := h
  exact ⟨b, t, b', t', hsource, hcomes, hb, hbegun, hheld.snoc hstep hdepth hdepth'⟩

theorem InTemplate.comes {before : Text} {depth : Nat} (h : InTemplate q source before depth d t) :
    Comes q 0 {} source d t := by
  obtain ⟨b, u, b', u', -, hcomes, -, hbegun, hheld⟩ := h
  exact (hcomes.snoc hbegun (Nat.zero_le _) (Nat.zero_le _)).trans (hheld.mono (Nat.zero_le _))

/-- Every open substitution stands in a template literal that has begun and not ended. -/
def Begun (q : Char) (source : Text) (d : Draft) (t : Text) : Prop :=
  ∀ n frames, (Frame.substitution, n) :: frames <:+ d.frames →
    ∃ before, InTemplate q source before frames.length d t

theorem Begun.step (hq : Text.isSoft q = true) (hbegun : Begun q source d (c :: rest))
    (hcomes : Comes q 0 {} source d (c :: rest)) (hstep : d.step q c rest = .ok (d', rest')) :
    Begun q source d' rest' := by
  -- a substitution that was open before, with the same brackets around it
  have hkept {n : Nat} {frames : List (Frame × Nat)}
      (hold : (.substitution, n) :: frames <:+ d.frames)
      (hnew : frames.length + 1 ≤ d'.frames.length) :
      ∃ before, InTemplate q source before frames.length d' rest' := by
    obtain ⟨before, hin⟩ := hbegun n frames hold
    exact ⟨before, hin.step hstep (by simpa using hold.length_le) hnew⟩
  intro n frames hframes
  have hdepth : frames.length + 1 ≤ d'.frames.length := by simpa using hframes.length_le
  cases (passes_step hstep).turns with
  | kept hsame => exact hkept (hsame ▸ hframes) hdepth
  | closed hclosed =>
    exact hkept (hframes.trans (hclosed ▸ List.suffix_cons _ _)) hdepth
  | opened hopened htick =>
    rw [hopened, List.suffix_cons_iff, List.cons.injEq] at hframes
    rcases hframes with ⟨hframe, rfl⟩ | hold
    · obtain rfl := htick (congrArg Prod.fst hframe).symm
      obtain ⟨before, hsource⟩ := hcomes.suffix hq
      exact ⟨before, d, rest, d', rest', hsource.symm, hcomes, rfl, hstep, .here hdepth⟩
    · exact hkept hold hdepth
  | @resumed k _ around hbefore hafter =>
    have hold : (Frame.substitution, k) :: around <:+ d.frames := hbefore ▸ List.suffix_rfl
    rw [hafter, List.suffix_cons_iff, List.cons.injEq] at hframes
    rcases hframes with ⟨-, rfl⟩ | hinner
    · exact hkept hold hdepth
    · exact hkept (hinner.trans ((List.suffix_cons _ _).trans hold)) hdepth

theorem begun_of_comes (hq : Text.isSoft q = true) (h : Comes q 0 {} source d t) :
    Begun q source d t := by
  have hrun {b : Draft} {u : Text} (hbegun : Begun q source b u)
      (hb : Comes q 0 {} source b u) (hrest : Comes q 0 b u d t) : Begun q source d t := by
    induction hrest with
    | here _ => exact hbegun
    | step hn hstep _ ih =>
      exact ih h (hbegun.step hq hb hstep) (hb.snoc hstep hn (Nat.zero_le _))
  refine hrun (fun n frames hframes => ?_) (.here (Nat.zero_le _)) h
  exact absurd hframes.length_le (by simp)

theorem exists_failsIn (hq : Text.isSoft q = true) (h : read q {} source = .error f)
    (literal : f.marks ≠ []) : ∃ before held, FailsIn q source f before held := by
  obtain ⟨d, c, rest, hcomes, hfails⟩ := exists_failing_step h
  obtain ⟨stop, hstop⟩ := hcomes.suffix hq
  rcases (step_fault hfails literal).2 with hmark | ⟨rfl, htick, n, frames, hframes⟩
  · exact ⟨stop, [], .begun hstop.symm hcomes hmark hfails⟩
  · obtain ⟨before, hin⟩ :=
      begun_of_comes hq hcomes n frames (hframes ▸ List.suffix_rfl)
    have hdepth : d.frames.length = frames.length + 1 := by rw [hframes]; rfl
    obtain ⟨b, t, b', t', hsource, -, -, hbegun, hheld⟩ := id hin
    -- what is held begins with the backtick and reaches to the end of the substitution
    obtain ⟨w, hw, -⟩ := step_reads hq hbegun
    obtain ⟨v, hv⟩ := hheld.suffix hq
    refine ⟨before, w ++ v, .resumed ?_ hin hdepth htick hfails⟩
    rw [hsource, hw, ← hv]
    simp

/-- The fault counts the line breaks ahead of the point at which reading fails, but for those inside
regular expressions. -/
theorem FailsIn.line {before held : Text}
    (h : FailsIn q source f before held) (literal : f.marks ≠ []) :
    f.line + hiddenBreaks q {} source = 1 + (before ++ held).count '\n' := by
  have hcount {d : Draft} {c : Char} {stop rest : Text} (hsource : source = stop ++ c :: rest)
      (hcomes : Comes q 0 {} source d (c :: rest)) (hfails : d.step q c rest = .error f) :
      f.line + hiddenBreaks q {} source = 1 + stop.count '\n' := by
    have hline := hcomes.line
    have hstart : ({} : Draft).line = 1 := rfl
    have hall : source.count '\n' = stop.count '\n' + (c :: rest).count '\n' := by
      rw [hsource, List.count_append]
    rw [hiddenBreaks_of_error hfails, hstart] at hline
    rw [(step_fault hfails literal).1]
    omega
  cases h with
  | begun hsource hcomes _ hfails =>
    rw [List.append_nil]
    exact hcount hsource hcomes hfails
  | resumed hsource hin _ _ hfails => exact hcount hsource hin.comes hfails

end Draft

theorem read_of_normalize_error {style : Style} {source : Text} {f : Fault}
    (h : normalizeScript style source = .error f) (literal : f.marks ≠ []) :
    Draft.read style.quote {} source = .error f := by
  unfold normalizeScript Draft.collapse at h
  split at h
  · cases h
    assumption
  · split at h
    · cases h
    · cases h
      exact absurd rfl literal

/-- A script that is refused for a literal is refused in a literal that stands in it. The fault
names the line on which the literal begins exactly if as many line breaks have been read of the
literal by then as inside regular expressions. -/
theorem literal_fault_line_iff {path : String} (script : isScript path = true) {o : StyleOverrides}
    {source : Text} {f : Fault} (h : normalize path o source = .error f)
    (literal : f.marks ≠ []) :
    (∃ before held, Draft.FailsIn o.resolve.quote source f before held) ∧
      ∀ before held, Draft.FailsIn o.resolve.quote source f before held →
        (f.line = 1 + before.count '\n' ↔
          held.count '\n' = Draft.hiddenBreaks o.resolve.quote {} source) := by
  have hq := Draft.quote_soft o.resolve
  rw [normalize_of_script script] at h
  refine ⟨Draft.exists_failsIn hq (read_of_normalize_error h literal) literal, ?_⟩
  intro before held hfails
  have hline := hfails.line literal
  rw [List.count_append] at hline
  omega

/-- A string below a comment and a template literal that take several lines. -/
theorem literal_fault_line_below_template :
    let source := "/* a\n */ `b\n$\x7b'c'\x7d\n` + \"d".toList
    let f := Fault.unterminatedString 4
    isScript "a.js" = true ∧ normalize "a.js" {} source = .error f ∧ f.marks ≠ [] ∧
      Draft.hiddenBreaks '\'' {} source = 0 ∧
      (∃ before held, Draft.FailsIn '\'' source f before held) ∧
        ∀ before held, Draft.FailsIn '\'' source f before held →
          (f.line = 1 + before.count '\n' ↔
            held.count '\n' = Draft.hiddenBreaks '\'' {} source) := by
  have script : isScript "a.js" = true := by decide
  have h : normalize "a.js" {} "/* a\n */ `b\n$\x7b'c'\x7d\n` + \"d".toList =
      .error (.unterminatedString 4) := by decide +kernel
  have hnone : Draft.hiddenBreaks '\'' {} "/* a\n */ `b\n$\x7b'c'\x7d\n` + \"d".toList = 0 := by
    decide +kernel
  have literal : (Fault.unterminatedString 4).marks ≠ [] := by decide
  exact ⟨script, h, literal, hnone, literal_fault_line_iff script h literal⟩

/-- A template literal that begins on the first line and is taken up on the second one. -/
theorem literal_fault_line_of_substitution :
    let source := "`$\x7b\n\x7d".toList
    let f := Fault.unterminatedTemplate 2
    isScript "a.js" = true ∧ normalize "a.js" {} source = .error f ∧
      Draft.FailsIn '\'' source f [] "`$\x7b\n".toList ∧ f.line ≠ 1 + ([] : Text).count '\n' := by
  have h : normalize "a.js" {} "`$\x7b\n\x7d".toList = .error (.unterminatedTemplate 2) := by
    decide +kernel
  let b : Draft := { back := "\x7b$`".toList, frames := [(.substitution, 1)] }
  let d : Draft := { b with back := '\n' :: b.back, ends := [.nested], line := 2 }
  have hbegun : Draft.step '\'' {} '\x60' "$\x7b\n\x7d".toList = .ok (b, "\n\x7d".toList) := by
    decide +kernel
  have hbreak : Draft.step '\'' b '\n' "\x7d".toList = .ok (d, "\x7d".toList) := by decide +kernel
  have hfails : Draft.step '\'' d '}' [] = .error (.unterminatedTemplate 2) := by decide +kernel
  have hin : Draft.InTemplate '\'' "`$\x7b\n\x7d".toList [] 0 d ['}'] :=
    ⟨{}, "$\x7b\n\x7d".toList, b, "\n\x7d".toList, rfl, .here (Nat.zero_le _), rfl, hbegun,
      .step (by decide) hbreak (.here (by decide))⟩
  exact ⟨by decide, h, .resumed rfl hin rfl (by decide) hfails, by decide⟩

end ProjectSetup
