import ProjectSetup.Proofs.Layout.Reading
import ProjectSetup.Proofs.Text.Tied

/-!
# Literals in drafts

Reading copies each string, each stretch of a template literal and each block comment to the end of
the draft as it stands, and never takes any of it back. A trace of reading lists these literals and
ties each of their characters to the one before it. A line break of the draft is tied exactly if its
record is that of a literal, unless a regular expression has brought it.
-/
namespace ProjectSetup

open TiedText (opens closes closes_ne_newline Holds block breakTies)

/-- What is known of a draft besides its text. -/
structure Trace where
  /-- Whether each character is tied to the one before it, last character first. -/
  ties : List Bool := []
  /-- The literals that have been read, last literal first. -/
  literals : List Text := []

namespace Trace

/-- Ties for a text of the given length: characters that are new are free. -/
def fit (size : Nat) (ties : List Bool) : List Bool :=
  List.replicate (size - ties.length) false ++ ties.drop (ties.length - size)

/-- The trace of a draft of the given length behind a step. If the step has read a literal, the last
`n` characters are tied. -/
def next (tr : Trace) (literal : Option Text) (n size : Nat) : Trace :=
  match literal with
  | none => { tr with ties := fit size tr.ties }
  | some body =>
    { ties := List.replicate n true ++ fit (size - n) tr.ties, literals := body :: tr.literals }

theorem length_fit (size : Nat) (ties : List Bool) : (fit size ties).length = size := by
  rw [fit, List.length_append, List.length_replicate, List.length_drop]
  omega

/-- Ties that were free when their characters were taken back fit the characters in their place. -/
theorem fit_of_free {ties : List Bool} {n k : Nat} (hn : n ≤ ties.length)
    (h : ∀ b ∈ ties.take n, b = false) :
    fit (k + (ties.length - n)) ties = List.replicate k false ++ ties.drop n := by
  have hfree : ties.take n = List.replicate n false :=
    List.eq_replicate_iff.2 ⟨List.length_take_of_le hn, h⟩
  have hsplit : ties = List.replicate n false ++ ties.drop n := by
    rw [← hfree, List.take_append_drop]
  rw [fit]
  rcases Nat.le_total n k with hle | hle
  · rw [show k + (ties.length - n) - ties.length = k - n by omega,
      show ties.length - (k + (ties.length - n)) = 0 by omega, List.drop_zero]
    conv_lhs => rw [hsplit]
    rw [← List.append_assoc, List.replicate_append_replicate, Nat.sub_add_cancel hle]
  · rw [show k + (ties.length - n) - ties.length = 0 by omega,
      show ties.length - (k + (ties.length - n)) = n - k by omega, List.replicate_zero,
      List.nil_append]
    conv_lhs => rw [hsplit]
    rw [List.drop_append_of_le_length (by simp), List.drop_replicate, Nat.sub_sub_self hle]

end Trace

namespace Draft

open Text (isSoft)

variable {preferred c : Char} {d d' e : Draft} {k : Nat} {rest rest' : Text}

/-- The literal that is read at `c` ahead of `rest`, if one is: the text of a string between its
quotes, a stretch of a template literal through its end, or a whole comment. -/
def literal? (d : Draft) (c : Char) (rest : Text) : Option Text :=
  if c = '\'' || c = '"' then
    if d.inMarkup && !d.endsWith ['='] then none else (Literal.string? c rest).map (·.1)
  else if c = '\x60' then (Literal.template? rest).map (·.1)
  else if c = '/' then
    if rest.head? = some '*' then (Literal.comment? rest.tail).map ('/' :: '*' :: ·.1) else none
  else if c = '}' then
    if d.top? = some .substitution then (Literal.template? rest).map (·.1) else none
  else none

theorem literal?_of_not_opens (rest : Text) (hc : opens c = false) :
    d.literal? c rest = none := by
  simp only [opens, List.contains_eq_mem, decide_eq_false_iff_not, List.mem_cons, List.not_mem_nil,
    or_false, not_or] at hc
  simp [literal?, hc]

theorem literal?_gap (rest : Text) (hgap : isGap c = true) : d.literal? c rest = none := by
  simp only [isGap, Bool.or_eq_true, beq_iff_eq] at hgap
  rcases hgap with ((rfl | rfl) | rfl) | rfl <;> rfl

theorem literal?_opener (f : Frame) (rest : Text) : d.literal? f.opener rest = none := by
  cases f <;> rfl

theorem literal?_plain (rest : Text) (hc : c ∉ tokenMarks) : d.literal? c rest = none := by
  refine literal?_of_not_opens rest (Bool.eq_false_iff.2 fun ho => hc ?_)
  exact (by decide : ∀ m ∈ ['\'', '"', '\x60', '/', '}'], m ∈ tokenMarks) c (by simpa [opens] using ho)

theorem literal?_quote (rest : Text) (hc : c = '\'' ∨ c = '"') (hmarkup : d.inMarkup = true)
    (hend : d.endsWith ['='] = false) : d.literal? c rest = none := by
  rw [literal?, if_pos (by simpa using hc), if_pos (by simp [hmarkup, hend])]

theorem literal?_string {body : Text} (hc : c = '\'' ∨ c = '"')
    (hend : d.inMarkup = true → d.endsWith ['='] = true)
    (hs : Literal.string? c rest = some (body, rest')) : d.literal? c rest = some body := by
  rw [literal?, if_pos (by simpa using hc), if_neg (by simpa using hend), hs, Option.map_some]

theorem literal?_template {body : Text} {s : Literal.Stretch}
    (ht : Literal.template? rest = some (body, s, rest')) : d.literal? '\x60' rest = some body :=
  congrArg (Option.map Prod.fst) ht

theorem literal?_slash (hstar : rest.head? ≠ some '*') : d.literal? '/' rest = none := if_neg hstar

theorem literal?_comment {body : Text} (ht : Literal.comment? rest = some (body, rest')) :
    d.literal? '/' ('*' :: rest) = some ('/' :: '*' :: body) :=
  congrArg (Option.map fun x : Text × Text => '/' :: '*' :: x.1) ht

theorem literal?_closer {f : Frame} {n : Nat} {fs : List (Frame × Nat)} (rest : Text)
    (hf : f ≠ .substitution) (hframes : d.frames = (f, n) :: fs) :
    d.literal? f.closer rest = none := by
  have htop : d.top? = some f := by rw [top?, hframes]; rfl
  have hother : d.top? ≠ some .substitution := by simpa [htop] using hf
  cases f <;> first | exact if_neg hother | rfl

theorem literal?_resumed {n : Nat} {fs : List (Frame × Nat)} {body : Text} {s : Literal.Stretch}
    (hframes : d.frames = (.substitution, n) :: fs)
    (ht : Literal.template? rest = some (body, s, rest')) : d.literal? '}' rest = some body := by
  have htop : d.top? = some .substitution := by rw [top?, hframes]; rfl
  exact (if_pos htop).trans (congrArg (Option.map Prod.fst) ht)

/-- The trace of reading a text onto a draft. -/
def trace (preferred : Char) (d : Draft) (tr : Trace) : Text → Trace
  | [] => tr
  | c :: rest =>
    match _h : d.step preferred c rest with
    | .error _ => tr
    | .ok (d', rest') =>
      trace preferred d'
        (tr.next (d.literal? c rest) (rest.length - rest'.length) d'.back.length) rest'
termination_by t => t.length
decreasing_by
  have := step_length_le _h
  simp only [List.length_cons]
  omega

theorem trace_of_step {tr : Trace} (h : d.step preferred c rest = .ok (d', rest')) :
    trace preferred d tr (c :: rest) = trace preferred d'
      (tr.next (d.literal? c rest) (rest.length - rest'.length) d'.back.length) rest' := by
  rw [trace]
  split
  · next he => rw [h] at he; cases he
  · next he =>
    rw [h] at he
    cases he
    rfl

/-- `e` is `d` with text behind it, once characters at its end that end no literal have been taken
back. All new line breaks but `k` have a record, and none has that of a literal. -/
def Extends (d : Draft) (k : Nat) (e : Draft) : Prop :=
  ∃ n t es, n ≤ d.back.length ∧ e.back = t ++ d.back.drop n ∧ e.ends = es ++ d.ends ∧
    t.count '\n' = es.length + k ∧ (∀ r ∈ es, r ≠ LineEnd.literal) ∧
      ∀ c ∈ d.back.take n, closes c = false ∧ c ≠ '\n'

namespace Extends

theorem refl (d : Draft) : Extends d 0 d := ⟨0, [], [], by simp, rfl, rfl, rfl, by simp, by simp⟩

theorem write (h : Extends d k e) (u : Text) : Extends d (k + u.count '\n') (e.write u) := by
  obtain ⟨n, t, es, hn, hback, hends, hcount, hes, hfree⟩ := h
  refine ⟨n, u.reverse ++ t, es, hn, ?_, hends, ?_, hes, hfree⟩
  · rw [Draft.write, hback, List.append_assoc]
  · rw [List.count_append, List.count_reverse, hcount]
    omega

theorem write_unbroken (h : Extends d k e) {u : Text} (hu : '\n' ∉ u) :
    Extends d k (e.write u) := by
  have hw := h.write u
  rwa [List.count_eq_zero.2 hu] at hw

theorem breakLine (h : Extends d k e) {r : LineEnd} (hr : r ≠ .literal) :
    Extends d k (e.breakLine r) := by
  obtain ⟨n, t, es, hn, hback, hends, hcount, hes, hfree⟩ := h
  refine ⟨n, '\n' :: t, r :: es, hn, ?_, ?_, ?_, ?_, hfree⟩
  · rw [Draft.breakLine, hback, List.cons_append]
  · rw [Draft.breakLine, hends, List.cons_append]
  · rw [List.count_cons_self, hcount, List.length_cons]
    omega
  · rw [List.forall_mem_cons]
    exact ⟨hr, hes⟩

/-- A character is taken back. -/
theorem pop (h : Extends d k e) {x : Char} {b : Text} (hb : e.back = x :: b)
    (hx : closes x = false) (hn : x ≠ '\n') : Extends d k { e with back := b } := by
  obtain ⟨n, t, es, hle, hback, hends, hcount, hes, hfree⟩ := h
  cases t with
  | nil =>
    have hdrop : d.back.drop n = x :: b := by rw [← hb, hback, List.nil_append]
    have hlt : n < d.back.length := by
      rw [← List.drop_eq_nil_iff.not.trans Nat.not_le, hdrop]
      exact List.cons_ne_nil x b
    refine ⟨n + 1, [], es, hlt, ?_, hends, hcount, hes, fun c hc => ?_⟩
    · rw [← List.drop_drop, hdrop]
      rfl
    · rw [List.take_add, hdrop] at hc
      rcases List.mem_append.1 hc with hc | hc
      · exact hfree c hc
      · rw [List.mem_singleton.1 hc]
        exact ⟨hx, hn⟩
  | cons y t =>
    rw [hb, List.cons_append, List.cons.injEq] at hback
    obtain ⟨rfl, hback⟩ := hback
    rw [List.count_cons_of_ne hn] at hcount
    exact ⟨n, t, es, hle, hback, hends, hcount, hes, hfree⟩

theorem retract (h : Extends d k e) : Extends d k e.retract := by
  obtain ⟨b, hb⟩ : ∃ b, e.back = b := ⟨_, rfl⟩
  rw [Draft.retract, hb]
  induction b generalizing e with
  | nil => simpa only [Extends, hb, List.dropWhile_nil] using h
  | cons x b ih =>
    rw [List.dropWhile_cons]
    split
    · next hx =>
      have hclose : closes x = false ∧ x ≠ '\n' := by
        simp only [Bool.or_eq_true, beq_iff_eq] at hx
        rcases hx with rfl | rfl <;> decide
      exact ih (e := { e with back := b }) (h.pop hb hclose.1 hclose.2) rfl
    · simpa only [Extends, hb] using h

theorem space (h : Extends d k e) : Extends d k e.space := by
  unfold Draft.space
  split
  · exact h
  · exact h.write_unbroken (by decide)

theorem settle (h : Extends d k e) : Extends d k e.settle := by
  unfold Draft.settle
  split
  · exact h.space
  · exact h

theorem token (h : Extends d k e) {u : Text} (hu : '\n' ∉ u) : Extends d k (e.token u) :=
  h.settle.write_unbroken hu

theorem lines (h : Extends d k e) (run : Text) :
    Extends d k (run.foldl (fun d c =>
      if c = '\n' then d.breakLine d.lineEnd else if c = '\r' then d else d.write [c]) e) := by
  induction run generalizing e with
  | nil => exact h
  | cons c run ih =>
    rw [List.foldl_cons]
    refine ih ?_
    split
    · refine h.breakLine ?_
      unfold lineEnd
      split <;> decide
    · next hc =>
      split
      · exact h
      · exact h.write_unbroken (by simpa using Ne.symm hc)

theorem gap (d : Draft) (run rest : Text) : Extends d 0 (d.gap run rest) := by
  have h : Extends d 0 (d.advance run) := .refl d
  unfold Draft.gap
  dsimp only
  split
  · split
    · exact h
    · exact h.space
  · exact h.lines run

theorem comma (d : Draft) : Extends d 0 d.comma := by
  unfold Draft.comma
  split
  · exact (refl d).retract.write_unbroken (by decide)
  · exact (refl d).token (by decide)

theorem openFrame (d : Draft) (f : Frame) : Extends d 0 (d.openFrame f) :=
  (refl d).token (opener_ne_newline f)

theorem endList (h : Extends d k e) (f : Frame) : Extends d k (e.endList f) := by
  have hcomma : Extends d k (if e.retract.endsWith [','] then
      { e.retract with back := e.retract.back.tail }.retract else e.retract) := by
    split
    · next hc =>
      obtain ⟨b, hb⟩ : ∃ b, e.retract.back = ',' :: b := by
        simp only [endsWith, Option.any_eq_true, List.contains_eq_mem, List.mem_singleton,
          decide_eq_true_eq] at hc
        obtain ⟨x, hx, rfl⟩ := hc
        exact ⟨e.retract.back.tail, List.eq_cons_of_mem_head? hx⟩
      rw [hb]
      exact (h.retract.pop hb (by decide) (by decide)).retract
    · exact h.retract
  unfold Draft.endList
  dsimp only
  generalize (if e.retract.endsWith [','] then
    { e.retract with back := e.retract.back.tail }.retract else e.retract) = e' at hcomma ⊢
  split
  · exact hcomma.write_unbroken (by decide)
  · exact hcomma

theorem closeFrame (d : Draft) (f : Frame) (fs : List (Frame × Nat)) :
    Extends d 0 (d.closeFrame f fs) := by
  have h : Extends d 0 { d with frames := fs, pad := false } := .refl d
  refine write_unbroken ?_ (closer_ne_newline f)
  split
  · exact h.endList f
  · exact h

theorem lineComment (d : Draft) {text : Text} (ht : '\n' ∉ text) :
    Extends d 0 (d.lineComment text) := by
  unfold Draft.lineComment
  split
  · refine (refl d).token ?_
    have hm : '\n' ∉ openMarks text.trim := newline_not_mem_openMarks fun h =>
      ht (Text.mem_of_mem_trimStart (Text.mem_of_mem_trimEnd h))
    simpa using hm
  · refine (refl d).token fun hm => ?_
    have hmem := Text.mem_of_mem_trimEnd hm
    simp [ht] at hmem

end Extends

theorem ends_copy (d : Draft) (t : Text) :
    (d.copy t).ends = List.replicate (t.count '\n') .literal ++ d.ends := by
  induction t generalizing d with
  | nil => rfl
  | cons c t ih =>
    rw [copy]
    split
    · next hc =>
      rw [ih, hc, List.count_cons_self, List.replicate_succ', List.append_assoc]
      rfl
    · next hc => rw [ih, List.count_cons_of_ne hc]; rfl

/-- What a step makes of a draft: `k` of the new line breaks have no record, and `n` characters are
tied if a literal has been read. -/
inductive Stepped (d : Draft) : Nat → Nat → Option Text → Draft → Prop where
  | other {k n : Nat} {e : Draft} : Extends d k e → Stepped d k n none e
  | literal {e f : Draft} {c x : Char} {w body : Text} : Extends d 0 e → opens c = true →
      closes x = true → body <:+: c :: (w ++ [x]) → f.back = (w ++ [x]).reverse ++ c :: e.back →
      f.ends = List.replicate (w.count '\n') .literal ++ e.ends →
        Stepped d 0 (w.length + 1) (some body) f

theorem exists_last_template {t body : Text} {s : Literal.Stretch}
    (h : Literal.template? t = some (body, s, rest)) :
    ∃ w x, body = w ++ [x] ∧ closes x = true := by
  fun_induction Literal.template? t generalizing body rest with
  | case1 | case2 => cases h
  | case3 c r ih =>
    obtain ⟨⟨b, _, _⟩, hb, he⟩ := Option.map_eq_some_iff.1 h
    cases he
    obtain ⟨w, x, rfl, hx⟩ := ih hb
    exact ⟨'\\' :: c :: w, x, rfl, hx⟩
  | case4 =>
    cases h
    exact ⟨['$'], '{', rfl, by decide⟩
  | case5 =>
    cases h
    exact ⟨[], '\x60', rfl, by decide⟩
  | case6 c r _ _ _ _ ih =>
    obtain ⟨⟨b, _, _⟩, hb, he⟩ := Option.map_eq_some_iff.1 h
    cases he
    obtain ⟨w, x, rfl, hx⟩ := ih hb
    exact ⟨c :: w, x, rfl, hx⟩

theorem exists_last_comment {t body : Text} (h : Literal.comment? t = some (body, rest)) :
    ∃ w, body = w ++ ['/'] := by
  fun_induction Literal.comment? t generalizing body rest with
  | case1 => cases h
  | case2 =>
    cases h
    exact ⟨['*'], rfl⟩
  | case3 c r _ ih =>
    obtain ⟨⟨b, _⟩, hb, he⟩ := Option.map_eq_some_iff.1 h
    cases he
    obtain ⟨w, rfl⟩ := ih hb
    exact ⟨c :: w, rfl⟩

/-- A string is written between two marks that are both quotes. -/
theorem stepped_quoted {body : Text} (hp : preferred = '\'' ∨ preferred = '"')
    (hc : c = '\'' ∨ c = '"') (hs : Literal.string? c rest = some (body, rest')) :
    Stepped d 0 (rest.length - rest'.length) (some body) (d.quoted preferred c body) := by
  have hmark : d.mark preferred c body = '\'' ∨ d.mark preferred c body = '"' := by
    unfold mark Literal.requote
    split_ifs
    exacts [hc, hc, hp]
  have hopens : opens (d.mark preferred c body) = true := by
    rcases hmark with hm | hm <;> rw [hm] <;> decide
  have hcloses : closes (d.mark preferred c body) = true := by
    rcases hmark with hm | hm <;> rw [hm] <;> decide
  have hsize : rest.length - rest'.length = body.length + 1 := by
    rw [Literal.string?_append hs, List.length_append, List.length_cons]
    omega
  rw [hsize]
  refine .literal (Extends.refl d).settle hopens hcloses ⟨[d.mark preferred c body],
    [d.mark preferred c body], by simp⟩ ?_ (ends_copy (d.token [d.mark preferred c body]) body)
  rw [quoted, advance, write, back_copy]
  simp [token, write]

/-- A stretch of a template literal is read behind `c`, its mark or the end of a substitution. -/
theorem stepped_stretched {body : Text} {s : Literal.Stretch} (he : Extends d 0 e)
    (hc : opens c = true) (ht : Literal.template? rest = some (body, s, rest')) :
    Stepped d 0 (rest.length - rest'.length) (some body) ((e.write [c]).stretched body s) := by
  have hback : ((e.write [c]).stretched body s).back = ((e.write [c]).copy body).back := by
    cases s <;> rfl
  have hends : ((e.write [c]).stretched body s).ends = ((e.write [c]).copy body).ends := by
    cases s <;> rfl
  obtain ⟨w, x, rfl, hx⟩ := exists_last_template ht
  have hsize : rest.length - rest'.length = w.length + 1 := by
    rw [Literal.template?_append ht, List.length_append, List.length_append, List.length_singleton]
    omega
  have hlast : '\n' ∉ [x] := by simpa using (closes_ne_newline hx).symm
  have hcount : (w ++ [x]).count '\n' = w.count '\n' := by
    rw [List.count_append, List.count_eq_zero.2 hlast, Nat.add_zero]
  rw [hsize]
  refine .literal he hc hx (List.suffix_cons c (w ++ [x])).isInfix ?_ ?_
  · rw [hback, back_copy]
    rfl
  · rw [hends, ends_copy, hcount]
    rfl

theorem stepped_commented {body : Text} (ht : Literal.comment? rest = some (body, rest')) :
    Stepped d 0 (('*' :: rest).length - rest'.length) (some ('/' :: '*' :: body))
      (d.commented body) := by
  obtain ⟨w, rfl⟩ := exists_last_comment ht
  have hsize : ('*' :: rest).length - rest'.length = ('*' :: w).length + 1 := by
    rw [Literal.comment?_append ht]
    simp
    omega
  rw [hsize]
  refine .literal (Extends.refl d).settle rfl rfl List.infix_rfl ?_ ?_
  · change (d.settle.copy ('/' :: '*' :: (w ++ ['/']))).back = _
    rw [back_copy]
    simp
  · change (d.settle.copy ('/' :: '*' :: (w ++ ['/']))).ends = _
    rw [ends_copy]
    simp

theorem Step.stepped {n : Nat} (h : Step preferred d c rest n d' rest')
    (hp : preferred = '\'' ∨ preferred = '"') :
    Stepped d n (rest.length - rest'.length) (d.literal? c rest) d' := by
  cases h with
  | gap hgap => exact literal?_gap rest hgap ▸ .other (.gap d _ _)
  | quote hc hmarkup hend =>
    have hn : '\n' ∉ [c] := by rcases hc with rfl | rfl <;> decide
    exact literal?_quote rest hc hmarkup hend ▸ .other ((Extends.refl d).token hn)
  | string hc hend hs => exact literal?_string hc hend hs ▸ stepped_quoted hp hc hs
  | template ht => exact literal?_template ht ▸ stepped_stretched (Extends.refl d).settle rfl ht
  | @lineComment rest _ =>
    have hn : '\n' ∉ rest.takeWhile (· ≠ '\n') := fun hm => by
      simpa using List.mem_takeWhile_imp hm
    have hstar : ('/' :: rest).head? ≠ some '*' := by simp
    exact literal?_slash hstar ▸ .other (.lineComment d hn)
  | blockComment ht => exact literal?_comment ht ▸ stepped_commented ht
  | @regex _ body tail ho _ =>
    have hwrite := (Extends.refl d).settle.write ('/' :: body ++ tail.takeWhile Char.isAlpha)
    rw [Nat.zero_add] at hwrite
    exact literal?_slash (head?_ne_star_of_opensRegex ho) ▸ .other hwrite
  | slash hstar _ => exact literal?_slash hstar ▸ .other ((Extends.refl d).token (by decide))
  | @opened f _ _ => exact literal?_opener f rest ▸ .other (.openFrame d f)
  | @closed f _ fs _ hf hframes =>
    exact literal?_closer rest hf hframes ▸ .other (.closeFrame d f fs)
  | @resumed _ fs _ _ _ _ hframes ht =>
    have he : Extends d 0 { d with frames := fs, pad := false } := .refl d
    exact literal?_resumed hframes ht ▸ stepped_stretched he rfl ht
  | comma => exact literal?_of_not_opens (c := ',') rest rfl ▸ .other (.comma d)
  | plain hgap hc =>
    have hn : '\n' ∉ [c] := fun hm => by
      cases List.mem_singleton.1 hm
      cases hgap
    exact literal?_plain rest hc ▸ .other ((Extends.refl d).token hn)

/-- What each step makes of a draft. -/
theorem step_stepped (hp : preferred = '\'' ∨ preferred = '"')
    (h : d.step preferred c rest = .ok (d', rest')) :
    Stepped d (d.regexBreaks c rest) (rest.length - rest'.length) (d.literal? c rest) d' :=
  (step_cases h).stepped hp

/-- The trace ties the literals of the draft, and its line breaks as they are recorded. -/
structure Traces (d : Draft) (tr : Trace) : Prop where
  length : tr.ties.length = d.back.length
  holds : Holds (d.back.zip tr.ties) tr.literals
  breaks : breakTies (d.back.zip tr.ties) = d.ends.map (· == .literal)

theorem traces_empty : Traces {} {} := ⟨rfl, .nil, rfl⟩

variable {tr : Trace}

/-- What is written behind a draft, and then `u`, is free. -/
theorem Extends.exists_zip (h : Extends d 0 e) (hd : Traces d tr) (u : Text) :
    ∃ m, (u ++ e.back).zip (Trace.fit (u ++ e.back).length tr.ties) = u.map (·, false) ++ m ∧
      Holds m tr.literals ∧ breakTies m = e.ends.map (· == .literal) := by
  obtain ⟨n, t, es, hn, hback, hends, hcount, hes, hfree⟩ := h
  have htake : (d.back.zip tr.ties).take n = (d.back.take n).zip (tr.ties.take n) := by
    rw [List.zip_eq_zipWith, List.take_zipWith, ← List.zip_eq_zipWith]
  have hmem : ∀ p ∈ (d.back.zip tr.ties).take n, p.1 ∈ d.back.take n := by
    intro p hp
    rw [htake] at hp
    exact (List.of_mem_zip hp).1
  obtain ⟨hholds, hties⟩ := hd.holds.drop (n := n) fun p hp => (hfree _ (hmem p hp)).1
  have hfreeTies : ∀ b ∈ tr.ties.take n, b = false := by
    have hsnd : ((d.back.zip tr.ties).take n).map (·.2) = tr.ties.take n := by
      rw [htake]
      exact List.map_snd_zip (by simp [hd.length])
    intro b hb
    rw [← hsnd] at hb
    obtain ⟨p, hp, rfl⟩ := List.mem_map.1 hb
    exact hties p hp
  have hlength : (u ++ e.back).length = (u ++ t).length + (tr.ties.length - n) := by
    rw [hback, hd.length]
    simp
    omega
  have hfit : Trace.fit (u ++ e.back).length tr.ties =
      List.replicate (u ++ t).length false ++ tr.ties.drop n := by
    rw [hlength]
    exact Trace.fit_of_free (hd.length ▸ hn) hfreeTies
  refine ⟨t.map (·, false) ++ (d.back.zip tr.ties).drop n, ?_, hholds.append t, ?_⟩
  · have hdrop : (d.back.drop n).zip (tr.ties.drop n) = (d.back.zip tr.ties).drop n := by
      rw [List.zip_eq_zipWith, List.zip_eq_zipWith, List.drop_zipWith]
    rw [hfit, hback, ← List.append_assoc, List.zip_append (by simp), hdrop,
      TiedText.zip_replicate, List.map_append, List.append_assoc]
  · have hall := hd.breaks
    rw [← List.take_append_drop n (d.back.zip tr.ties), TiedText.breakTies_append,
      TiedText.breakTies_of_not_mem fun p hp => (hfree _ (hmem p hp)).2, List.nil_append] at hall
    have hrecords : es.map (· == .literal) = List.replicate es.length false := by
      rw [List.map_eq_replicate_iff]
      intro r hr
      simpa using hes r hr
    rw [TiedText.breakTies_append, TiedText.breakTies_map, hall, hends, List.map_append, hrecords,
      hcount, Nat.add_zero]

/-- A step that hides no line breaks keeps the trace. -/
theorem Stepped.traces {n : Nat} {literal : Option Text} (h : Stepped d 0 n literal d')
    (hd : Traces d tr) : Traces d' (tr.next literal n d'.back.length) := by
  cases h with
  | other he =>
    obtain ⟨m, hzip, hholds, hbreaks⟩ := he.exists_zip hd []
    rw [List.nil_append, List.map_nil, List.nil_append] at hzip
    exact ⟨Trace.length_fit _ _, hzip ▸ hholds, hzip ▸ hbreaks⟩
  | @literal e f c x w body he hc hx hbody hback hends =>
    obtain ⟨m, hzip, hholds, hbreaks⟩ := he.exists_zip hd [c]
    have hsize : d'.back.length - (w.length + 1) = ([c] ++ e.back).length := by
      rw [hback]
      simp
    have hties : d'.back.zip (tr.next (some body) (w.length + 1) d'.back.length).ties =
        (block c (w ++ [x])).reverse ++ m := by
      have hlast : List.replicate (w.length + 1) true =
          List.replicate (w ++ [x]).reverse.length true := by simp
      have hcons : c :: e.back = [c] ++ e.back := rfl
      rw [Trace.next, hsize, hlast, hback, hcons, List.zip_append (by simp),
        TiedText.zip_replicate, hzip]
      simp [block]
    refine ⟨?_, ?_, ?_⟩
    · simp only [Trace.next, List.length_append, List.length_replicate, Trace.length_fit]
      have hlength := congrArg List.length hback
      simp at hlength
      omega
    · rw [hties]
      exact hholds.literal hc hx hbody
    · rw [hties, TiedText.breakTies_append, TiedText.breakTies_block hc hx, hbreaks, hends,
        List.map_append, List.map_replicate]
      rfl

theorem trace_nil : trace preferred d tr [] = tr := by rw [trace]

/-- Reading a text without hidden line breaks keeps the trace. -/
theorem read_traces (hp : preferred = '\'' ∨ preferred = '"') {t : Text}
    (h : read preferred d t = .ok d') (hb : hiddenBreaks preferred d t = 0) (hd : Traces d tr) :
    Traces d' (trace preferred d tr t) := by
  induction h using read_induction generalizing tr with
  | done => rwa [trace_nil]
  | step hstep _ ih =>
    rw [hiddenBreaks_of_step hstep, Nat.add_eq_zero_iff] at hb
    have hstepped := step_stepped hp hstep
    rw [hb.1] at hstepped
    rw [trace_of_step hstep]
    exact ih hb.2 (hstepped.traces hd)

theorem Step.literal {n : Nat} {body : Text} (h : Step preferred d c rest n d' rest')
    (hl : d.literal? c rest = some body) : ∃ u v, c :: rest = u ++ body ++ (v ++ rest') := by
  cases h with
  | gap hgap => cases (literal?_gap rest hgap).symm.trans hl
  | quote hc hmarkup hend => cases (literal?_quote rest hc hmarkup hend).symm.trans hl
  | string hc hend hs =>
    cases (literal?_string hc hend hs).symm.trans hl
    exact ⟨[c], [c], by simp [Literal.string?_append hs]⟩
  | template ht =>
    cases (literal?_template ht).symm.trans hl
    exact ⟨['\x60'], [], by rw [Literal.template?_append ht]; rfl⟩
  | @lineComment rest _ =>
    have hstar : ('/' :: rest).head? ≠ some '*' := by simp
    cases (literal?_slash hstar).symm.trans hl
  | blockComment ht =>
    cases (literal?_comment ht).symm.trans hl
    exact ⟨[], [], by rw [Literal.comment?_append ht]; rfl⟩
  | regex ho _ => cases (literal?_slash (head?_ne_star_of_opensRegex ho)).symm.trans hl
  | slash hstar _ => cases (literal?_slash hstar).symm.trans hl
  | @opened f _ _ => cases (literal?_opener f rest).symm.trans hl
  | closed hf hframes => cases (literal?_closer rest hf hframes).symm.trans hl
  | resumed hframes ht =>
    cases (literal?_resumed hframes ht).symm.trans hl
    exact ⟨['}'], [], by rw [Literal.template?_append ht]; rfl⟩
  | comma => cases (literal?_of_not_opens (c := ',') rest rfl).symm.trans hl
  | plain _ hc => cases (literal?_plain rest hc).symm.trans hl

/-- A literal stands in what is read by the step that meets it. -/
theorem exists_literal (h : d.step preferred c rest = .ok (d', rest')) {body : Text}
    (hl : d.literal? c rest = some body) : ∃ u v, c :: rest = u ++ body ++ (v ++ rest') :=
  (step_cases h).literal hl

/-- The literals of a trace stand in the source, in the order in which they have been read. -/
theorem exists_trace_literals (hp : preferred = '\'' ∨ preferred = '"') (tr : Trace) {t : Text}
    (h : read preferred d t = .ok d') :
    ∃ ls, (trace preferred d tr t).literals = ls ++ tr.literals ∧ Text.InOrder ls.reverse t := by
  induction h using read_induction generalizing tr with
  | done => exact ⟨[], by rw [trace_nil, List.nil_append], .nil []⟩
  | @step d c rest e rest' hstep _ ih =>
    obtain ⟨ls, hls, horder⟩ :=
      ih (tr.next (d.literal? c rest) (rest.length - rest'.length) e.back.length)
    rw [trace_of_step hstep, hls]
    cases hl : d.literal? c rest with
    | none =>
      have hsoft : isSoft preferred = true := by rcases hp with rfl | rfl <;> decide
      obtain ⟨w, hw, -⟩ := step_reads hsoft hstep
      exact ⟨ls, rfl, hw ▸ horder.append_left w⟩
    | some body =>
      obtain ⟨u, v, hrest⟩ := exists_literal hstep hl
      refine ⟨ls ++ [body], by simp [Trace.next], ?_⟩
      rw [List.reverse_concat, hrest]
      exact .cons u body (horder.append_left v)

end Draft

end ProjectSetup
