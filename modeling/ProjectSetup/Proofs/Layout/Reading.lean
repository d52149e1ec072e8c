import ProjectSetup.Layout.Style
import ProjectSetup.Proofs.Layout.Steps
import ProjectSetup.Proofs.Text.Firm

/-!
# What reading keeps

Reading moves blanks, replaces quotes and the marks of comments, joins lines, and takes back a
comma ahead of a closing bracket. Everything else it writes as it stands, in the same order. A
draft keeps a record of every line break that it writes, except of those inside regular
expressions.
-/
namespace ProjectSetup

namespace Draft

open Text (firm Pruned isSoft)

/-- All line breaks of a draft but `n` have a record of how their line ended. -/
def Records (d : Draft) (n : Nat) : Prop := d.back.count '\n' = d.ends.length + n

/-- `d'` is `d` with `w` read onto it: what is firm in `w` is there, pruned at most, and all but
`n` of the new line breaks have a record. -/
structure Reads (d : Draft) (w : Text) (n : Nat) (d' : Draft) : Prop where
  pruned : ∀ s, Pruned (firm d.back) s → Pruned (firm d'.back) (firm w.reverse ++ s)
  records : ∀ m, d.Records m → d'.Records (m + n)

namespace Reads

theorem refl (d : Draft) : Reads d [] 0 d := ⟨fun _ h => h, fun _ h => h⟩

theorem trans {d e f : Draft} {w v : Text} {m n : Nat} (h : Reads d w m e) (h' : Reads e v n f) :
    Reads d (w ++ v) (m + n) f := by
  constructor
  · intro s hs
    have := h'.pruned _ (h.pruned s hs)
    simpa [List.reverse_append, List.append_assoc] using this
  · intro k hk
    rw [← Nat.add_assoc]
    exact h'.records _ (h.records k hk)

/-- Soft characters of what was read do not count. -/
theorem congr {d e : Draft} {w v : Text} {n : Nat} (h : Reads d w n e) (hw : firm w = firm v) :
    Reads d v n e := by
  constructor
  · intro s hs
    rw [Text.firm_reverse, ← hw, ← Text.firm_reverse]
    exact h.pruned s hs
  · exact h.records

theorem of_firm_eq {d e : Draft} {w : Text} {n : Nat}
    (hf : firm e.back = firm w.reverse ++ firm d.back)
    (hr : ∀ m, d.Records m → e.Records (m + n)) : Reads d w n e := by
  refine ⟨fun s hs => ?_, hr⟩
  rw [hf]
  exact hs.append _

end Reads

theorem reads_write (d : Draft) (t : Text) : Reads d t (t.count '\n') (d.write t) := by
  apply Reads.of_firm_eq
  · simp [write]
  · intro m hm
    simp only [Records, write, List.count_append, List.count_reverse] at hm ⊢
    omega

/-- Soft characters may be written at any time. -/
theorem reads_soft (d : Draft) (t : Text) (ht : firm t = []) (hn : '\n' ∉ t) :
    Reads d [] 0 (d.write t) := by
  have h := (d.reads_write t).congr (v := []) ht
  rwa [List.count_eq_zero.2 hn] at h

theorem reads_space (d : Draft) : Reads d [] 0 d.space := by
  unfold space
  split
  · exact .refl d
  · exact d.reads_soft [' '] (by decide) (by decide)

theorem reads_settle (d : Draft) : Reads d [] 0 d.settle := by
  unfold settle
  split
  · exact ⟨d.reads_space.pruned, d.reads_space.records⟩
  · exact .refl d

theorem reads_token (d : Draft) (t : Text) : Reads d t (t.count '\n') (d.token t) := by
  have h := d.reads_settle.trans (d.settle.reads_write t)
  rwa [Nat.zero_add] at h

theorem reads_advance (d : Draft) (t : Text) : Reads d [] 0 (d.advance t) :=
  ⟨(Reads.refl d).pruned, (Reads.refl d).records⟩

theorem reads_breakLine (d : Draft) (e : LineEnd) : Reads d ['\n'] 0 (d.breakLine e) := by
  apply Reads.of_firm_eq
  · rfl
  · intro m hm
    simp only [Records, breakLine, List.count_cons_self, List.length_cons] at hm ⊢
    omega

theorem reads_copy (d : Draft) (t : Text) : Reads d t 0 (d.copy t) := by
  induction t generalizing d with
  | nil => exact .refl d
  | cons c t ih =>
    rw [copy]
    split
    · next hc =>
      subst hc
      exact (d.reads_breakLine .literal).trans (ih _)
    · next hc =>
      have h := d.reads_write [c]
      rw [List.count_eq_zero.2 (by simpa using Ne.symm hc)] at h
      exact h.trans (ih _)

theorem filter_retract (d : Draft) {p : Char → Bool} (hs : p ' ' = false) (ht : p '\t' = false) :
    d.retract.back.filter p = d.back.filter p := by
  apply Text.filter_dropWhile
  intro c _ hc
  rcases Bool.or_eq_true_iff.1 hc with h | h
  · rw [beq_iff_eq.1 h, hs]
  · rw [beq_iff_eq.1 h, ht]

theorem firm_retract (d : Draft) : firm d.retract.back = firm d.back :=
  d.filter_retract (by decide) (by decide)

theorem records_retract {d : Draft} {n : Nat} : d.retract.Records n ↔ d.Records n := by
  have hc : d.retract.back.count '\n' = d.back.count '\n' := by
    simp only [List.count_eq_length_filter]
    rw [d.filter_retract (by decide) (by decide)]
  rw [Records, hc]
  rfl

theorem reads_retract (d : Draft) : Reads d [] 0 d.retract :=
  .of_firm_eq d.firm_retract fun _ => records_retract.2

/-- Joined lines lose their breaks and no more. -/
theorem Reads.joined {d e : Draft} {run : Text} (hrun : ∀ c ∈ run, isGap c = true)
    (h : Reads d [] 0 e) : Reads d run 0 e := by
  refine ⟨fun s hs => Pruned.joins ?_ (h.pruned s hs), h.records⟩
  intro c hc
  obtain ⟨hmem, hfirm⟩ := List.mem_filter.1 hc
  have hgap := hrun c (List.mem_reverse.1 hmem)
  simp only [isGap, Bool.or_eq_true, beq_iff_eq] at hgap
  rcases hgap with ((rfl | rfl) | rfl) | rfl
  · cases hfirm
  · cases hfirm
  · cases hfirm
  · rfl

/-- Lines that are kept lose their carriage returns and no more. -/
theorem reads_lines (d : Draft) {run : Text} (hrun : ∀ c ∈ run, isGap c = true) :
    Reads d run 0 (run.foldl (fun d c =>
      if c = '\n' then d.breakLine d.lineEnd else if c = '\r' then d else d.write [c]) d) := by
  induction run generalizing d with
  | nil => exact .refl d
  | cons c run ih =>
    have hrest := fun e : Draft => ih e fun x hx => hrun x (List.mem_cons_of_mem c hx)
    rw [List.foldl_cons]
    by_cases hn : c = '\n'
    · rw [if_pos hn, hn]
      exact (d.reads_breakLine d.lineEnd).trans (hrest _)
    · rw [if_neg hn]
      by_cases hr : c = '\r'
      · rw [if_pos hr, hr]
        exact ((Reads.refl d).congr (v := ['\r']) (by decide)).trans (hrest d)
      · rw [if_neg hr]
        have h := d.reads_write [c]
        rw [List.count_eq_zero.2 (by simpa using Ne.symm hn)] at h
        exact h.trans (hrest _)

theorem reads_gap (d : Draft) {run : Text} (rest : Text) (hrun : ∀ c ∈ run, isGap c = true) :
    Reads d run 0 (d.gap run rest) := by
  have ha := d.reads_advance run
  unfold gap
  dsimp only
  split
  · split
    · exact ha.joined hrun
    · have h := ha.trans (d.advance run).reads_space
      exact Reads.joined hrun ⟨h.pruned, h.records⟩
  · exact ha.trans ((d.advance run).reads_lines hrun)

theorem reads_comma (d : Draft) : Reads d [','] 0 d.comma := by
  unfold comma
  split
  · have h := d.reads_retract.trans (d.retract.reads_write [','])
    exact ⟨h.pruned, h.records⟩
  · exact d.reads_token [',']

theorem opener_ne_newline (f : Frame) : '\n' ∉ [f.opener] := by cases f <;> decide

theorem closer_ne_newline (f : Frame) : '\n' ∉ [f.closer] := by cases f <;> decide

theorem reads_openFrame (d : Draft) (f : Frame) : Reads d [f.opener] 0 (d.openFrame f) := by
  have h := d.reads_token [f.opener]
  rw [List.count_eq_zero.2 (opener_ne_newline f)] at h
  exact ⟨h.pruned, h.records⟩

theorem requote_soft {preferred quote : Char} (hp : isSoft preferred = true)
    (hq : isSoft quote = true) (body : Text) :
    isSoft (Literal.requote preferred quote body) = true := by
  unfold Literal.requote
  split
  · exact hq
  · exact hp

theorem newline_not_quote {c : Char} (h : isSoft c = true) : '\n' ∉ [c] := by
  intro hm
  rw [← List.mem_singleton.1 hm] at h
  cases h

/-- A mark that is soft takes the place of another. -/
theorem reads_mark (d : Draft) {mark c : Char} (hm : isSoft mark = true) (hc : isSoft c = true) :
    Reads d [c] 0 (d.token [mark]) := by
  have h := (d.reads_token [mark]).congr (v := [c]) (by
    rw [Text.firm_cons_soft hm, Text.firm_cons_soft hc])
  rwa [List.count_eq_zero.2 (newline_not_quote hm)] at h

/-- What stands between the quotes is kept, and so are the quotes but for their kind. -/
theorem reads_quoted {preferred quote : Char} (d : Draft) (hp : isSoft preferred = true)
    (hq : isSoft quote = true) (body : Text) :
    Reads d (quote :: (body ++ [quote])) 0 (d.quoted preferred quote body) := by
  have hmark : isSoft (d.mark preferred quote body) = true := by
    unfold mark
    split
    · exact hq
    · exact requote_soft hp hq body
  let opened := d.token [d.mark preferred quote body]
  have hopen : Reads d [quote] 0 opened := d.reads_mark hmark hq
  have hbody := opened.reads_copy body
  have hclose := (opened.copy body).reads_soft [d.mark preferred quote body]
    (Text.firm_cons_soft hmark []) (newline_not_quote hmark)
  have hall := hopen.trans (hbody.trans (hclose.congr (v := [quote])
    (Text.firm_cons_soft hq []).symm))
  exact ⟨hall.pruned, hall.records⟩

theorem reads_stretched (d : Draft) (body : Text) (s : Literal.Stretch) :
    Reads d body 0 (d.stretched body s) := by
  have hbody := d.reads_copy body
  cases s with
  | closed => exact ⟨hbody.pruned, hbody.records⟩
  | opened => exact ⟨hbody.pruned, hbody.records⟩

theorem firm_openMarks (t : Text) : firm (openMarks t) = firm t := by
  fun_induction openMarks t with
  | case1 => rfl
  | case2 r ih =>
    rw [Text.firm_cons_soft (by decide), Text.firm_cons_soft (by decide),
      Text.firm_cons_soft (by decide), Text.firm_cons_soft (by decide),
      Text.firm_cons_soft (by decide), ih]
  | case3 c r _ ih => simp only [firm, List.filter_cons] at ih ⊢; rw [ih]

theorem newline_not_mem_openMarks {t : Text} (h : '\n' ∉ t) : '\n' ∉ openMarks t := by
  fun_induction openMarks t with
  | case1 => exact h
  | case2 r ih => simpa using ih (fun hr => h (by simp [hr]))
  | case3 c r _ ih =>
    rw [List.mem_cons, not_or] at h ⊢
    exact ⟨h.1, ih h.2⟩

theorem reads_lineComment (d : Draft) {text : Text} (ht : '\n' ∉ text) :
    Reads d ('/' :: '/' :: text) 0 (d.lineComment text) := by
  have hslash : firm ('/' :: '/' :: text) = firm text := by
    rw [Text.firm_cons_soft (by decide), Text.firm_cons_soft (by decide)]
  unfold lineComment
  split
  · have hn : '\n' ∉ "/* ".toList ++ openMarks text.trim ++ " */".toList := by
      have hm : '\n' ∉ openMarks text.trim := newline_not_mem_openMarks fun h =>
        ht (Text.mem_of_mem_trimStart (Text.mem_of_mem_trimEnd h))
      simpa using hm
    have hf : firm ("/* ".toList ++ openMarks text.trim ++ " */".toList) =
        firm ('/' :: '/' :: text) := by
      rw [hslash, Text.firm_append, Text.firm_append, firm_openMarks, Text.firm_trim ht]
      rw [show firm "/* ".toList = [] by decide, show firm " */".toList = [] by decide]
      simp
    have h := (d.reads_token _).congr hf
    rwa [List.count_eq_zero.2 hn] at h
  · have hn : '\n' ∉ '/' :: '/' :: text := by simpa using ht
    have h := (d.reads_token _).congr (Text.firm_trimEnd hn)
    rwa [List.count_eq_zero.2 fun hm => hn (Text.mem_of_mem_trimEnd hm)] at h

theorem reads_commented (d : Draft) (body : Text) :
    Reads d ('/' :: '*' :: body) 0 (d.commented body) := by
  have hall := d.reads_settle.trans (d.settle.reads_copy ('/' :: '*' :: body))
  exact ⟨hall.pruned, hall.records⟩

theorem closer_hard {c : Char} (hc : Text.isCloser c = true) : isSoft c = false ∧ '\n' ∉ [c] := by
  simp only [Text.isCloser, Bool.or_eq_true, beq_iff_eq] at hc
  rcases hc with (rfl | rfl) | rfl <;> decide

/-- The blank that a list keeps inside its braces. -/
theorem reads_padding (d : Draft) (f : Frame) :
    Reads d [] 0 (if f = .list && !d.endsWith ['{'] then d.write [' '] else d) := by
  split
  · exact d.reads_soft [' '] (by decide) (by decide)
  · exact .refl d

theorem firm_padding (d : Draft) (f : Frame) :
    firm (if f = .list && !d.endsWith ['{'] then d.write [' '] else d).back = firm d.back := by
  split
  · exact Text.firm_cons_soft (by decide) d.back
  · rfl

theorem reads_closer (d : Draft) {c : Char} (hc : Text.isCloser c = true) :
    Reads d [c] 0 (d.write [c]) := by
  have h := d.reads_write [c]
  rwa [List.count_eq_zero.2 (closer_hard hc).2] at h

/-- Ahead of a closing bracket the comma at the end goes. -/
theorem reads_dropped_comma {d e : Draft} {c : Char} {back : Text} (hc : Text.isCloser c = true)
    (hback : d.back = ',' :: back) (he : firm e.back = firm back)
    (hr : ∀ m, d.Records m → e.Records m) : Reads d [c] 0 (e.write [c]) := by
  constructor
  · intro s hs
    rw [hback, Text.firm_cons_firm (by decide)] at hs
    obtain ⟨breaks, b, hb, rfl, hp⟩ := hs.of_comma
    have hlast : firm (e.write [c]).back = c :: firm back := by
      rw [← he]
      exact Text.firm_cons_firm (closer_hard hc).1 e.back
    rw [hlast]
    exact (Text.firm_cons_firm (closer_hard hc).1 []).symm ▸ .comma hc hb hp
  · intro m hm
    exact (e.reads_closer hc).records m (hr m hm)

theorem reads_endList (d : Draft) (f : Frame) {c : Char} (hc : Text.isCloser c = true) :
    Reads d [c] 0 ((d.endList f).write [c]) := by
  unfold endList
  dsimp only
  split
  · next hcomma =>
    obtain ⟨back, hback⟩ : ∃ back, d.retract.back = ',' :: back := by
      simp only [endsWith, Option.any_eq_true, List.contains_eq_mem, List.mem_singleton,
        decide_eq_true_eq] at hcomma
      obtain ⟨x, hx, rfl⟩ := hcomma
      exact ⟨d.retract.back.tail, List.eq_cons_of_mem_head? hx⟩
    let e : Draft := { d.retract with back := d.retract.back.tail }
    have hdrop : Reads d.retract [c] 0
        ((if f = .list && !e.retract.endsWith ['{'] then e.retract.write [' ']
          else e.retract).write [c]) := by
      apply reads_dropped_comma hc hback
      · rw [firm_padding, firm_retract]
        simp [e, hback]
      · intro m hm
        refine (e.retract.reads_padding f).records m (records_retract.2 ?_)
        have hcount : d.retract.back.count '\n' = d.retract.back.tail.count '\n' := by
          rw [hback]
          rfl
        rw [Records, hcount] at hm
        exact hm
    exact d.reads_retract.trans hdrop
  · exact (d.reads_retract.trans (d.retract.reads_padding f)).trans (reads_closer _ hc)

theorem reads_closeFrame (d : Draft) (f : Frame) (frames : List (Frame × Nat)) :
    Reads d [f.closer] 0 (d.closeFrame f frames) := by
  have hc : Text.isCloser f.closer = true := by cases f <;> decide
  unfold closeFrame
  dsimp only
  let e : Draft := { d with frames := frames, pad := false }
  split
  · exact ⟨(e.reads_endList f hc).pruned, (e.reads_endList f hc).records⟩
  · exact ⟨(e.reads_closer hc).pruned, (e.reads_closer hc).records⟩

theorem soft_of_quote {c : Char} (hc : c = '\'' ∨ c = '"') : isSoft c = true := by
  rcases hc with rfl | rfl <;> decide

/-- A token that is one character and no line break is written as it stands. -/
theorem reads_single (d : Draft) {c : Char} (hc : '\n' ∉ [c]) : Reads d [c] 0 (d.token [c]) := by
  have h := d.reads_token [c]
  rwa [List.count_eq_zero.2 hc] at h

theorem Step.reads {preferred c : Char} {d d' : Draft} {n : Nat} {rest rest' : Text}
    (hp : isSoft preferred = true) (h : Step preferred d c rest n d' rest') :
    ∃ w, c :: rest = w ++ rest' ∧ Reads d w n d' := by
  cases h with
  | gap hc =>
    refine ⟨c :: rest.takeWhile isGap, by simp, d.reads_gap _ fun x hx => ?_⟩
    rcases List.mem_cons.1 hx with rfl | hx
    · exact hc
    · exact List.mem_takeWhile_imp hx
  | quote hc _ _ => exact ⟨[c], rfl, d.reads_mark (soft_of_quote hc) (soft_of_quote hc)⟩
  | @string _ _ body _ hc _ hs =>
    refine ⟨c :: (body ++ [c]), ?_, d.reads_quoted hp (soft_of_quote hc) body⟩
    rw [Literal.string?_append hs]
    simp
  | @template _ body _ s ht =>
    refine ⟨'\x60' :: body, ?_, (d.reads_single (by decide)).trans (reads_stretched _ body s)⟩
    rw [Literal.template?_append ht]
    rfl
  | @lineComment rest _ =>
    refine ⟨'/' :: '/' :: rest.takeWhile (· ≠ '\n'), by simp, d.reads_lineComment fun hm => ?_⟩
    simpa using List.mem_takeWhile_imp hm
  | @blockComment _ body _ ht =>
    refine ⟨'/' :: '*' :: body, ?_, d.reads_commented body⟩
    rw [Literal.comment?_append ht]
    rfl
  | @regex _ body tail _ hr =>
    refine ⟨'/' :: body ++ tail.takeWhile Char.isAlpha, ?_, d.reads_token _⟩
    rw [Literal.regex?_append hr]
    simp
  | slash _ _ => exact ⟨['/'], rfl, d.reads_single (by decide)⟩
  | @opened f _ _ => exact ⟨[f.opener], rfl, d.reads_openFrame f⟩
  | @closed f _ fs _ _ _ => exact ⟨[f.closer], rfl, d.reads_closeFrame f fs⟩
  | @resumed _ fs _ body _ s _ ht =>
    refine ⟨'}' :: body, ?_, (d.reads_closeFrame .substitution fs).trans (reads_stretched _ body s)⟩
    rw [Literal.template?_append ht]
    rfl
  | comma => exact ⟨[','], rfl, d.reads_comma⟩
  | plain hgap _ =>
    refine ⟨[c], rfl, d.reads_single fun hm => ?_⟩
    rw [← List.mem_singleton.1 hm] at hgap
    cases hgap

/-- A step reads the first characters of the text onto the draft. -/
theorem step_reads {preferred c : Char} {d d' : Draft} {rest rest' : Text}
    (hp : isSoft preferred = true) (h : d.step preferred c rest = .ok (d', rest')) :
    ∃ w, c :: rest = w ++ rest' ∧ Reads d w (d.regexBreaks c rest) d' :=
  (step_cases h).reads hp

/-- The line breaks inside the regular expressions of a text that is read onto a draft. -/
def hiddenBreaks (preferred : Char) (d : Draft) : Text → Nat
  | [] => 0
  | c :: rest =>
    match _h : d.step preferred c rest with
    | .error _ => 0
    | .ok (d', rest') => d.regexBreaks c rest + hiddenBreaks preferred d' rest'
termination_by t => t.length
decreasing_by
  have := step_length_le _h
  simp only [List.length_cons]
  omega

theorem hiddenBreaks_of_step {preferred c : Char} {d e : Draft} {rest rest' : Text}
    (h : d.step preferred c rest = .ok (e, rest')) :
    hiddenBreaks preferred d (c :: rest) =
      d.regexBreaks c rest + hiddenBreaks preferred e rest' := by
  rw [hiddenBreaks]
  split
  · next he => rw [h] at he; cases he
  · next he =>
    rw [h] at he
    cases he
    rfl

/-- Reading a whole text keeps what every step keeps. -/
theorem read_reads {preferred : Char} (hp : isSoft preferred = true) {d d' : Draft} {t : Text}
    (h : read preferred d t = .ok d') : Reads d t (hiddenBreaks preferred d t) d' := by
  induction h using read_induction with
  | done =>
    rw [hiddenBreaks]
    exact .refl _
  | step hstep _ ih =>
    obtain ⟨w, hw, hr⟩ := step_reads hp hstep
    rw [hiddenBreaks_of_step hstep, hw]
    exact hr.trans ih

theorem quote_soft (style : Style) : isSoft style.quote = true := soft_of_quote style.quote_cases

theorem read_of_collapse {preferred : Char} {source : Text} {d : Draft}
    (h : collapse preferred source = .ok d) : read preferred {} source = .ok d := by
  unfold collapse at h
  split at h
  · cases h
  · next hr =>
    split at h
    · cases h
      exact hr
    · cases h

theorem frames_of_collapse {preferred : Char} {source : Text} {d : Draft}
    (h : collapse preferred source = .ok d) : d.frames = [] := by
  unfold collapse at h
  split at h
  · cases h
  · split at h
    · next hframes =>
      cases h
      exact hframes
    · cases h

/-- The draft of a text holds the firm part of the text, pruned at most. -/
theorem collapse_pruned {preferred : Char} {source : Text} {d : Draft}
    (hp : isSoft preferred = true) (h : collapse preferred source = .ok d) :
    Pruned (firm d.back) (firm source.reverse) := by
  have hr := read_reads hp (read_of_collapse h)
  simpa using hr.pruned [] .nil

/-- The draft of a text holds the characters of a kind that the text holds, if the kind has
nothing in it that reading writes or drops. -/
theorem filter_collapse {preferred : Char} {source : Text} {d : Draft} {p : Char → Bool}
    (hp : isSoft preferred = true) (hsoft : ∀ c, isSoft c = true → p c = false)
    (hn : p '\n' = false) (hc : p ',' = false) (h : collapse preferred source = .ok d) :
    d.text.filter p = source.filter p := by
  have he := (collapse_pruned hp h).filter_eq hn hc
  rw [Text.filter_firm hsoft, Text.filter_firm hsoft, List.filter_reverse] at he
  rw [text, List.filter_reverse, he, List.reverse_reverse]

/-- The draft of a text has a record for each line break outside regular expressions. -/
theorem collapse_records {style : Style} {source : Text} {d : Draft}
    (h : collapse style.quote source = .ok d) :
    d.Records (hiddenBreaks style.quote {} source) := by
  have hr := read_reads (quote_soft style) (read_of_collapse h)
  simpa using hr.records 0 rfl

end Draft

end ProjectSetup
