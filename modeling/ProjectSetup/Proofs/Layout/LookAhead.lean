import ProjectSetup.Proofs.Layout.FaultLines
import ProjectSetup.Proofs.Layout.Members

/-!
# Looking ahead from a brace

Where a brace opens members, a search looks ahead for the brace that closes them, while reading
finds the closing brace once it comes there. The search is the simpler reader of the two: it does
not know regular expressions or markup, and follows a substitution by counting braces. So the two
agree on the closing brace exactly if the text between the braces leads the search from one open
bracket to one.
-/
namespace ProjectSetup

namespace Literal

open Members (Quasi)

variable {t body rest : Text}

/-- Where a template literal closes, the look-ahead takes the same backtick for its end. -/
theorem quasi_of_closed (h : template? t = some (body, .closed, rest)) :
    ∃ w, body = w ++ ['\x60'] ∧ Quasi 0 w := by
  fun_induction template? t generalizing body rest with
  | case1 | case2 | case4 => simp at h
  | case3 c r ih =>
    obtain ⟨⟨b, _, _⟩, hb, he⟩ := Option.map_eq_some_iff.1 h
    cases he
    obtain ⟨w, rfl, hw⟩ := ih hb
    exact ⟨'\\' :: c :: w, rfl, .escape c hw⟩
  | case5 r =>
    cases h
    exact ⟨[], rfl, .nil⟩
  | case6 c r hlone hescape hopen htick ih =>
    obtain ⟨⟨b, _, _⟩, hb, he⟩ := Option.map_eq_some_iff.1 h
    cases he
    obtain ⟨w, rfl, hw⟩ := ih hb
    refine ⟨c :: w, rfl, .plain (ne_backslash hlone hescape) htick ?_ hw⟩
    rintro rfl hhead
    obtain ⟨v, rfl⟩ := List.head?_eq_some_iff.1 hhead
    exact hopen _ rfl (template?_append hb)

/-- Where a template literal opens a substitution, so it does for the look-ahead. -/
theorem quasi_of_opened (h : template? t = some (body, .opened, rest)) {u : Text} (hu : Quasi 1 u) :
    Quasi 0 (body ++ u) := by
  fun_induction template? t generalizing body rest with
  | case1 | case2 | case5 => simp at h
  | case3 c r ih =>
    obtain ⟨⟨b, _, _⟩, hb, he⟩ := Option.map_eq_some_iff.1 h
    cases he
    exact .escape c (ih hb)
  | case4 r =>
    cases h
    exact .substitution hu
  | case6 c r hlone hescape hopen htick ih =>
    obtain ⟨⟨b, _, _⟩, hb, he⟩ := Option.map_eq_some_iff.1 h
    cases he
    rw [List.cons_append]
    refine .plain (ne_backslash hlone hescape) htick ?_ (ih hb)
    rintro rfl hhead
    obtain ⟨w, x, hlast, -⟩ := Draft.exists_last_template hb
    have hne : b ≠ [] := by simp [hlast]
    rw [List.head?_append_of_ne_nil b hne] at hhead
    obtain ⟨v, rfl⟩ := List.head?_eq_some_iff.1 hhead
    exact hopen _ rfl (template?_append hb)

end Literal

namespace Draft

open Members (Quasi Leads marks)

variable {q c : Char} {d d' e : Draft} {n m : Nat} {f : Frame} {rest rest' t u inner beyond : Text}
  {fs fs' base : List (Frame × Nat)}

theorem closer_eq_brace_iff : f.closer = '}' ↔ f.opener = '{' := by cases f <;> decide

/-- What a step reads at `c` ahead of a text, which brackets are open behind it, and what is left of
the text. -/
inductive Token (d : Draft) : Char → Text → List (Frame × Nat) → Text → Prop where
  | gap {c : Char} {w rest : Text} : isGap c = true → (∀ x ∈ w, isGap x = true) →
    Token d c (w ++ rest) d.frames rest
  /-- A quote in the text of markup. -/
  | quote {c : Char} {rest : Text} : c = '\'' ∨ c = '"' → d.inMarkup = true →
    d.endsWith ['='] = false → Token d c rest d.frames rest
  | string {c : Char} {rest body rest' : Text} : c = '\'' ∨ c = '"' →
    Literal.string? c rest = some (body, rest') → Token d c rest d.frames rest'
  | template {rest body rest' : Text} : Literal.template? rest = some (body, .closed, rest') →
    Token d '\x60' rest d.frames rest'
  | substitution {rest body rest' : Text} {n : Nat} :
    Literal.template? rest = some (body, .opened, rest') →
      Token d '\x60' rest ((.substitution, n) :: d.frames) rest'
  | lineComment {rest : Text} : d.inMarkup = false →
    Token d '/' ('/' :: rest) d.frames (rest.dropWhile (· ≠ '\n'))
  | blockComment {rest body rest' : Text} : Literal.comment? rest = some (body, rest') →
    Token d '/' ('*' :: rest) d.frames rest'
  | regex {rest rest' : Text} : d.opensRegex rest = true → Token d '/' rest d.frames rest'
  | slash {rest : Text} : rest.head? ≠ some '*' → (d.inMarkup = false → rest.head? ≠ some '/') →
    Token d '/' rest d.frames rest
  | opened {f : Frame} {n : Nat} {rest : Text} : f ≠ .substitution →
    Token d f.opener rest ((f, n) :: d.frames) rest
  | closed {f : Frame} {n : Nat} {fs : List (Frame × Nat)} {rest : Text} : f ≠ .substitution →
    d.frames = (f, n) :: fs → Token d f.closer rest fs rest
  /-- Behind a substitution the template literal ends. -/
  | ended {n : Nat} {fs : List (Frame × Nat)} {rest body rest' : Text} :
    d.frames = (.substitution, n) :: fs → Literal.template? rest = some (body, .closed, rest') →
      Token d '}' rest fs rest'
  /-- Behind a substitution the template literal goes on to the next one. -/
  | resumed {n m : Nat} {fs : List (Frame × Nat)} {rest body rest' : Text} :
    d.frames = (.substitution, n) :: fs → Literal.template? rest = some (body, .opened, rest') →
      Token d '}' rest ((.substitution, m) :: fs) rest'
  | plain {c : Char} {rest : Text} : c ∉ marks → Token d c rest d.frames rest

/-- What the search does not take for plain text begins a token of its own kind. -/
theorem marks_subset_tokenMarks : marks ⊆ tokenMarks := by decide

theorem Step.token (h : Step q d c rest n d' rest') : Token d c rest d'.frames rest' := by
  cases h with
  | @gap _ rest hc =>
    rw [(d.sameOpen_gap _ _).frames]
    have hrun : Token d c (rest.takeWhile isGap ++ rest.dropWhile isGap) d.frames
        (rest.dropWhile isGap) := .gap hc fun x hx => List.mem_takeWhile_imp hx
    rwa [List.takeWhile_append_dropWhile] at hrun
  | quote hc hmarkup hend => exact (d.sameOpen_token [c]).frames.symm ▸ .quote hc hmarkup hend
  | @string _ _ body _ hc _ hs => exact (d.sameOpen_quoted body).frames.symm ▸ .string hc hs
  | @template _ body _ s ht =>
    have hsame := d.sameOpen_token ['\x60']
    obtain ⟨rfl, hkept⟩ | ⟨rfl, m, hopened⟩ := frames_stretched (d.token ['\x60']) body s
    · exact (hkept.trans hsame.frames).symm ▸ .template ht
    · exact (hopened.trans (congrArg _ hsame.frames)).symm ▸ .substitution ht
  | lineComment hmarkup => exact (d.sameOpen_lineComment _).frames.symm ▸ .lineComment hmarkup
  | @blockComment _ body _ ht => exact (d.sameOpen_commented body).frames.symm ▸ .blockComment ht
  | regex ho _ => exact (d.sameOpen_token _).frames.symm ▸ .regex ho
  | slash hstar hslash => exact (d.sameOpen_token ['/']).frames.symm ▸ .slash hstar hslash
  | opened hf => exact .opened hf
  | @closed f _ fs _ hf hframes =>
    exact (d.sameOpen_closeFrame f fs).frames.symm ▸ .closed hf hframes
  | @resumed _ fs _ body _ s hframes ht =>
    have hsame := d.sameOpen_closeFrame .substitution fs
    obtain ⟨rfl, hended⟩ | ⟨rfl, m, hopened⟩ :=
      frames_stretched (d.closeFrame .substitution fs) body s
    · exact (hended.trans hsame.frames).symm ▸ .ended hframes ht
    · exact (hopened.trans (congrArg _ hsame.frames)).symm ▸ .resumed hframes ht
  | comma => exact d.sameOpen_comma.frames.symm ▸ .plain (by decide)
  | plain _ hc => exact (d.sameOpen_token [c]).frames.symm ▸ .plain (mt (@marks_subset_tokenMarks c) hc)

theorem token_step (h : d.step q c rest = .ok (d', rest')) : Token d c rest d'.frames rest' :=
  (step_cases h).token

theorem Comes.le (h : Comes q n d t e u) : n ≤ d.frames.length := by
  cases h with
  | here hn | step hn _ _ => exact hn

theorem Comes.read_eq (h : Comes q n d t e u) : read q d t = read q e u := by
  induction h with
  | here _ => rfl
  | step _ hstep _ ih => rw [read_of_step hstep, ih]

/-- Reading comes to one bracket only that leaves less than `n` brackets open. -/
theorem Comes.eq_of_closes {x : Char} {e' b b' : Draft} {v v' : Text}
    (h : Comes q n d t e (c :: u)) (hstep : e.step q c u = .ok (e', rest))
    (hless : e'.frames.length < n) (h' : Comes q n d t b (x :: v))
    (hstep' : b.step q x v = .ok (b', v')) (hless' : b'.frames.length < n) : u = v := by
  generalize hstop : c :: u = stop at h
  induction h with
  | here _ =>
    subst hstop
    cases h' with
    | here _ => rfl
    | step _ hfirst hrun =>
      cases hfirst.symm.trans hstep
      exact absurd hrun.le (Nat.not_le.2 hless)
  | step _ hfirst hrun ih =>
    cases h' with
    | here _ =>
      cases hfirst.symm.trans hstep'
      exact absurd hrun.le (Nat.not_le.2 hless')
    | step _ hfirst' hrun' =>
      cases hfirst.symm.trans hfirst'
      exact ih hstep hrun' hstop

/-- Reading that ends with less than `n` brackets open comes to a bracket behind which less than `n`
are open. -/
theorem exists_closing_step (h : read q d t = .ok e) (hd : n ≤ d.frames.length)
    (he : e.frames.length < n) : ∃ b c u b' u', Comes q n d t b (c :: u) ∧
      b.step q c u = .ok (b', u') ∧ b'.frames.length < n := by
  induction h using read_induction with
  | done => exact absurd hd (Nat.not_le.2 he)
  | @step d c rest d' rest' hstep _ ih =>
    rcases Nat.lt_or_ge d'.frames.length n with hlt | hge
    · exact ⟨d, c, rest, d', rest', .here hd, hstep, hlt⟩
    · obtain ⟨b, x, u, b', u', hcomes, hb, hlt⟩ := ih hge
      exact ⟨b, x, u, b', u', .step hd hstep hcomes, hb, hlt⟩

/-- A bracket stays open, with the same ones around it, as long as more brackets are open than are
around it. Only the bracket of a substitution is replaced. -/
theorem Token.suffix {all : List (Frame × Nat)} (h : Token d c rest all rest')
    (hf : f ≠ .substitution) (hd : (f, n) :: base <:+ d.frames) (hall : base.length < all.length) :
    (f, n) :: base <:+ all := by
  cases h with
  | gap | quote | string | template | lineComment | blockComment | regex | slash | plain => exact hd
  | substitution | opened => exact hd.trans (List.suffix_cons _ _)
  | closed _ hframes | ended hframes _ =>
    rw [hframes, List.suffix_cons_iff] at hd
    rcases hd with heq | hd
    · cases heq
      exact absurd hall (Nat.lt_irrefl _)
    · exact hd
  | resumed hframes _ =>
    rw [hframes, List.suffix_cons_iff] at hd
    rcases hd with heq | hd
    · cases heq
      exact absurd rfl hf
    · exact hd.trans (List.suffix_cons _ _)

theorem Token.closing {all : List (Frame × Nat)} (h : Token d c rest all rest')
    (hf : f ≠ .substitution) (hd : (f, n) :: base <:+ d.frames) (hall : all.length ≤ base.length) :
    d.frames = (f, n) :: base ∧ c = f.closer ∧ rest' = rest ∧ all = base := by
  have hle : base.length + 1 ≤ d.frames.length := hd.length_le
  cases h with
  | gap | quote | string | template | lineComment | blockComment | regex | slash | plain => omega
  | substitution | opened =>
    rw [List.length_cons] at hall
    omega
  | closed _ hframes =>
    have hsame := hd.eq_of_length_le (by rw [hframes]; exact Nat.succ_le_succ hall)
    cases hsame.trans hframes
    exact ⟨hsame.symm, rfl, rfl, rfl⟩
  | ended hframes _ =>
    cases (hd.eq_of_length_le (by rw [hframes]; exact Nat.succ_le_succ hall)).trans hframes
    exact absurd rfl hf
  | resumed hframes _ =>
    rw [hframes, List.length_cons] at hle
    rw [List.length_cons] at hall
    omega

theorem Comes.frames_suffix (h : Comes q (base.length + 1) d t e u) (hf : f ≠ .substitution)
    (hd : (f, n) :: base <:+ d.frames) : (f, n) :: base <:+ e.frames := by
  induction h with
  | here _ => exact hd
  | step _ hstep hrun ih => exact ih ((token_step hstep).suffix hf hd hrun.le)

/-- The brace that opens on `d` ahead of `rest` is closed behind `inner`: reading comes there with
nothing but its bracket open inside those of `d`, and takes the bracket away. -/
def ClosesAt (q : Char) (d : Draft) (rest inner beyond : Text) : Prop :=
  rest = inner ++ '}' :: beyond ∧ ∃ e e',
    Comes q (d.frames.length + 1) (d.openFrame (d.braceFrame rest)) rest e ('}' :: beyond) ∧
      e.frames = (d.braceFrame rest, d.line) :: d.frames ∧
        e.step q '}' beyond = .ok (e', beyond) ∧ e'.frames = d.frames

theorem ClosesAt.unique {inner' beyond' : Text} (h : ClosesAt q d rest inner beyond)
    (h' : ClosesAt q d rest inner' beyond') : beyond' = beyond := by
  obtain ⟨-, e, e', hcomes, -, hstep, he'⟩ := h
  obtain ⟨-, b, b', hcomes', -, hstep', hb'⟩ := h'
  exact hcomes'.eq_of_closes hstep' (by rw [hb']; exact Nat.lt_succ_self _) hcomes hstep
    (by rw [he']; exact Nat.lt_succ_self _)

/-- In a script that is read to its end with no bracket open, each brace is closed. -/
theorem exists_closesAt (hq : Text.isSoft q = true)
    (h : read q (d.openFrame (d.braceFrame rest)) rest = .ok e)
    (he : e.frames.length ≤ d.frames.length) : ∃ inner beyond, ClosesAt q d rest inner beyond := by
  obtain ⟨hopener, hframe⟩ := d.braceFrame_bracket rest
  obtain ⟨b, c, u, b', u', hcomes, hstep, hless⟩ :=
    exists_closing_step h (Nat.le_refl (d.frames.length + 1)) (Nat.lt_succ_of_le he)
  have hopen := hcomes.frames_suffix hframe List.suffix_rfl
  obtain ⟨hb, rfl, rfl, hb'⟩ :=
    (token_step hstep).closing hframe hopen (Nat.le_of_lt_succ hless)
  rw [closer_eq_brace_iff.2 hopener] at hcomes hstep
  obtain ⟨inner, hinner⟩ := hcomes.suffix hq
  exact ⟨inner, u', hinner.symm, b, b', hcomes, hb, hstep, hb'⟩

/-- The draft and the text that `k` steps lead to, with no less than `n` brackets open all the
way. -/
def walk? (q : Char) (n : Nat) : Nat → Draft → Text → Option (Draft × Text)
  | 0, d, t => if n ≤ d.frames.length then some (d, t) else none
  | _ + 1, _, [] => none
  | k + 1, d, c :: rest =>
    if n ≤ d.frames.length then
      match d.step q c rest with
      | .ok (d', rest') => walk? q n k d' rest'
      | .error _ => none
    else none

theorem comes_of_walk? {k : Nat} (h : walk? q n k d t = some (e, u)) : Comes q n d t e u := by
  fun_induction walk? q n k d t with
  | case1 d t hn =>
    cases h
    exact .here hn
  | case4 k d c rest hn d' rest' hstep ih => exact .step hn hstep (ih h)
  | case2 | case3 | case5 | case6 => cases h

theorem closesAt_of_walk? {k : Nat} {e' : Draft} (hframe : d.braceFrame rest = f)
    (hsplit : rest = inner ++ '}' :: beyond)
    (hwalk : walk? q (d.frames.length + 1) k (d.openFrame f) rest = some (e, '}' :: beyond))
    (he : e.frames = (f, d.line) :: d.frames) (hstep : e.step q '}' beyond = .ok (e', beyond))
    (he' : e'.frames = d.frames) : ClosesAt q d rest inner beyond := by
  subst hframe
  exact ⟨hsplit, e, e', comes_of_walk? hwalk, he, hstep, he'⟩

/-- The brackets in whose braces the look-ahead counts inside a substitution. -/
def braces (fs : List (Frame × Nat)) : Nat := fs.countP fun x => x.1.opener == '{'

theorem braces_cons (f : Frame) (n : Nat) (fs : List (Frame × Nat)) :
    braces ((f, n) :: fs) = braces fs + if f.opener = '{' then 1 else 0 := by
  simp [braces, List.countP_cons]

/-- None of the brackets is that of a substitution. -/
def Outside (fs : List (Frame × Nat)) : Prop := ∀ x ∈ fs, x.1 ≠ .substitution

/-- Ahead of `t`, behind which one bracket is left, the look-ahead stands where reading stands with
the brackets `fs` open. Inside a substitution it still has to find the end of the template
literal. -/
inductive Ahead : List (Frame × Nat) → Text → Prop where
  | code {fs : List (Frame × Nat)} {t : Text} : Outside fs → Leads fs.length t 1 → Ahead fs t
  | substitution {inner outer : List (Frame × Nat)} {n : Nat} {w t : Text} : Outside inner →
    Outside outer → Quasi (braces inner + 1) w → Leads outer.length t 1 →
      Ahead (inner ++ (.substitution, n) :: outer) (w ++ '\x60' :: t)

theorem not_outside_append (inner outer : List (Frame × Nat)) (n : Nat) :
    ¬ Outside (inner ++ (.substitution, n) :: outer) :=
  fun h => h (.substitution, n) (by simp) rfl

namespace Ahead

theorem leads (h : Ahead fs t) (hfs : Outside fs) : Leads fs.length t 1 := by
  cases h with
  | code _ h => exact h
  | substitution => exact absurd hfs (not_outside_append _ _ _)

theorem quasi (h : Ahead ((.substitution, n) :: fs) t) (hfs : Outside fs) :
    ∃ w u, t = w ++ '\x60' :: u ∧ Quasi 1 w ∧ Leads fs.length u 1 := by
  generalize hall : (Frame.substitution, n) :: fs = all at h
  cases h with
  | code hout _ => exact absurd rfl (hout (.substitution, n) (by simp [← hall]))
  | @substitution inner outer m w u hinner _ hw hu =>
    cases inner with
    | nil =>
      cases hall
      exact ⟨w, u, rfl, hw, hu⟩
    | cons x inner =>
      cases hall
      exact absurd rfl (hinner (.substitution, n) (by simp))

/-- A character that neither reader tells from others. -/
theorem plain (h : Ahead fs t) (hc : c ∉ marks) (hslash : c = '\\' → Outside fs) :
    Ahead fs (c :: t) := by
  cases h with
  | code hout h => exact .code hout (.plain hc h)
  | substitution hinner houter hw hu =>
    refine .substitution (w := c :: _) hinner houter (.inside ?_ ?_ ?_ hw) hu
    · exact fun h => not_outside_append _ _ _ (hslash h)
    · rintro rfl
      exact hc (by decide)
    · rintro rfl
      exact hc (by decide)

theorem slash (h : Ahead fs t) (hslash : t.head? ≠ some '/') (hstar : t.head? ≠ some '*') :
    Ahead fs ('/' :: t) := by
  cases h with
  | code hout h => exact .code hout (.slash hslash hstar h)
  | substitution hinner houter hw hu =>
    refine .substitution (w := '/' :: _) hinner houter (.inside ?_ ?_ ?_ hw) hu
    all_goals decide

theorem gap {w : Text} (h : Ahead fs t) (hw : ∀ x ∈ w, isGap x = true) : Ahead fs (w ++ t) := by
  induction w with
  | nil => exact h
  | cons x w ih =>
    obtain ⟨hx, hw⟩ := List.forall_mem_cons.1 hw
    have hplain : x ∉ marks ∧ x ≠ '\\' := by
      simp only [isGap, Bool.or_eq_true, beq_iff_eq] at hx
      rcases hx with ((rfl | rfl) | rfl) | rfl <;> decide
    exact (ih hw).plain hplain.1 fun he => absurd he hplain.2

theorem opened (h : Ahead ((f, n) :: fs) t) (hf : f ≠ .substitution) :
    Ahead fs (f.opener :: t) := by
  generalize hall : (f, n) :: fs = all at h
  cases h with
  | code hout h =>
    subst hall
    exact .code (List.forall_mem_cons.1 hout).2 (.opened (by simp) h)
  | @substitution inner outer m w u hinner houter hw hu =>
    cases inner with
    | nil =>
      cases hall
      exact absurd rfl hf
    | cons x inner =>
      cases hall
      rw [braces_cons] at hw
      refine .substitution (w := f.opener :: w) (List.forall_mem_cons.1 hinner).2 houter ?_ hu
      split_ifs at hw with hopener
      · rw [hopener]
        exact .opened hw
      · exact .inside (by cases f <;> decide) hopener (by cases f <;> decide) hw

theorem closed (h : Ahead fs t) (hf : f ≠ .substitution) (hfs : fs ≠ []) (n : Nat) :
    Ahead ((f, n) :: fs) (f.closer :: t) := by
  cases h with
  | code hout h =>
    obtain ⟨k, hk⟩ := Nat.exists_eq_succ_of_ne_zero (mt List.length_eq_zero_iff.1 hfs)
    refine .code (List.forall_mem_cons.2 ⟨hf, hout⟩) ?_
    rw [List.length_cons, hk]
    rw [hk] at h
    exact .closed (by cases f <;> rfl) h
  | @substitution inner outer m w u hinner houter hw hu =>
    refine @substitution ((f, n) :: inner) outer m (f.closer :: w) u
      (List.forall_mem_cons.2 ⟨hf, hinner⟩) houter ?_ hu
    rw [braces_cons]
    split_ifs with hopener
    · rw [closer_eq_brace_iff.2 hopener]
      exact .closed hw
    · exact .inside (by cases f <;> decide) (by cases f <;> decide)
        (mt closer_eq_brace_iff.1 hopener) hw

/-- The brace that ends a substitution, ahead of the rest of the template literal. -/
theorem ended {w : Text} (hfs : Outside fs) (hw : Quasi 0 w) (h : Leads fs.length t 1) (n : Nat) :
    Ahead ((.substitution, n) :: fs) ('}' :: w ++ '\x60' :: t) :=
  @substitution [] fs n ('}' :: w) t (fun _ hx => nomatch hx) hfs (.closed hw) h

end Ahead

/-- Whether a substitution is open inside the `n` outer brackets. -/
def substitutes (n : Nat) (d : Draft) : Bool :=
  (d.frames.take (d.frames.length - n)).any fun x => x.1 == .substitution

/-- What is read at `c` ahead of `rest` is plain to a look-ahead from inside the `n` outer brackets:
no regular expression and, in the text of markup, neither a quote nor two slashes. Inside a
substitution it is no literal, no comment and no backslash. -/
structure PlainAt (n : Nat) (d : Draft) (c : Char) (rest : Text) : Prop where
  regex : c = '/' → d.opensRegex rest = false
  quote : c = '\'' ∨ c = '"' → d.inMarkup = true → d.endsWith ['='] = true
  slashes : c = '/' → d.inMarkup = true → rest.head? ≠ some '/'
  literal : d.substitutes n = true → c ∉ ['\'', '"', '\x60', '\\']
  comment : d.substitutes n = true → c = '/' → rest.head? ≠ some '/' ∧ rest.head? ≠ some '*'

instance (n : Nat) (d : Draft) (c : Char) (rest : Text) : Decidable (PlainAt n d c rest) :=
  decidable_of_iff
    ((c = '/' → d.opensRegex rest = false) ∧
      (c = '\'' ∨ c = '"' → d.inMarkup = true → d.endsWith ['='] = true) ∧
      (c = '/' → d.inMarkup = true → rest.head? ≠ some '/') ∧
      (d.substitutes n = true → c ∉ ['\'', '"', '\x60', '\\']) ∧
      (d.substitutes n = true → c = '/' → rest.head? ≠ some '/' ∧ rest.head? ≠ some '*'))
    ⟨fun ⟨h₁, h₂, h₃, h₄, h₅⟩ => ⟨h₁, h₂, h₃, h₄, h₅⟩,
      fun h => ⟨h.regex, h.quote, h.slashes, h.literal, h.comment⟩⟩

/-- All that is read while more than `n` brackets are open is plain, and within `k` steps no more
than `n` are open. -/
def allPlain (q : Char) (n : Nat) : Nat → Draft → Text → Bool
  | 0, _, _ => false
  | _ + 1, _, [] => true
  | k + 1, d, c :: rest =>
    d.frames.length ≤ n || PlainAt n d c rest && match d.step q c rest with
      | .ok (d', rest') => allPlain q n k d' rest'
      | .error _ => true

theorem plainAt_of_allPlain {k : Nat} (h : allPlain q n k d t = true)
    (hcomes : Comes q (n + 1) d t e (c :: u)) : PlainAt n e c u := by
  generalize hstop : c :: u = stop at hcomes
  induction hcomes generalizing k with
  | here hn =>
    subst hstop
    cases k with
    | zero => cases h
    | succ k =>
      simp only [allPlain, Nat.not_le.2 hn, decide_false, Bool.false_or, Bool.and_eq_true,
        decide_eq_true_eq] at h
      exact h.1
  | step hn hstep _ ih =>
    cases k with
    | zero => cases h
    | succ k =>
      simp only [allPlain, Nat.not_le.2 hn, decide_false, Bool.false_or, Bool.and_eq_true,
        hstep] at h
      exact ih h.2 hstop

theorem outside_of_substitutes (hd : d.frames = fs ++ base)
    (h : d.substitutes base.length = false) : Outside fs := by
  rw [substitutes, hd, List.length_append, Nat.add_sub_cancel, List.take_left,
    List.any_eq_false] at h
  intro x hx hsub
  exact h x hx (by simp [hsub])

/-- At most one of the brackets is that of a substitution. -/
def Single (fs : List (Frame × Nat)) : Prop := fs.countP (fun x => x.1 == .substitution) ≤ 1

theorem outside_iff : Outside fs ↔ fs.countP (fun x => x.1 == .substitution) = 0 := by
  simp [Outside, List.countP_eq_zero]

theorem single_cons (hf : f ≠ .substitution) : Single ((f, n) :: fs) ↔ Single fs := by
  rw [Single, List.countP_cons_of_neg (by simpa using hf), Single]

theorem single_substitution : Single ((.substitution, n) :: fs) ↔ Outside fs := by
  rw [Single, List.countP_cons_of_pos (by rfl), outside_iff]
  omega

theorem Outside.single (h : Outside fs) : Single fs := by
  rw [Single, outside_iff.1 h]
  exact Nat.zero_le 1

/-- What a plain step leaves open, as long as it does not close the innermost of the outer
brackets. -/
theorem exists_open_of_token {all : List (Frame × Nat)} (hd : d.frames = fs ++ base)
    (hsingle : Single fs) (hfs : fs ≠ []) (htoken : Token d c rest all rest')
    (hplain : PlainAt base.length d c rest) (hall : base.length < all.length) :
    ∃ fs', all = fs' ++ base ∧ fs' ≠ [] ∧ Single fs' := by
  obtain ⟨x, inner, rfl⟩ := List.exists_cons_of_ne_nil hfs
  have hkept : ∃ fs', d.frames = fs' ++ base ∧ fs' ≠ [] ∧ Single fs' :=
    ⟨x :: inner, hd, hfs, hsingle⟩
  cases htoken with
  | gap | quote | string | template | lineComment | blockComment | regex | slash | plain =>
    exact hkept
  | @substitution _ _ _ n =>
    have hout := outside_of_substitutes hd
      (Bool.eq_false_iff.2 fun hin => hplain.literal hin (by decide))
    exact ⟨(.substitution, n) :: x :: inner, by rw [hd]; rfl, by simp, single_substitution.2 hout⟩
  | @opened f n _ hf =>
    exact ⟨(f, n) :: x :: inner, by rw [hd]; rfl, by simp, (single_cons hf).2 hsingle⟩
  | closed hf hframes =>
    cases hframes.symm.trans hd
    refine ⟨inner, rfl, ?_, (single_cons hf).1 hsingle⟩
    rintro rfl
    exact Nat.lt_irrefl _ hall
  | ended hframes ht =>
    cases hframes.symm.trans hd
    refine ⟨inner, rfl, ?_, (single_substitution.1 hsingle).single⟩
    rintro rfl
    exact Nat.lt_irrefl _ hall
  | @resumed _ m _ _ _ _ hframes ht =>
    cases hframes.symm.trans hd
    exact ⟨(.substitution, m) :: inner, rfl, by simp,
      single_substitution.2 (single_substitution.1 hsingle)⟩

/-- One step: from behind it to ahead of it. -/
theorem ahead_of_token (hd : d.frames = fs ++ base) (hsingle : Single fs) (hfs' : fs' ≠ [])
    (htoken : Token d c rest (fs' ++ base) rest') (hplain : PlainAt base.length d c rest)
    (hrest : rest' = t ++ '}' :: beyond) (h : Ahead fs' t) :
    ∃ u, c :: rest = u ++ '}' :: beyond ∧ Ahead fs u := by
  have houtside (hinside : d.substitutes base.length = true → False) : Outside fs :=
    outside_of_substitutes hd (Bool.eq_false_iff.2 hinside)
  have hsame {fs' : List (Frame × Nat)} (hall : fs' ++ base = d.frames) : fs' = fs :=
    List.append_cancel_right (hall.trans hd)
  generalize hall : fs' ++ base = all at htoken
  cases htoken with
  | @gap _ w _ hc hw =>
    obtain rfl := hsame hall
    exact ⟨c :: w ++ t, by simp [hrest], h.gap (List.forall_mem_cons.2 ⟨hc, hw⟩)⟩
  | quote hc hmarkup hend => exact nomatch hend.symm.trans (hplain.quote hc hmarkup)
  | @string _ _ body _ hc hs =>
    obtain rfl := hsame hall
    have hout := houtside fun hin => hplain.literal hin (by rcases hc with rfl | rfl <;> decide)
    refine ⟨c :: body ++ c :: t, ?_, .code hout
      (.string hc (Literal.fits_of_string? hs).1 (.inl rfl) (h.leads hout))⟩
    rw [Literal.string?_append hs, hrest]
    simp
  | template ht =>
    obtain rfl := hsame hall
    have hout := houtside fun hin => hplain.literal hin (by decide)
    obtain ⟨w, rfl, hw⟩ := Literal.quasi_of_closed ht
    refine ⟨'\x60' :: w ++ '\x60' :: t, ?_, .code hout (.template hw (h.leads hout))⟩
    rw [Literal.template?_append ht, hrest]
    simp
  | @substitution _ body _ n ht =>
    obtain rfl : fs' = (.substitution, n) :: fs :=
      List.append_cancel_right (hall.trans (congrArg _ hd))
    have hout := houtside fun hin => hplain.literal hin (by decide)
    obtain ⟨w, u, rfl, hw, hu⟩ := h.quasi hout
    refine ⟨'\x60' :: (body ++ w) ++ '\x60' :: u, ?_, .code hout
      (.template (Literal.quasi_of_opened ht hw) hu)⟩
    rw [Literal.template?_append ht, hrest]
    simp
  | lineComment hmarkup =>
    obtain rfl := hsame hall
    have hout := houtside fun hin => (hplain.comment hin rfl).1 rfl
    obtain ⟨w, v, hw, rfl, rfl⟩ := Members.exists_line_end (by decide) hrest
    exact ⟨'/' :: '/' :: w ++ '\n' :: v, by simp, .code hout (.lineComment hw (h.leads hout))⟩
  | @blockComment _ body _ hs =>
    obtain rfl := hsame hall
    have hout := houtside fun hin => (hplain.comment hin rfl).2 rfl
    refine ⟨'/' :: '*' :: body ++ t, ?_, .code hout
      (.blockComment (Literal.comment?_self hs) (h.leads hout))⟩
    rw [Literal.comment?_append hs, hrest]
    simp
  | regex ho => exact nomatch ho.symm.trans (hplain.regex rfl)
  | slash hstar hslash =>
    obtain rfl := hsame hall
    subst hrest
    have hslash : (t ++ '}' :: beyond).head? ≠ some '/' := by
      cases hmarkup : d.inMarkup with
      | true => exact hplain.slashes rfl hmarkup
      | false => exact hslash hmarkup
    refine ⟨'/' :: t, rfl, ?_⟩
    cases t with
    | nil => exact h.slash (by simp) (by simp)
    | cons x t => exact h.slash hslash hstar
  | @opened f n _ hf =>
    obtain rfl : fs' = (f, n) :: fs := List.append_cancel_right (hall.trans (congrArg _ hd))
    exact ⟨f.opener :: t, by rw [hrest]; rfl, h.opened hf⟩
  | @closed f n _ _ hf hframes =>
    obtain rfl : fs = (f, n) :: fs' :=
      List.append_cancel_right (hd.symm.trans (hframes.trans (congrArg _ hall.symm)))
    exact ⟨f.closer :: t, by rw [hrest]; rfl, h.closed hf hfs' n⟩
  | @ended n _ _ _ _ hframes ht =>
    obtain rfl : fs = (.substitution, n) :: fs' :=
      List.append_cancel_right (hd.symm.trans (hframes.trans (congrArg _ hall.symm)))
    have hout := single_substitution.1 hsingle
    obtain ⟨w, rfl, hw⟩ := Literal.quasi_of_closed ht
    refine ⟨('}' :: w) ++ '\x60' :: t, ?_,
      .ended hout hw (h.leads hout) n⟩
    rw [Literal.template?_append ht, hrest]
    simp
  | @resumed n m _ _ body _ hframes ht =>
    obtain ⟨fs', rfl⟩ : ∃ inner, fs' = (.substitution, m) :: inner := by
      cases fs' with
      | nil => exact absurd rfl hfs'
      | cons x inner =>
        cases hall
        exact ⟨inner, rfl⟩
    cases hall
    obtain rfl : fs = (.substitution, n) :: fs' := List.append_cancel_right (hd.symm.trans hframes)
    have hout := single_substitution.1 hsingle
    obtain ⟨w, u, rfl, hw, hu⟩ := h.quasi hout
    refine ⟨('}' :: (body ++ w)) ++ '\x60' :: u, ?_,
      .ended hout (Literal.quasi_of_opened ht hw) hu n⟩
    rw [Literal.template?_append ht, hrest]
    simp
  | plain hc =>
    obtain rfl := hsame hall
    refine ⟨c :: t, by rw [hrest]; rfl, h.plain hc fun he => houtside fun hin => ?_⟩
    exact hplain.literal hin (by simp [he])

/-- A run: from the closing brace back to where it began. -/
theorem ahead_of_comes (h : Comes q (base.length + 1) d t e ('}' :: beyond))
    (hd : d.frames = fs ++ base) (hfs : fs ≠ []) (hsingle : Single fs) {m : Nat}
    (he : e.frames = (f, m) :: base) (hf : f ≠ .substitution)
    (hplain : ∀ b c u, Comes q (base.length + 1) d t b (c :: u) → PlainAt base.length b c u) :
    ∃ u, t = u ++ '}' :: beyond ∧ Ahead fs u := by
  generalize hstop : '}' :: beyond = stop at h
  -- What stands ahead of the brace is found from the brace back: each step adds its own text.
  induction h generalizing fs with
  | here _ =>
    obtain rfl : fs = [(f, m)] := List.append_cancel_right (hd.symm.trans he)
    have hout : Outside [(f, m)] := List.forall_mem_singleton.2 hf
    exact ⟨[], rfl, .code hout (.nil 1)⟩
  | @step d d' e c rest rest' u hn hstep hrun ih =>
    subst hstop
    have htoken := token_step hstep
    have hhere := hplain d c rest (.here hn)
    obtain ⟨fs', hd', hfs', hsingle'⟩ :=
      exists_open_of_token hd hsingle hfs htoken hhere hrun.le
    obtain ⟨t, ht, hahead⟩ := ih hd' hfs' hsingle' he
      (fun b x v hb => hplain b x v (.step hn hstep hb)) rfl
    rw [hd'] at htoken
    exact ahead_of_token hd hsingle hfs' htoken hhere ht hahead

/-- Ahead of a brace that opens in a script, the search stops at the bracket at which reading closes
the brace exactly if the text between the two leads the search from one open bracket to one. So it
does if all that is read in between is plain to the search. -/
theorem search_stops_at_closer_iff (hq : q = '\'' ∨ q = '"') {source after : Text} {whole : Draft}
    {oneLine : Bool} (h : collapse q source = .ok whole)
    (hcomes : Comes q 0 {} source d ('{' :: rest))
    (hstops : Members.search {} rest = .closed oneLine after) :
    (∃ inner beyond, ClosesAt q d rest inner beyond) ∧
      ∀ inner beyond, ClosesAt q d rest inner beyond →
        (after = beyond ↔ Leads 1 inner 1) ∧
        ((∀ e c u, Comes q (d.frames.length + 1) (d.openFrame (d.braceFrame rest)) rest e (c :: u) →
          PlainAt d.frames.length e c u) → after = beyond) := by
  have hsoft : Text.isSoft q = true := by rcases hq with rfl | rfl <;> decide
  have hstep : d.step q '{' rest = .ok (d.openFrame (d.braceFrame rest), rest) := by
    simp [step, isGap]
  have hread : read q (d.openFrame (d.braceFrame rest)) rest = .ok whole := by
    rw [← read_of_step hstep, ← hcomes.read_eq, read_of_collapse h]
  refine ⟨exists_closesAt hsoft hread (by rw [frames_of_collapse h]; exact Nat.zero_le _), ?_⟩
  rintro inner beyond ⟨hsplit, e, -, hrun, he, -⟩
  have hiff : after = beyond ↔ Leads 1 inner 1 := Members.stops_behind_iff (hsplit ▸ hstops)
  refine ⟨hiff, fun hplain => hiff.2 ?_⟩
  have hframe := (d.braceFrame_bracket rest).2
  have hout : Outside [(d.braceFrame rest, d.line)] := List.forall_mem_singleton.2 hframe
  obtain ⟨u, hu, hahead⟩ :=
    ahead_of_comes hrun rfl (List.cons_ne_nil _ []) hout.single he hframe hplain
  obtain ⟨rfl, -⟩ := List.append_inj' (hsplit.symm.trans hu) rfl
  exact hahead.leads hout

/-- Closing braces in a template literal, a string and a comment are passed over by both readers. -/
theorem search_stops_behind_list :
    let source := "x = \x7ba: \x60\x7d$\x7bb\x7d\x60, '\x7d': c /* \x7d */\x7d\n".toList
    let rest := "a: \x60\x7d$\x7bb\x7d\x60, '\x7d': c /* \x7d */\x7d\n".toList
    let inner := "a: \x60\x7d$\x7bb\x7d\x60, '\x7d': c /* \x7d */".toList
    let d : Draft := { back := " = x".toList }
    (∃ whole, collapse '\'' source = .ok whole) ∧ Comes '\'' 0 {} source d ('\x7b' :: rest) ∧
      Members.search {} rest = .closed true ['\n'] ∧ ClosesAt '\'' d rest inner ['\n'] ∧
        Leads 1 inner 1 := by
  have hwhole : collapse '\''
      "x = \x7ba: \x60\x7d$\x7bb\x7d\x60, '\x7d': c /* \x7d */\x7d\n".toList = .ok
      { back := "\n\x7d /* \x7d */ c :'\x7d' ,\x60\x7db\x7b$\x7d\x60 :a \x7b = x".toList
        ends := [.statement]
        line := 2 } := by decide +kernel
  have hopen : walk? '\'' 0 4 {}
      "x = \x7ba: \x60\x7d$\x7bb\x7d\x60, '\x7d': c /* \x7d */\x7d\n".toList = some
        ({ back := " = x".toList },
          '\x7b' :: "a: \x60\x7d$\x7bb\x7d\x60, '\x7d': c /* \x7d */\x7d\n".toList) := by
    decide +kernel
  have hsearch : Members.search {} "a: \x60\x7d$\x7bb\x7d\x60, '\x7d': c /* \x7d */\x7d\n".toList =
      .closed true ['\n'] := by decide +kernel
  have hframe : braceFrame { back := " = x".toList }
      "a: \x60\x7d$\x7bb\x7d\x60, '\x7d': c /* \x7d */\x7d\n".toList = .list := by decide +kernel
  have hinside : walk? '\'' 1 14 (openFrame { back := " = x".toList } .list)
      "a: \x60\x7d$\x7bb\x7d\x60, '\x7d': c /* \x7d */\x7d\n".toList = some
        ({ back := "/* \x7d */ c :'\x7d' ,\x60\x7db\x7b$\x7d\x60 :a \x7b = x".toList
           frames := [(.list, 1)] }, ['\x7d', '\n']) := by decide +kernel
  have hplain : allPlain '\'' 0 30 (openFrame { back := " = x".toList } .list)
      "a: \x60\x7d$\x7bb\x7d\x60, '\x7d': c /* \x7d */\x7d\n".toList = true := by decide +kernel
  have hcloses : ClosesAt '\'' { back := " = x".toList }
      "a: \x60\x7d$\x7bb\x7d\x60, '\x7d': c /* \x7d */\x7d\n".toList
      "a: \x60\x7d$\x7bb\x7d\x60, '\x7d': c /* \x7d */".toList ['\n'] := by
    have hstep : step '\''
        { back := "/* \x7d */ c :'\x7d' ,\x60\x7db\x7b$\x7d\x60 :a \x7b = x".toList
          frames := [(.list, 1)] } '\x7d' ['\n'] = .ok
        ({ back := "\x7d /* \x7d */ c :'\x7d' ,\x60\x7db\x7b$\x7d\x60 :a \x7b = x".toList },
          ['\n']) := by decide +kernel
    exact closesAt_of_walk? hframe (by decide) hinside rfl hstep rfl
  have hcomes := comes_of_walk? hopen
  have hstops := (search_stops_at_closer_iff (.inl rfl) hwhole hcomes hsearch).2 _ _ hcloses
  refine ⟨⟨_, hwhole⟩, hcomes, hsearch, hcloses, hstops.1.1 (hstops.2 fun e c u he => ?_)⟩
  rw [hframe] at he
  exact plainAt_of_allPlain hplain he

/-- The search stops at a brace in a regular expression, so the list is written on one line though
it holds a body. -/
theorem search_stops_in_regex :
    let source := "x = \x7b\n  a: /\x7d/,\n  b() \x7b\x7d\n\x7d\n".toList
    let rest := "\n  a: /\x7d/,\n  b() \x7b\x7d\n\x7d\n".toList
    let after := "/,\n  b() \x7b\x7d\n\x7d\n".toList
    let d : Draft := { back := " = x".toList }
    (∃ whole, collapse '\'' source = .ok whole) ∧ Comes '\'' 0 {} source d ('\x7b' :: rest) ∧
      d.inMarkup = false ∧ d.opensLabelled = false ∧ d.opensMembers = true ∧
        Members.search {} rest = .closed true after ∧
          ∀ inner, ¬ ClosesAt '\'' d rest inner after := by
  have hwhole : collapse '\'' "x = \x7b\n  a: /\x7d/,\n  b() \x7b\x7d\n\x7d\n".toList = .ok
      { back := "\n\x7d \x7d\x7b )(b ,/\x7d/ :a \x7b = x".toList
        ends := [.statement]
        line := 5 } := by decide +kernel
  have hopen : walk? '\'' 0 4 {} "x = \x7b\n  a: /\x7d/,\n  b() \x7b\x7d\n\x7d\n".toList = some
      ({ back := " = x".toList }, '\x7b' :: "\n  a: /\x7d/,\n  b() \x7b\x7d\n\x7d\n".toList) := by
    decide +kernel
  have hsearch : Members.search {} "\n  a: /\x7d/,\n  b() \x7b\x7d\n\x7d\n".toList =
      .closed true "/,\n  b() \x7b\x7d\n\x7d\n".toList := by decide +kernel
  have hframe : braceFrame { back := " = x".toList }
      "\n  a: /\x7d/,\n  b() \x7b\x7d\n\x7d\n".toList = .list := by decide +kernel
  have hinside : walk? '\'' 1 14 (openFrame { back := " = x".toList } .list)
      "\n  a: /\x7d/,\n  b() \x7b\x7d\n\x7d\n".toList = some
        ({ back := "\x7d\x7b )(b ,/\x7d/ :a \x7b = x".toList
           frames := [(.list, 1)]
           line := 4 }, ['\x7d', '\n']) := by decide +kernel
  have hcloses : ClosesAt '\'' { back := " = x".toList }
      "\n  a: /\x7d/,\n  b() \x7b\x7d\n\x7d\n".toList
      "\n  a: /\x7d/,\n  b() \x7b\x7d\n".toList ['\n'] := by
    have hstep : step '\''
        { back := "\x7d\x7b )(b ,/\x7d/ :a \x7b = x".toList
          frames := [(.list, 1)]
          line := 4 } '\x7d' ['\n'] = .ok
        ({ back := "\x7d \x7d\x7b )(b ,/\x7d/ :a \x7b = x".toList
           line := 4 }, ['\n']) := by decide +kernel
    exact closesAt_of_walk? hframe (by decide) hinside rfl hstep rfl
  refine ⟨⟨_, hwhole⟩, comes_of_walk? hopen, by decide +kernel, by decide +kernel,
    by decide +kernel, hsearch, fun inner h => ?_⟩
  exact absurd (hcloses.unique h) (by decide)

end Draft

end ProjectSetup
