import ProjectSetup.Proofs.Layout.Brackets

/-!
# Lists in parentheses and brackets

Where neither a literal nor a comment, a brace or a tag begins, all that reading changes are the
blanks and commas in lists. What may stand next to what in a list can be told from two neighbours,
and a text in which all neighbours agree is written as it is read.
-/
namespace ProjectSetup

namespace Text

/-- No literal, comment, brace or tag begins with the character. -/
def isListing (c : Char) : Bool := !(['\'', '"', '\x60', '/', '{', '}', '<'].contains c)

/-- The number of brackets that are open behind `c`, if `n` are open ahead of it. -/
def deeper (n : Nat) (c : Char) : Nat :=
  if c = '(' ∨ c = '[' then n + 1 else if c = ')' ∨ c = ']' then n - 1 else n

def depth (n : Nat) (t : Text) : Nat := t.foldl deeper n

/-- Whether `c` follows `a` in a list on one line: a single blank stands behind a comma and nowhere
next to a bracket on its inner side, and no comma stands ahead of a closing bracket. -/
def follows (a c : Char) : Bool :=
  !(['\n', '\t', '\r'].contains c) &&
    if c = ' ' then !(['(', '[', ' '].contains a)
    else if a = ' ' ∨ a = '\t' then !([')', ']', ','].contains c)
    else a ≠ ',' || c = ','

/-- Whether `c` may stand behind `a`, with `n` brackets open between them. -/
def joint (n : Nat) (a : Option Char) (c : Char) : Bool :=
  isListing c && if n = 0 then c ≠ '\r' else a.any (follows · c)

/-- Whether all neighbours of a text agree that stands behind `a`, with `n` brackets open. -/
def isLaid : Nat → Option Char → Text → Bool
  | _, _, [] => true
  | n, a, c :: t => joint n a c && isLaid (deeper n c) (some c) t

variable {n : Nat} {a : Option Char} {c : Char} {s t : Text}

theorem isLaid_cons : isLaid n a (c :: t) = true ↔
    joint n a c = true ∧ isLaid (deeper n c) (some c) t = true := Bool.and_eq_true_iff

theorem isLaid_append : isLaid n a (s ++ t) = true ↔
    isLaid n a s = true ∧ isLaid (depth n s) (s.getLast?.or a) t = true := by
  induction s generalizing n a with
  | nil => simp [isLaid, depth]
  | cons c s ih =>
    rw [List.cons_append, isLaid_cons, isLaid_cons, ih, and_assoc, List.getLast?_cons]
    cases s.getLast? <;> rfl

theorem deeper_of_not_mem (h : c ∉ ['(', '[', ')', ']']) (n : Nat) : deeper n c = n := by
  simp only [List.mem_cons, List.not_mem_nil, or_false, not_or] at h
  simp [deeper, h]

/-- No blank is a bracket. -/
theorem not_mem_of_blank (h : isBlank c = true) : c ∉ ['(', '[', ')', ']'] := by
  have hno : ∀ m ∈ ['(', '[', ')', ']'], isBlank m = false := by decide
  intro hmem
  rw [hno c hmem] at h
  cases h

theorem depth_append (n : Nat) (s t : Text) : depth n (s ++ t) = depth (depth n s) t :=
  List.foldl_append

theorem depth_of_balanced (h : Balanced t) (n : Nat) : depth n t = n := by
  induction h generalizing n with
  | nil => rfl
  | @plain c t hopen hclose _ ih =>
    have hc : c ∉ ['(', '[', ')', ']'] := fun hmem => by
      have hbrackets : ∀ m ∈ ['(', '[', ')', ']'], isBracket m = true := by decide
      have hbracket := hbrackets c hmem
      simp [isBracket, hopen, hclose] at hbracket
    exact (ih _).trans (deeper_of_not_mem hc n)
  | @nest o c s t hpair _ _ ihs iht =>
    have hpaired : deeper (deeper n o) c = n := by
      unfold closerOf? at hpair
      split_ifs at hpair with hparen hbracket hbrace
      all_goals cases hpair
      · rw [hparen]
        rfl
      · rw [hbracket]
        rfl
      · rw [hbrace]
        rfl
    have hinner : depth n (o :: s) = deeper n o := ihs _
    rw [depth_append, hinner]
    exact (iht _).trans hpaired

theorem isListing_of_isLaid (h : isLaid n a t = true) : ∀ c ∈ t, isListing c = true := by
  induction t generalizing n a with
  | nil => exact fun c hc => nomatch hc
  | cons c t ih =>
    obtain ⟨hc, ht⟩ := isLaid_cons.1 h
    exact List.forall_mem_cons.2 ⟨(Bool.and_eq_true_iff.1 hc).1, ih ht⟩

theorem exists_of_joint (hn : n ≠ 0) (h : joint n a c = true) :
    ∃ b, a = some b ∧ follows b c = true := by
  have hb := (Bool.and_eq_true_iff.1 h).2
  rw [if_neg hn] at hb
  exact (Option.any_eq_true ..).1 hb

end Text

namespace Draft

open Text (deeper depth follows isLaid isListing joint)

variable {q c : Char} {d d' e : Draft} {rest rest' t : Text}

/-- Only lists in parentheses and brackets are open. -/
def InLists (d : Draft) : Prop := ∀ x ∈ d.frames, x.1 = .paren ∨ x.1 = .bracket

theorem InLists.joins_iff (h : d.InLists) : d.joins = true ↔ d.frames ≠ [] := by
  rw [joins, top?]
  cases hframes : d.frames with
  | nil => simp
  | cons x fs =>
    rcases h x (by rw [hframes]; exact List.mem_cons_self) with hx | hx
    · simp [hx, Frame.joins]
    · simp [hx, Frame.joins]

theorem joins_of_statement (h : d.frames = []) : d.joins = false := by simp [joins, top?, h]

/-- A step that reads a text of lists. -/
inductive ListStep (d : Draft) : Char → Text → Draft → Text → Prop where
  | gap {c : Char} {rest : Text} : isGap c = true →
    ListStep d c rest (d.gap (c :: rest.takeWhile isGap) (rest.dropWhile isGap))
      (rest.dropWhile isGap)
  | opened {f : Frame} {rest : Text} : f = .paren ∨ f = .bracket →
    ListStep d f.opener rest (d.openFrame f) rest
  | closed {f : Frame} {n : Nat} {fs : List (Frame × Nat)} {rest : Text} :
    f = .paren ∨ f = .bracket → d.frames = (f, n) :: fs →
      ListStep d f.closer rest (d.closeFrame f fs) rest
  | comma {rest : Text} : ListStep d ',' rest d.comma rest
  | plain {c : Char} {rest : Text} : isGap c = false → c ∉ tokenMarks →
    ListStep d c rest (d.token [c]) rest

theorem parenFrame_of_listing (h : ∀ x ∈ rest, isListing x = true) : parenFrame rest = .paren := by
  have htag : (rest.dropWhile Text.isBlank).head? ≠ some '<' := fun hhead =>
    absurd (h '<' ((List.dropWhile_suffix _).subset (List.mem_of_mem_head? hhead))) (by decide)
  rw [parenFrame, if_neg htag]

theorem listStep_cases (hd : d.InLists) (ht : ∀ x ∈ c :: rest, isListing x = true)
    (h : d.step q c rest = .ok (d', rest')) : ListStep d c rest d' rest' := by
  obtain ⟨hc, hrest⟩ := List.forall_mem_cons.1 ht
  by_cases hparen : c = '('
  · subst hparen
    have hstep : d.step q '(' rest = .ok (d.openFrame .paren, rest) := by
      rw [← parenFrame_of_listing hrest]
      rfl
    rw [hstep] at h
    cases h
    exact .opened (f := .paren) (.inl rfl)
  have hstep := step_cases h
  generalize d.regexBreaks c rest = k at hstep
  cases hstep with
  | gap hgap => exact .gap hgap
  | @opened f _ hf =>
    cases f with
    | bracket => exact .opened (.inr rfl)
    | paren => exact absurd rfl hparen
    | markup => exact absurd rfl hparen
    | _ => cases hc
  | @closed f n fs _ _ hframes =>
    exact .closed (hd (f, n) (by rw [hframes]; exact List.mem_cons_self)) hframes
  | comma => exact .comma
  | plain hgap hmark => exact .plain hgap hmark
  | quote hquote => rcases hquote with rfl | rfl <;> cases hc
  | string hquote => rcases hquote with rfl | rfl <;> cases hc
  | _ => cases hc

/-- In lists, a blank is due only behind a comma. -/
structure Ready (d : Draft) : Prop where
  lists : d.InLists
  due : d.pad = true → d.frames ≠ [] ∧ d.back.head? = some ','

/-- What a step writes that changes nothing: the text it has read. -/
structure Echoes (d : Draft) (s : Text) (d' : Draft) : Prop where
  back : d'.back = s.reverse ++ d.back
  ends : d'.ends = List.replicate (s.count '\n') .statement ++ d.ends
  frames : d'.frames.length = depth d.frames.length s
  ready : d'.Ready

theorem Echoes.trans {s s' : Text} (h : Echoes d s d') (h' : Echoes d' s' e) :
    Echoes d (s ++ s') e where
  back := by rw [h'.back, h.back, List.reverse_append, List.append_assoc]
  ends := by
    rw [h'.ends, h.ends, List.count_append, Nat.add_comm, List.replicate_add, List.append_assoc]
  frames := by rw [h'.frames, h.frames, Text.depth_append]
  ready := h'.ready

theorem Ready.pad_of_statement (hd : d.Ready) (hframes : d.frames = []) : d.pad = false := by
  by_contra hpad
  exact (hd.due (by simpa using hpad)).1 hframes

/-- Nothing is due ahead of a character that is neither a blank nor a comma. -/
theorem settle_of_joint (hd : d.Ready) (hc : joint d.frames.length d.back.head? c = true)
    (hspace : c ≠ ' ') (hcomma : c ≠ ',') : d.pad = false ∧ d.settle = d := by
  have hpad : d.pad = false := by
    by_contra hpad
    obtain ⟨hne, hhead⟩ := hd.due (by simpa using hpad)
    rw [hhead] at hc
    simp [joint, hne, follows, hspace, hcomma] at hc
  exact ⟨hpad, by simp [settle, hpad]⟩

theorem endList_of_head {f : Frame} (hf : f = .paren ∨ f = .bracket)
    (h : ∀ a ∈ d.back.head?, (a ≠ ' ' ∧ a ≠ '\t') ∧ a ≠ ',') : d.endList f = d := by
  have hcomma : d.endsWith [','] = false := by
    rw [endsWith, Option.any_eq_false]
    intro a ha
    simpa using (h a ha).2
  have hlist : f ≠ .list := by rcases hf with rfl | rfl <;> decide
  simp [endList, retract_of_head fun a ha => (h a ha).1, hcomma, hlist]

/-- There is nothing to take back ahead of a comma or a closing bracket. -/
theorem head_of_joint (hne : d.frames ≠ []) (hc : joint d.frames.length d.back.head? c = true)
    (hmark : c ∈ [')', ']', ',']) :
    ∀ a ∈ d.back.head?, (a ≠ ' ' ∧ a ≠ '\t') ∧ (c ≠ ',' → a ≠ ',') := by
  obtain ⟨a, ha, hfollows⟩ := Text.exists_of_joint (mt List.length_eq_zero_iff.1 hne) hc
  intro b hb
  obtain rfl : a = b := Option.some.inj (ha.symm.trans hb)
  have hspace : c ≠ ' ' := by
    rintro rfl
    exact absurd hmark (by decide)
  simp only [List.mem_cons, List.not_mem_nil, or_false] at hmark
  refine ⟨not_or.1 fun hblank => ?_, ?_⟩
  · simp [follows, hspace, hblank, hmark] at hfollows
  · rintro hcomma rfl
    simp [follows, hspace, hcomma] at hfollows

theorem deeper_of_isGap (h : isGap c = true) (n : Nat) : deeper n c = n :=
  Text.deeper_of_not_mem (Text.not_mem_of_blank (isBlank_of_isGap h)) n

/-- No carriage return stands in a run of blanks between statements. -/
theorem ne_return_of_isLaid {run : Text} {a : Option Char} (hrun : ∀ c ∈ run, isGap c = true)
    (h : isLaid 0 a run = true) : ∀ c ∈ run, c ≠ '\r' := by
  induction run generalizing a with
  | nil => exact fun c hc => nomatch hc
  | cons c run ih =>
    obtain ⟨hgap, hrun⟩ := List.forall_mem_cons.1 hrun
    obtain ⟨hc, hlaid⟩ := Text.isLaid_cons.1 h
    rw [deeper_of_isGap hgap] at hlaid
    refine List.forall_mem_cons.2 ⟨?_, ih hrun hlaid⟩
    rintro rfl
    cases hc

theorem count_break_of_ne (h : c ≠ '\n') : [c].count '\n' = 0 := by
  rw [List.count_singleton, if_neg (by simpa using h)]

/-- Between statements a run of blanks is written as it is, but for carriage returns. -/
theorem echoes_run {run : Text} (hd : d.Ready) (hframes : d.frames = [])
    (hrun : ∀ c ∈ run, isGap c = true ∧ c ≠ '\r') :
    Echoes d run (run.foldl (fun d c =>
      if c = '\n' then d.breakLine d.lineEnd else if c = '\r' then d else d.write [c]) d) := by
  induction run generalizing d with
  | nil => exact ⟨rfl, rfl, rfl, hd⟩
  | cons c run ih =>
    obtain ⟨⟨hgap, hreturn⟩, hrun⟩ := List.forall_mem_cons.1 hrun
    have hpad := hd.pad_of_statement hframes
    have hdeeper : d.frames.length = depth d.frames.length [c] := (deeper_of_isGap hgap _).symm
    rw [List.foldl_cons]
    by_cases hbreak : c = '\n'
    · have hend : d.lineEnd = .statement := by simp [lineEnd, top?, hframes]
      have hone : Echoes d [c] (d.breakLine d.lineEnd) := by
        refine ⟨by rw [hbreak]; rfl, by rw [hbreak, hend]; rfl, hdeeper, hd.lists, fun h => ?_⟩
        rw [breakLine, hpad] at h
        cases h
      rw [if_pos hbreak]
      exact hone.trans (ih hone.ready hframes hrun)
    · have hone : Echoes d [c] (d.write [c]) := by
        refine ⟨rfl, by rw [count_break_of_ne hbreak]; rfl, hdeeper, hd.lists, fun h => ?_⟩
        rw [write, hpad] at h
        cases h
      rw [if_neg hbreak, if_neg hreturn]
      exact hone.trans (ih hone.ready hframes hrun)

/-- In a list a blank stands by itself between two characters, and neither a comma nor a closing
bracket follows it. -/
theorem blank_of_isLaid (hne : d.frames ≠ []) (hgap : isGap c = true)
    (hlaid : isLaid d.frames.length d.back.head? (c :: rest) = true)
    (hdepth : depth d.frames.length (c :: rest) = 0) :
    c = ' ' ∧ d.endsWith ['(', '['] = false ∧ d.endsWith [' '] = false ∧
      ∃ b r, rest = b :: r ∧ isGap b = false ∧ [')', ']', '}', ','].contains b = false := by
  have hn := mt List.length_eq_zero_iff.1 hne
  obtain ⟨hc, hrest⟩ := Text.isLaid_cons.1 hlaid
  obtain ⟨a, ha, hfollows⟩ := Text.exists_of_joint hn hc
  obtain rfl : c = ' ' := by
    simp only [isGap, Bool.or_eq_true, beq_iff_eq] at hgap
    rcases hgap with ((rfl | rfl) | rfl) | rfl
    · rfl
    all_goals cases hfollows
  have hends (m : Text) (hm : ∀ b ∈ m, follows b ' ' = false) : d.endsWith m = false := by
    rw [endsWith, ha, Option.any_some, ← Bool.not_eq_true, List.contains_iff_mem]
    intro hmem
    rw [hm a hmem] at hfollows
    cases hfollows
  rw [deeper_of_isGap hgap] at hrest
  refine ⟨rfl, hends _ (by decide), hends _ (by decide), ?_⟩
  cases rest with
  | nil => exact absurd ((deeper_of_isGap hgap _).symm.trans hdepth) hn
  | cons b r =>
    have hb := (Text.isLaid_cons.1 hrest).1
    obtain ⟨x, hx, hblank⟩ := Text.exists_of_joint hn hb
    cases hx
    have hno : ∀ m ∈ [' ', '\t', '\r', '\n', ')', ']', ','], follows ' ' m = false := by decide
    have hnot : b ∉ [' ', '\t', '\r', '\n', ')', ']', ','] := fun hmem => by
      rw [hno b hmem] at hblank
      cases hblank
    have hbrace : b ≠ '}' := by
      rintro rfl
      cases hb
    simp only [List.mem_cons, List.not_mem_nil, or_false, not_or] at hnot
    exact ⟨b, r, rfl, by simp [isGap, hnot], by simp [hnot, hbrace]⟩

theorem ListStep.suffix (h : ListStep d c rest d' rest') : rest' <:+ c :: rest := by
  cases h with
  | gap hgap => exact (List.dropWhile_suffix isGap).trans (List.suffix_cons c rest)
  | _ => exact List.suffix_cons _ _

/-- Between statements all blanks are kept. -/
theorem Ready.echoes_blanks (hd : d.Ready) (hframes : d.frames = []) (hgap : isGap c = true)
    (hlaid : isLaid 0 d.back.head? (c :: rest) = true) :
    Echoes d (c :: rest.takeWhile isGap)
      (d.gap (c :: rest.takeWhile isGap) (rest.dropWhile isGap)) := by
  generalize hrest : c :: rest.takeWhile isGap = run
  have hrun : ∀ x ∈ run, isGap x = true := by
    rw [← hrest]
    exact List.forall_mem_cons.2 ⟨hgap, fun x hx => List.mem_takeWhile_imp hx⟩
  have hsplit : c :: rest = run ++ rest.dropWhile isGap := by
    rw [← hrest, List.cons_append, List.takeWhile_append_dropWhile]
  rw [hsplit] at hlaid
  have hreturn := ne_return_of_isLaid hrun (Text.isLaid_append.1 hlaid).1
  have hjoins : (d.advance run).joins = false := joins_of_statement hframes
  have hechoes := echoes_run (d := d.advance run) ⟨hd.lists, hd.due⟩ hframes
    fun x hx => ⟨hrun x hx, hreturn x hx⟩
  rw [Draft.gap, hjoins, if_neg Bool.false_ne_true]
  exact ⟨hechoes.back, hechoes.ends, hechoes.frames, hechoes.ready⟩

/-- In a list one blank is kept. -/
theorem Ready.echoes_blank (hd : d.Ready) (hne : d.frames ≠ []) (hgap : isGap c = true)
    (hlaid : isLaid d.frames.length d.back.head? (c :: rest) = true)
    (hdepth : depth d.frames.length (c :: rest) = 0) :
    Echoes d (c :: rest.takeWhile isGap)
      (d.gap (c :: rest.takeWhile isGap) (rest.dropWhile isGap)) := by
  obtain ⟨rfl, hopen, hblank, b, r, rfl, hb, hmark⟩ := blank_of_isLaid hne hgap hlaid hdepth
  have hrun : (b :: r).takeWhile isGap = [] := List.takeWhile_cons_of_neg (by simp [hb])
  have hleft : (b :: r).dropWhile isGap = b :: r := List.dropWhile_cons_of_neg (by simp [hb])
  have hjoins : (d.advance [' ']).joins = true :=
    (InLists.joins_iff (d := d.advance [' ']) hd.lists).2 hne
  have hspace : (d.advance [' ']).space = (d.advance [' ']).write [' '] :=
    if_neg (by rw [endsWith] at hblank ⊢; exact Bool.eq_false_iff.1 hblank)
  have hwrite : d.gap [' '] (b :: r) = { (d.advance [' ']).write [' '] with pad := false } := by
    have hkept : ((d.advance [' ']).endsWith ['(', '['] ||
        (b :: r).head?.all [')', ']', '}', ','].contains) = false :=
      Bool.or_eq_false_iff.2 ⟨hopen, hmark⟩
    rw [Draft.gap, hjoins, if_pos rfl, hkept, if_neg Bool.false_ne_true, hspace]
  rw [hrun, hleft, hwrite]
  exact ⟨rfl, rfl, rfl, hd.lists, fun h => by cases h⟩

theorem Ready.echoes_openFrame {f : Frame} (hd : d.Ready) (hf : f = .paren ∨ f = .bracket)
    (hc : joint d.frames.length d.back.head? f.opener = true) :
    Echoes d [f.opener] (d.openFrame f) := by
  have hopener : f.opener ≠ ' ' ∧ f.opener ≠ ',' ∧ f.opener ≠ '\n' := by
    rcases hf with rfl | rfl <;> decide
  obtain ⟨hpad, hsettle⟩ := settle_of_joint hd hc hopener.1 hopener.2.1
  refine ⟨?_, ?_, ?_, List.forall_mem_cons.2 ⟨hf, hd.lists⟩, ?_⟩
  · rw [openFrame, token, hsettle]
    rfl
  · rw [openFrame, token, hsettle, count_break_of_ne hopener.2.2]
    rfl
  · rcases hf with rfl | rfl <;> rfl
  · rcases hf with rfl | rfl <;> exact fun h => by cases h

theorem Ready.echoes_closeFrame {f : Frame} {n : Nat} {fs : List (Frame × Nat)} (hd : d.Ready)
    (hf : f = .paren ∨ f = .bracket) (hframes : d.frames = (f, n) :: fs)
    (hc : joint d.frames.length d.back.head? f.closer = true) :
    Echoes d [f.closer] (d.closeFrame f fs) := by
  have hcloser : f.closer ∈ [')', ']', ','] ∧ f.closer ≠ ',' ∧ f.closer ≠ '\n' := by
    rcases hf with rfl | rfl <;> decide
  have hne : d.frames ≠ [] := by
    rw [hframes]
    exact List.cons_ne_nil _ _
  have hhead := head_of_joint hne hc hcloser.1
  have hend : d.closeFrame f fs =
      ({ d with frames := fs, pad := false } : Draft).write [f.closer] := by
    have hjoins : f.joins = true := by rcases hf with rfl | rfl <;> rfl
    rw [closeFrame, if_pos hjoins, endList_of_head hf]
    exact fun a ha => ⟨(hhead a ha).1, (hhead a ha).2 hcloser.2.1⟩
  rw [hend]
  refine ⟨rfl, ?_, ?_, fun x hx => hd.lists x ?_, fun h => by cases h⟩
  · rw [count_break_of_ne hcloser.2.2]
    rfl
  · rw [hframes]
    rcases hf with rfl | rfl <;> rfl
  · rw [hframes]
    exact List.mem_cons_of_mem _ hx

theorem Ready.echoes_comma (hd : d.Ready)
    (hc : joint d.frames.length d.back.head? ',' = true) : Echoes d [','] d.comma := by
  by_cases hne : d.frames = []
  · have hpad := hd.pad_of_statement hne
    rw [Draft.comma, joins_of_statement hne, if_neg Bool.false_ne_true, token, settle, hpad,
      if_neg Bool.false_ne_true]
    exact ⟨rfl, rfl, rfl, hd.lists, fun h => by rw [write, hpad] at h; cases h⟩
  · have hretract := retract_of_head fun a ha => (head_of_joint hne hc (by decide) a ha).1
    rw [Draft.comma, hd.lists.joins_iff.2 hne, if_pos rfl, hretract]
    exact ⟨rfl, rfl, rfl, hd.lists, fun _ => ⟨hne, rfl⟩⟩

theorem Ready.echoes_token (hd : d.Ready) (hgap : isGap c = false) (hmark : c ∉ tokenMarks)
    (hc : joint d.frames.length d.back.head? c = true) : Echoes d [c] (d.token [c]) := by
  have hspace : c ≠ ' ' := by
    rintro rfl
    cases hgap
  have hbreak : c ≠ '\n' := by
    rintro rfl
    cases hgap
  simp only [tokenMarks, List.mem_cons, List.not_mem_nil, or_false, not_or] at hmark
  obtain ⟨hpad, hsettle⟩ := settle_of_joint hd hc hspace (by simp [hmark])
  rw [token, hsettle]
  refine ⟨rfl, ?_, ?_, hd.lists, fun h => ?_⟩
  · rw [count_break_of_ne hbreak]
    rfl
  · simp [depth, deeper, hmark, write]
  · rw [write, hpad] at h
    cases h

theorem ListStep.echoes (h : ListStep d c rest d' rest') (hd : d.Ready)
    (hlaid : isLaid d.frames.length d.back.head? (c :: rest) = true)
    (hdepth : depth d.frames.length (c :: rest) = 0) :
    ∃ s, c :: rest = s ++ rest' ∧ Echoes d s d' := by
  have hc := (Text.isLaid_cons.1 hlaid).1
  cases h with
  | gap hgap =>
    refine ⟨c :: rest.takeWhile isGap, ?_, ?_⟩
    · rw [List.cons_append, List.takeWhile_append_dropWhile]
    · by_cases hframes : d.frames = []
      · rw [hframes] at hlaid
        exact hd.echoes_blanks hframes hgap hlaid
      · exact hd.echoes_blank hframes hgap hlaid hdepth
  | opened hf => exact ⟨[_], rfl, hd.echoes_openFrame hf hc⟩
  | closed hf hframes => exact ⟨[_], rfl, hd.echoes_closeFrame hf hframes hc⟩
  | comma => exact ⟨[_], rfl, hd.echoes_comma hc⟩
  | plain hgap hmark => exact ⟨[_], rfl, hd.echoes_token hgap hmark hc⟩

/-- A text whose neighbours agree is written as it is read. -/
theorem read_laid (hd : d.Ready) (hlaid : isLaid d.frames.length d.back.head? t = true)
    (hdepth : depth d.frames.length t = 0) (h : read q d t = .ok e) : Echoes d t e := by
  induction h using read_induction with
  | done => exact ⟨rfl, rfl, rfl, hd⟩
  | @step d c rest d' rest' hstep hread ih =>
    have hstep' := listStep_cases hd.lists (Text.isListing_of_isLaid hlaid) hstep
    obtain ⟨s, hs, hechoes⟩ := hstep'.echoes hd hlaid hdepth
    rw [hs] at hlaid hdepth ⊢
    rw [Text.depth_append, ← hechoes.frames] at hdepth
    refine hechoes.trans (ih hechoes.ready ?_ hdepth)
    have hlast := (Text.isLaid_append.1 hlaid).2
    rwa [hechoes.back, hechoes.frames, List.head?_append, List.head?_reverse]

theorem noLiteral_of_listing (h : ∀ c ∈ t, isListing c = true) : t.NoLiteral := by
  intro c hc
  have hlisting := h c hc
  refine ⟨?_, ?_, ?_, ?_⟩
  all_goals
    rintro rfl
    cases hlisting

/-- A balanced text whose neighbours agree is its own draft, and each of its lines ends a
statement. -/
theorem exists_collapse_of_isLaid (q : Char) (hlaid : isLaid 0 none t = true)
    (hbalanced : t.Balanced) : ∃ d, collapse q t = .ok d ∧ d.text = t ∧
      d.lineEnds = List.replicate (t.count '\n' + 1) .statement := by
  have hread := collapse_pairs (q := q) (noLiteral_of_listing (Text.isListing_of_isLaid hlaid))
  rw [Text.pairs_of_balanced hbalanced] at hread
  cases hd : collapse q t with
  | error f =>
    rw [hd] at hread
    cases hread
  | ok d =>
    have hechoes := read_laid (d := {}) ⟨fun _ hx => (nomatch hx), fun h => (nomatch h)⟩ hlaid
      (Text.depth_of_balanced hbalanced 0) (read_of_collapse hd)
    refine ⟨d, rfl, ?_, ?_⟩
    · rw [text, hechoes.back, List.reverse_append, List.reverse_reverse]
      rfl
    · rw [lineEnds, hechoes.ends, List.append_nil, ← List.replicate_succ, List.reverse_replicate]

end Draft

end ProjectSetup
