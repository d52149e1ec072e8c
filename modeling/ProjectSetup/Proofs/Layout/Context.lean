import Mathlib.Data.List.Basic
import Mathlib.Data.List.TakeWhile
import ProjectSetup.Proofs.Layout.Reading
import ProjectSetup.Proofs.Text.Blank

/-!
# What reading looks back at

Between statements, reading a text depends on the lines before it only through the last character
of the line before, and no more once anything but blanks stands below that line. What was written
stays as it is: blanks and commas are taken back up to the line break, and the words and marks ahead
of a slash or a brace are looked for no further than to the first character that is no blank.
-/
namespace ProjectSetup

namespace Text

/-- Whether a text begins with a slash that opens no comment, behind blanks. -/
def opensSlash (t : Text) : Bool :=
  t.trimStart.head? == some '/' && !t.trimStart.tail.head?.any ['/', '*'].contains

end Text

namespace Draft

variable {m m₁ m₂ : Char} {b b₁ b₂ d : Draft}

/-- The draft `d` with the lines of `b` above it. -/
def on (d b : Draft) : Draft where
  back := d.back ++ b.back
  ends := d.ends ++ b.ends
  frames := d.frames.map fun (f, n) => (f, n + b.line)
  line := d.line + b.line
  pad := d.pad

theorem on_injective (b : Draft) : Function.Injective (on · b) := by
  intro d e h
  simp only [on, mk.injEq] at h
  obtain ⟨hback, hends, hframes, hline, hpad⟩ := h
  have hshift : Function.Injective fun x : Frame × Nat => (x.1, x.2 + b.line) := by
    rintro ⟨f, n⟩ ⟨g, k⟩ h
    obtain ⟨hf, hn⟩ := Prod.mk.inj h
    exact Prod.ext hf (Nat.add_right_cancel hn)
  cases d
  cases e
  simp only [mk.injEq]
  exact ⟨List.append_cancel_right hback, List.append_cancel_right hends,
    List.map_injective_iff.2 hshift hframes, Nat.add_right_cancel hline, hpad⟩

/-- The draft stands at the beginning of a line, and the line before ends with `m`, which closes a
string or a statement. -/
structure Follows (m : Char) (b : Draft) : Prop where
  above : ∃ x, b.back = '\n' :: m :: x
  mark : m = '\'' ∨ m = '"' ∨ m = ';'

/-- The draft stands at the beginning of a line. -/
def Begins (b : Draft) : Prop := ∀ c ∈ b.back.head?, c = '\n'

theorem Follows.begins (hb : b.Follows m) : b.Begins := by
  obtain ⟨x, hx⟩ := hb.above
  intro c hc
  rw [hx] at hc
  cases hc
  rfl

theorem Begins.cases (hb : b.Begins) : b.back = [] ∨ ∃ x, b.back = '\n' :: x := by
  cases hback : b.back with
  | nil => exact .inl rfl
  | cons c x => exact .inr ⟨x, by rw [hb c (by rw [hback]; rfl)]⟩

@[simp] theorem top?_on : (d.on b).top? = d.top? := by
  cases hd : d.frames with
  | nil => simp [top?, on, hd]
  | cons f frames => simp [top?, on, hd]

@[simp] theorem joins_on : (d.on b).joins = d.joins := by
  rw [joins, joins, top?_on]

@[simp] theorem inMarkup_on : (d.on b).inMarkup = d.inMarkup := by
  rw [inMarkup, inMarkup, top?_on]

@[simp] theorem lineEnd_on : (d.on b).lineEnd = d.lineEnd := by
  rw [lineEnd, lineEnd, top?_on]

@[simp] theorem write_on (t : Text) : (d.on b).write t = (d.write t).on b := by
  simp [write, on]

@[simp] theorem breakLine_on (e : LineEnd) : (d.on b).breakLine e = (d.breakLine e).on b := rfl

@[simp] theorem copy_on (t : Text) : (d.on b).copy t = (d.copy t).on b := by
  induction t generalizing d with
  | nil => rfl
  | cons c t ih =>
    rw [copy, copy]
    split
    · rw [breakLine_on, ih]
    · rw [write_on, ih]

@[simp] theorem advance_on (t : Text) : (d.on b).advance t = (d.advance t).on b := by
  simp [advance, on, Nat.add_right_comm]

theorem endsWith_on (hb : b.Begins) {cs : Text} (hcs : '\n' ∉ cs) :
    (d.on b).endsWith cs = d.endsWith cs := by
  cases hd : d.back with
  | nil =>
    rcases hb.cases with hx | ⟨x, hx⟩
    · simp [endsWith, on, hd, hx]
    · simp [endsWith, on, hd, hx, hcs]
  | cons c back => simp [endsWith, on, hd]

theorem space_on (hb : b.Begins) : (d.on b).space = d.space.on b := by
  rw [space, space, endsWith_on hb (by decide)]
  split
  · rfl
  · exact write_on [' ']

theorem settle_on (hb : b.Begins) : (d.on b).settle = d.settle.on b := by
  rw [settle, settle, space_on hb]
  change (if d.pad = true then _ else _) = _
  split
  · rfl
  · rfl

theorem token_on (hb : b.Begins) (t : Text) : (d.on b).token t = (d.token t).on b := by
  rw [token, token, settle_on hb, write_on]

theorem retract_on (hb : b.Begins) : (d.on b).retract = d.retract.on b := by
  have hdrop : (d.back ++ b.back).dropWhile (fun c => c == ' ' || c == '\t') =
      d.back.dropWhile (fun c => c == ' ' || c == '\t') ++ b.back := by
    rw [List.dropWhile_append]
    split
    · next h =>
      rw [List.isEmpty_iff.1 h]
      rcases hb.cases with hx | ⟨x, hx⟩
      · rw [hx]
        rfl
      · rw [hx]
        rfl
    · rfl
  simp only [retract, on, hdrop]

theorem gap_on (hb : b.Begins) (run rest : Text) :
    (d.on b).gap run rest = (d.gap run rest).on b := by
  have hlines (run : Text) (d : Draft) :
      run.foldl (fun d c => if c = '\n' then d.breakLine d.lineEnd else if c = '\r' then d
        else d.write [c]) (d.on b) =
      (run.foldl (fun d c => if c = '\n' then d.breakLine d.lineEnd else if c = '\r' then d
        else d.write [c]) d).on b := by
    induction run generalizing d with
    | nil => rfl
    | cons c run ih =>
      rw [List.foldl_cons, List.foldl_cons, ← ih]
      congr 1
      split
      · rw [lineEnd_on, breakLine_on]
      · split
        · rfl
        · rw [write_on]
  unfold gap
  simp only [advance_on, joins_on, endsWith_on hb (by decide : '\n' ∉ ['(', '[']), space_on hb, hlines]
  split
  · split
    · rfl
    · rfl
  · rfl

theorem openFrame_on (hb : b.Begins) (f : Frame) :
    (d.on b).openFrame f = (d.openFrame f).on b := by
  rw [openFrame, openFrame, token_on hb]
  rfl

theorem endList_on (hb : b.Begins) (f : Frame) : (d.on b).endList f = (d.endList f).on b := by
  have hcomma (e : Draft) :
      (if (e.on b).endsWith [','] then { e.on b with back := (e.on b).back.tail }.retract else e.on b) =
        (if e.endsWith [','] then { e with back := e.back.tail }.retract else e).on b := by
    rw [endsWith_on hb (by decide)]
    split
    · next h =>
      have htail : (e.on b).back.tail = e.back.tail ++ b.back := by
        cases he : e.back with
        | nil =>
          rw [endsWith, he] at h
          cases h
        | cons c back => simp [on, he]
      rw [htail]
      exact retract_on (d := { e with back := e.back.tail }) hb
    · rfl
  unfold endList
  simp only [retract_on hb, hcomma, endsWith_on hb (by decide : '\n' ∉ ['{']), write_on]
  exact (apply_ite (on · b) _ _ _).symm

theorem comma_on (hb : b.Begins) : (d.on b).comma = d.comma.on b := by
  rw [comma, comma, joins_on]
  split
  · rw [retract_on hb, write_on]
    rfl
  · exact token_on hb [',']

theorem Follows.not_blank (hb : b.Follows m) : Text.isBlank m = false := by
  rcases hb.mark with rfl | rfl | rfl
  · decide
  · decide
  · decide

/-- Where nothing but blanks has been written, the last character of the line before is seen. -/
theorem before_on_of_blank (hb : b.Follows m) (h : d.back.blank = true) :
    (d.on b).before = b.back.tail := by
  obtain ⟨x, hx⟩ := hb.above
  have hn : Text.isBlank '\n' = true := by decide
  rw [before, on, hx, List.dropWhile_append_of_pos (List.all_eq_true.1 h),
    List.dropWhile_cons_of_pos hn, List.dropWhile_cons_of_neg (by simp [hb.not_blank])]
  rfl

theorem before_on (h : d.back.blank = false) : (d.on b).before = d.before ++ b.back := by
  rw [before, before, on, List.dropWhile_append, if_neg]
  rw [List.isEmpty_iff]
  intro hnil
  rw [Text.trimStart_eq_nil.1 hnil] at h
  cases h

theorem before_ne_nil (h : d.back.blank = false) : d.before ≠ [] := by
  intro hnil
  rw [Text.trimStart_eq_nil.1 hnil] at h
  cases h

theorem after?_append_newline {start : Text} (h : '\n' ∉ start) (z y : Text) :
    Text.after? start (z ++ '\n' :: y) = (Text.after? start z).map (· ++ '\n' :: y) := by
  induction start generalizing z with
  | nil => rfl
  | cons a start ih =>
    rw [List.mem_cons, not_or] at h
    cases z with
    | nil =>
      change (if a = '\n' then Text.after? start y else none) = none
      exact if_neg (Ne.symm h.1)
    | cons c z =>
      rw [List.cons_append, Text.after?, Text.after?]
      split
      · exact ih h.2 z
      · rfl

theorem any_endsWithWord_append_newline {words : List String}
    (h : ∀ word ∈ words, '\n' ∉ word.toList) (z y : Text) :
    words.any (endsWithWord (z ++ '\n' :: y)) = words.any (endsWithWord z) := by
  have hword (word : String) (hw : word ∈ words) :
      endsWithWord (z ++ '\n' :: y) word = endsWithWord z word := by
    rw [endsWithWord, endsWithWord, after?_append_newline (by simpa using h word hw)]
    cases Text.after? word.toList.reverse z with
    | none => rfl
    | some r =>
      cases r with
      | nil => exact congrArg not (by decide : (Text.isAlphanumeric '\n' || _) = false)
      | cons c r => rfl
  rw [Bool.eq_iff_iff, List.any_eq_true, List.any_eq_true]
  exact exists_congr fun word => and_congr_right fun hw => by rw [hword word hw]

theorem any_endsWithWord_cons {words : List String}
    (h : ∀ word ∈ words, ∃ a, word.toList.getLast? = some a ∧ a ≠ m) (x : Text) :
    words.any (endsWithWord (m :: x)) = false := by
  rw [List.any_eq_false]
  intro word hw
  obtain ⟨a, hlast, ha⟩ := h word hw
  have hrev : word.toList.reverse = a :: word.toList.dropLast.reverse := by
    conv_lhs => rw [← List.dropLast_append_getLast? a hlast]
    simp
  rw [endsWithWord, hrev, Text.after?, if_neg ha]
  exact Bool.false_ne_true

/-- Words end with letters. -/
theorem Follows.no_word (hb : b.Follows m) (x : Text) :
    ["return", "typeof", "case"].any (endsWithWord (m :: x)) = false ∧
      listWords.any (endsWithWord (m :: x)) = false := by
  have hlast : ∀ word ∈ ["return", "typeof", "case"] ++ listWords,
      ∃ a, word.toList.getLast? = some a ∧ a ≠ m := by
    have hletter : ∀ word ∈ ["return", "typeof", "case"] ++ listWords,
        word.toList.getLast?.any Text.isAlphanumeric = true := by decide
    intro word hw
    obtain ⟨a, ha, hal⟩ := (Option.any_eq_true ..).1 (hletter word hw)
    refine ⟨a, ha, ?_⟩
    rintro rfl
    rcases hb.mark with rfl | rfl | rfl
    · exact absurd hal (by decide)
    · exact absurd hal (by decide)
    · exact absurd hal (by decide)
  exact ⟨any_endsWithWord_cons (fun word hw => hlast word (List.mem_append_left _ hw)) x,
    any_endsWithWord_cons (fun word hw => hlast word (List.mem_append_right _ hw)) x⟩

theorem regexAllowed_on_of_blank (hb : b.Follows m) (h : d.back.blank = true) :
    (d.on b).regexAllowed = (m == ';') := by
  obtain ⟨x, hx⟩ := hb.above
  rw [regexAllowed, before_on_of_blank hb h, hx, List.tail_cons, (hb.no_word x).1]
  rcases hb.mark with rfl | rfl | rfl
  · rfl
  · rfl
  · rfl

theorem regexAllowed_on (hb : b.Begins) (h : d.back.blank = false) :
    (d.on b).regexAllowed = d.regexAllowed := by
  obtain ⟨c, z, hz⟩ := List.exists_cons_of_ne_nil (before_ne_nil h)
  rw [regexAllowed, before_on h, regexAllowed]
  rcases hb.cases with hx | ⟨x, hx⟩
  · rw [hx, List.append_nil]
  · rw [hx, any_endsWithWord_append_newline (by decide), hz]
    rfl

/-- The marks at the ends of the lines before matter to a slash only where nothing but blanks has
been written. -/
theorem regexAllowed_eq (hb₁ : b₁.Begins) (hb₂ : b₂.Begins)
    (h : b₁ = b₂ ∨ d.back.blank = false ∨ ∃ m, b₁.Follows m ∧ b₂.Follows m) :
    (d.on b₁).regexAllowed = (d.on b₂).regexAllowed := by
  rcases h with rfl | h
  · rfl
  cases hblank : d.back.blank with
  | false => rw [regexAllowed_on hb₁ hblank, regexAllowed_on hb₂ hblank]
  | true =>
    obtain ⟨m, hm₁, hm₂⟩ := h.resolve_left (by simp [hblank])
    rw [regexAllowed_on_of_blank hm₁ hblank, regexAllowed_on_of_blank hm₂ hblank]

theorem isLabel_of_getLast? {t : Text} {c : Char} (hlast : t.getLast? = some c)
    (hc : c ≠ ':') (hblank : Text.isBlank c = false) : isLabel t = false := by
  have htrim : t.trimStart.reverse.head? = some c := by
    rw [List.head?_reverse, ← List.dropLast_append_getLast? c hlast, Text.trimStart,
      List.dropWhile_append]
    split
    · rw [List.dropWhile_cons_of_neg (by simp [hblank])]
      rfl
    · exact List.getLast?_concat
  unfold isLabel
  split
  · next h =>
    rw [h] at htrim
    cases htrim
    exact absurd rfl hc
  · rfl

theorem takeWhile_append_newline {p : Char → Bool} (hp : p '\n' = false) (z y : Text) :
    (z ++ '\n' :: y).takeWhile p = z.takeWhile p := by
  have hstop : ('\n' :: y).takeWhile p = [] := List.takeWhile_cons_of_neg (by simp [hp])
  rw [List.takeWhile_append, hstop]
  split
  · next h => rw [List.append_nil, (List.takeWhile_prefix p).eq_of_length h]
  · rfl

theorem opensLabelled_on_of_blank (hb : b.Follows m) (h : d.back.blank = true) :
    (d.on b).opensLabelled = false := by
  obtain ⟨x, hx⟩ := hb.above
  rw [opensLabelled, before_on_of_blank hb h, hx, List.tail_cons, Bool.and_eq_false_iff]
  right
  by_cases hm : m = ';'
  · rw [hm]
    rfl
  · have hquote : m ≠ ':' ∧ m ≠ '\n' ∧ m ≠ '{' ∧ m ≠ '}' := by
      rcases hb.mark with rfl | rfl | rfl <;> decide
    rw [List.takeWhile_cons_of_pos (by simp [hm, hquote])]
    exact isLabel_of_getLast? (by simp) hquote.1 hb.not_blank

theorem opensLabelled_on (hb : b.Begins) (h : d.back.blank = false) :
    (d.on b).opensLabelled = d.opensLabelled := by
  rw [opensLabelled, opensLabelled, before_on h, top?_on]
  rcases hb.cases with hx | ⟨x, hx⟩
  · rw [hx, List.append_nil]
  · rw [hx, takeWhile_append_newline (by decide)]

theorem opensMembers_on_of_blank (hb : b.Follows m) (h : d.back.blank = true) :
    (d.on b).opensMembers = false := by
  obtain ⟨x, hx⟩ := hb.above
  rw [opensMembers, before_on_of_blank hb h, hx, List.tail_cons, (hb.no_word x).2]
  rcases hb.mark with rfl | rfl | rfl
  · simp
  · simp
  · simp

theorem opensMembers_on (hb : b.Begins) (h : d.back.blank = false) :
    (d.on b).opensMembers = d.opensMembers := by
  obtain ⟨c, z, hz⟩ := List.exists_cons_of_ne_nil (before_ne_nil h)
  rw [opensMembers, opensMembers, before_on h, top?_on]
  rcases hb.cases with hx | ⟨x, hx⟩
  · rw [hx, List.append_nil]
  · rw [hx, after?_append_newline (by decide), any_endsWithWord_append_newline (by decide), hz,
      Option.isNone_map]
    rfl

theorem braceFrame_eq (hb₁ : b₁.Begins) (hb₂ : b₂.Begins)
    (h : b₁ = b₂ ∨ d.back.blank = false ∨ ∃ m₁ m₂, b₁.Follows m₁ ∧ b₂.Follows m₂)
    (rest : Text) : (d.on b₁).braceFrame rest = (d.on b₂).braceFrame rest := by
  rcases h with rfl | h
  · rfl
  cases hblank : d.back.blank with
  | false =>
    simp only [braceFrame, inMarkup_on, opensLabelled_on hb₁ hblank, opensLabelled_on hb₂ hblank,
      opensMembers_on hb₁ hblank, opensMembers_on hb₂ hblank]
  | true =>
    obtain ⟨m₁, m₂, hm₁, hm₂⟩ := h.resolve_left (by simp [hblank])
    simp only [braceFrame, inMarkup_on, opensLabelled_on_of_blank hm₁ hblank,
      opensLabelled_on_of_blank hm₂ hblank, opensMembers_on_of_blank hm₁ hblank,
      opensMembers_on_of_blank hm₂ hblank]

@[simp] theorem blank_write (d : Draft) (t : Text) :
    (d.write t).back.blank = (t.blank && d.back.blank) := by
  rw [write, Text.blank_append, Text.blank, List.all_reverse]
  rfl

@[simp] theorem blank_copy (d : Draft) (t : Text) :
    (d.copy t).back.blank = (t.blank && d.back.blank) := by
  induction t generalizing d with
  | nil => rfl
  | cons c t ih =>
    rw [copy]
    split
    · next hc =>
      rw [ih, hc]
      rfl
    · rw [ih, blank_write, Text.blank_cons, Text.blank_cons, Text.blank_nil, Bool.and_true,
        ← Bool.and_assoc, Bool.and_comm (Text.blank t)]

@[simp] theorem blank_space (d : Draft) : d.space.back.blank = d.back.blank := by
  rw [space]
  split
  · rfl
  · exact blank_write d [' ']

@[simp] theorem blank_settle (d : Draft) : d.settle.back.blank = d.back.blank := by
  rw [settle]
  split
  · exact blank_space d
  · rfl

@[simp] theorem blank_token (d : Draft) (t : Text) :
    (d.token t).back.blank = (t.blank && d.back.blank) := by
  rw [token, blank_write, blank_settle]

theorem blank_gap (d : Draft) {run : Text} (hrun : ∀ c ∈ run, isGap c = true) (rest : Text) :
    (d.gap run rest).back.blank = d.back.blank := by
  have hlines (d : Draft) : (run.foldl (fun d c => if c = '\n' then d.breakLine d.lineEnd
      else if c = '\r' then d else d.write [c]) d).back.blank = d.back.blank := by
    induction run generalizing d with
    | nil => rfl
    | cons c run ih =>
      rw [List.foldl_cons, ih (fun x hx => hrun x (List.mem_cons_of_mem c hx))]
      split
      · rfl
      · split
        · rfl
        · simp [isBlank_of_isGap (hrun c List.mem_cons_self)]
  unfold gap
  simp only
  split
  · split
    · rfl
    · exact blank_space (d.advance run)
  · exact hlines (d.advance run)

@[simp] theorem blank_openFrame (d : Draft) (f : Frame) : (d.openFrame f).back.blank = false := by
  have hopener : Text.isBlank f.opener = false := by cases f <;> decide
  change (d.token [f.opener]).back.blank = false
  simp [hopener]

@[simp] theorem blank_comma (d : Draft) : d.comma.back.blank = false := by
  have hcomma : Text.isBlank ',' = false := by decide
  rw [comma]
  split
  · change (d.retract.write [',']).back.blank = false
    simp [hcomma]
  · simp [hcomma]

/-- Two outcomes that differ in the lines above only; `blank` tells whether nothing but blanks
stands below these lines. -/
def Alike (b₁ b₂ : Draft) (blank : Bool) (r₁ r₂ : Except Fault (Draft × Text)) : Prop :=
  ∀ e rest, r₁ = .ok (e, rest) →
    ∃ d : Draft, e = d.on b₁ ∧ r₂ = .ok (d.on b₂, rest) ∧ d.back.blank = blank

theorem alike_ok (d : Draft) (rest : Text) {blank : Bool} (h : d.back.blank = blank) :
    Alike b₁ b₂ blank (.ok (d.on b₁, rest)) (.ok (d.on b₂, rest)) := by
  intro e rest' he
  cases he
  exact ⟨d, rfl, rfl, h⟩

theorem alike_error (f f' : Fault) (blank : Bool) :
    Alike b₁ b₂ blank (.error f) (.error f') := by
  intro e rest h
  cases h

variable {q c : Char} {rest : Text}

theorem string_alike (hb₁ : b₁.Begins) (hb₂ : b₂.Begins) (hq : Text.isBlank q = false)
    (hc : Text.isBlank c = false) :
    Alike b₁ b₂ false ((d.on b₁).string q c rest) ((d.on b₂).string q c rest) := by
  unfold string
  simp only [inMarkup_on, endsWith_on hb₁ (by decide : '\n' ∉ ['=']),
    endsWith_on hb₂ (by decide : '\n' ∉ ['=']), token_on hb₁, token_on hb₂]
  split
  · exact alike_ok _ _ (by simp [hc])
  · cases Literal.string? c rest with
    | none => exact alike_error _ _ _
    | some parts =>
      have hmark (body : Text) : Text.isBlank (Literal.requote q c body) = false := by
        rw [Literal.requote]
        split
        · exact hc
        · exact hq
      simp only [copy_on, write_on, advance_on]
      refine alike_ok _ _ ?_
      split
      · simp [advance, hc]
      · simp [advance, hmark]

theorem template_alike (n₁ n₂ : Nat) (hd : d.back.blank = false) :
    Alike b₁ b₂ false ((d.on b₁).template n₁ rest) ((d.on b₂).template n₂ rest) := by
  unfold template
  cases Literal.template? rest with
  | none => exact alike_error _ _ _
  | some parts =>
    obtain ⟨body, s, rest'⟩ := parts
    have hfull : ((d.copy body).advance body).back.blank = false := by simp [advance, hd]
    cases s with
    | closed =>
      simp only [copy_on, advance_on]
      exact alike_ok _ _ hfull
    | opened =>
      simp only [copy_on, advance_on]
      generalize (d.copy body).advance body = e at hfull
      exact alike_ok { e with frames := (.substitution, e.line) :: e.frames } rest' hfull

theorem slash_alike (hb₁ : b₁.Begins) (hb₂ : b₂.Begins)
    (h : b₁ = b₂ ∨ d.back.blank = false ∨ (∃ m, b₁.Follows m ∧ b₂.Follows m) ∨
      rest.head?.any ['/', '*'].contains = true) :
    Alike b₁ b₂ false ((d.on b₁).slash rest) ((d.on b₂).slash rest) := by
  have hslash : Text.isBlank '/' = false := by decide
  have hregex : rest.head? ≠ some '*' → (rest.head? = some '/' → d.inMarkup = true) →
      (!d.inMarkup && (d.on b₁).regexAllowed) = (!d.inMarkup && (d.on b₂).regexAllowed) := by
    intro hstar hline
    by_cases hmarkup : d.inMarkup = true
    · rw [hmarkup]
      rfl
    · rw [regexAllowed_eq hb₁ hb₂]
      refine h.imp_right fun h => h.imp_right fun h => h.resolve_right fun hcomment => ?_
      obtain ⟨x, hx, hmem⟩ := (Option.any_eq_true ..).1 hcomment
      rw [List.contains_iff_mem, List.mem_cons, List.mem_singleton] at hmem
      rcases hmem with rfl | rfl
      · exact hmarkup (hline hx)
      · exact hstar hx
  unfold slash lineComment blockComment regex
  simp only [inMarkup_on, joins_on, token_on hb₁, token_on hb₂, settle_on hb₁, settle_on hb₂]
  split
  · split
    · exact alike_ok _ _ (by simp [hslash])
    · exact alike_ok _ _ (by simp [hslash, Text.blank_trimEnd])
  · next hline =>
    split
    · cases Literal.comment? rest.tail with
      | none => exact alike_error _ _ _
      | some parts =>
        simp only [copy_on, advance_on]
        exact alike_ok _ _ (by simp [advance, hslash])
    · next hstar =>
      rw [hregex hstar (fun hhead => by simpa [hhead] using hline)]
      split
      · cases Literal.regex? false rest with
        | none => exact alike_error _ _ _
        | some parts => exact alike_ok _ _ (by simp [hslash])
      · exact alike_ok _ _ (by simp [hslash])

theorem isBlank_of_isCloser {f : Frame} : Text.isBlank f.closer = false := by
  cases f <;> decide

theorem close_alike (hb₁ : b₁.Begins) (hb₂ : b₂.Begins) :
    Alike b₁ b₂ false ((d.on b₁).close c rest) ((d.on b₂).close c rest) := by
  have hframes (b : Draft) : (d.on b).frames = d.frames.map fun (f, n) => (f, n + b.line) := rfl
  unfold close
  rw [hframes, hframes]
  cases hd : d.frames with
  | nil => exact alike_error _ _ _
  | cons top frames =>
    obtain ⟨f, n⟩ := top
    simp only [List.map_cons]
    split
    · exact alike_error _ _ _
    · next hcloser =>
      have hc : Text.isBlank c = false := by
        rw [← not_not.1 hcloser]
        exact isBlank_of_isCloser
      have hpop (b : Draft) : ({ d.on b with
            frames := frames.map fun (f, n) => (f, n + b.line), pad := false } : Draft) =
          ({ d with frames, pad := false } : Draft).on b := rfl
      have hclosed {b : Draft} (hb : b.Begins) (e : Draft) :
          ((if f.joins then (e.on b).endList f else e.on b).write [c]) =
            ((if f.joins then e.endList f else e).write [c]).on b := by
        rw [endList_on hb, ← apply_ite (on · b), write_on]
      rw [hpop, hpop, hclosed hb₁, hclosed hb₂]
      split
      · exact template_alike _ _ (by simp [hc])
      · exact alike_ok _ _ (by simp [hc])

theorem isBlank_of_mem_tokenMarks (hc : c ∈ tokenMarks) : Text.isBlank c = false := by
  have hmarks : ∀ m ∈ tokenMarks, Text.isBlank m = false := by decide
  exact hmarks c hc

/-- What is seen of the lines `b₁` and of the lines `b₂` when a text is read on below them does not
part the two: they are the same, or something has been written below them, or they end with marks,
and with the same one if the text begins with a slash that opens no comment. -/
def SeenAlike (b₁ b₂ : Draft) (blank : Bool) (t : Text) : Prop :=
  b₁ = b₂ ∨ blank = false ∨
    ∃ m₁ m₂, b₁.Follows m₁ ∧ b₂.Follows m₂ ∧ (m₁ = m₂ ∨ Text.opensSlash t = false)

/-- A step below lines that are seen alike gives the same. -/
theorem step_alike (hb₁ : b₁.Begins) (hb₂ : b₂.Begins) (hq : Text.isBlank q = false)
    (h : SeenAlike b₁ b₂ d.back.blank (c :: rest)) :
    Alike b₁ b₂ (Text.isBlank c && d.back.blank) ((d.on b₁).step q c rest)
      ((d.on b₂).step q c rest) := by
  have hmark {m : Char} (hm : m ∈ tokenMarks) : (Text.isBlank m && d.back.blank) = false := by
    rw [isBlank_of_mem_tokenMarks hm, Bool.false_and]
  have hcomment : c = '/' → b₁ = b₂ ∨ d.back.blank = false ∨
      (∃ m, b₁.Follows m ∧ b₂.Follows m) ∨ rest.head?.any ['/', '*'].contains = true := by
    rintro rfl
    refine h.imp_right fun h => h.imp_right fun ⟨m₁, m₂, hm₁, hm₂, h⟩ => ?_
    rcases h with rfl | h
    · exact .inl ⟨m₁, hm₁, hm₂⟩
    · rw [Text.opensSlash, Text.trimStart_cons (by decide)] at h
      exact .inr (by simpa using h)
  unfold step
  split
  · next hc =>
    rw [gap_on hb₁, gap_on hb₂]
    refine alike_ok _ _ ?_
    rw [isBlank_of_isGap hc, Bool.true_and]
    refine blank_gap d (fun x hx => ?_) _
    rcases List.mem_cons.1 hx with rfl | hx
    · exact hc
    · exact List.mem_takeWhile_imp hx
  split
  · next hc =>
    have hc' : Text.isBlank c = false := by
      simp only [Bool.or_eq_true, decide_eq_true_eq] at hc
      rcases hc with rfl | rfl <;> decide
    rw [hc', Bool.false_and]
    exact string_alike hb₁ hb₂ hq hc'
  split
  · next hc =>
    rw [hc, hmark (by decide), token_on hb₁, token_on hb₂]
    exact template_alike _ _ (by simp [isBlank_of_mem_tokenMarks (by decide : '\x60' ∈ tokenMarks)])
  split
  · next hc =>
    rw [show (Text.isBlank c && d.back.blank) = false by rw [hc, hmark (by decide)]]
    exact slash_alike hb₁ hb₂ (hcomment hc)
  split
  · next hc =>
    rw [hc, hmark (by decide), openFrame_on hb₁, openFrame_on hb₂]
    exact alike_ok _ _ (blank_openFrame d _)
  split
  · next hc =>
    rw [hc, hmark (by decide), openFrame_on hb₁, openFrame_on hb₂]
    exact alike_ok _ _ (blank_openFrame d _)
  split
  · next hc =>
    have hseen : b₁ = b₂ ∨ d.back.blank = false ∨ ∃ m₁ m₂, b₁.Follows m₁ ∧ b₂.Follows m₂ :=
      h.imp_right fun h => h.imp_right fun ⟨m₁, m₂, hm₁, hm₂, _⟩ => ⟨m₁, m₂, hm₁, hm₂⟩
    rw [hc, hmark (by decide), braceFrame_eq hb₁ hb₂ hseen, openFrame_on hb₁, openFrame_on hb₂]
    exact alike_ok _ _ (blank_openFrame d _)
  split
  · next hc =>
    have hc' : Text.isBlank c = false := by
      simp only [Bool.or_eq_true, decide_eq_true_eq] at hc
      rcases hc with (rfl | rfl) | rfl <;> decide
    rw [hc', Bool.false_and]
    exact close_alike hb₁ hb₂
  split
  · next hc =>
    rw [hc, hmark (by decide), comma_on hb₁, comma_on hb₂]
    exact alike_ok _ _ (blank_comma d)
  · rw [token_on hb₁, token_on hb₂]
    exact alike_ok _ _ (by simp)

/-- Blanks are read without a look at what follows them. -/
theorem trimStart_of_step (hc : Text.isBlank c = true) {d' : Draft} {rest' : Text}
    (h : d.step q c rest = .ok (d', rest')) : rest'.trimStart = Text.trimStart (c :: rest) := by
  have hmarks : c ∉ tokenMarks := fun hm => by
    rw [isBlank_of_mem_tokenMarks hm] at hc
    cases hc
  rw [Text.trimStart_cons_blank hc]
  cases hgap : isGap c with
  | true =>
    rw [step_gap hgap] at h
    cases h
    have hblank : Text.blank (rest.takeWhile isGap) = true :=
      List.all_eq_true.2 fun x hx => isBlank_of_isGap (List.mem_takeWhile_imp hx)
    conv_rhs => rw [← List.takeWhile_append_dropWhile (p := isGap) (l := rest)]
    rw [Text.trimStart_append, if_pos hblank]
  | false =>
    rw [step_plain hgap hmarks] at h
    cases h
    rfl

/-- Between statements, a text is read alike below lines that are seen alike. -/
theorem read_alike (hb₁ : b₁.Begins) (hb₂ : b₂.Begins) (hq : Text.isBlank q = false)
    {t : Text} (ht : SeenAlike b₁ b₂ d.back.blank t) {e : Draft}
    (h : read q (d.on b₁) t = .ok e) :
    ∃ d' : Draft, e = d'.on b₁ ∧ read q (d.on b₂) t = .ok (d'.on b₂) := by
  generalize hd : d.on b₁ = d₁ at h
  induction h using read_induction generalizing d with
  | done => exact ⟨d, hd.symm, by rw [read]⟩
  | @step d₁ c rest d₁' rest' hstep _ ih =>
    have htrim (hc : Text.isBlank c = true) := trimStart_of_step hc hstep
    rw [← hd] at hstep
    obtain ⟨d', rfl, hstep', hblank⟩ := step_alike hb₁ hb₂ hq ht _ _ hstep
    rw [read_of_step hstep']
    refine ih (ht.imp_right fun ht => ?_) rfl
    rw [hblank]
    cases hc : Text.isBlank c with
    | false => exact .inl rfl
    | true =>
      rcases ht with ht | ⟨m₁, m₂, hm₁, hm₂, ht⟩
      · exact .inl ht
      · refine .inr ⟨m₁, m₂, hm₁, hm₂, ht.imp_right fun ht => ?_⟩
        rwa [Text.opensSlash, htrim hc]

/-- Below a line that ends with `m`, reading `t` writes `y`, with line ends as in `es`. -/
def Below (q m : Char) (t y : Text) (es : List LineEnd) : Prop :=
  ∀ b : Draft, b.Follows m → b.frames = [] → b.pad = false →
    ∃ e, read q b t = .ok e ∧ e.back = y.reverse ++ b.back ∧ e.ends = es.reverse ++ b.ends ∧
      e.frames = []

theorem on_eq_self (hframes : b.frames = []) (hpad : b.pad = false) :
    ({ line := 0 } : Draft).on b = b := by
  cases b
  simp_all [on]

/-- Reading adds to the lines above. -/
theorem exists_on (hb : b.Begins) (hq : Text.isBlank q = false) (hframes : b.frames = [])
    (hpad : b.pad = false) {t : Text} {e : Draft} (h : read q b t = .ok e) :
    ∃ d : Draft, e = d.on b := by
  rw [← on_eq_self hframes hpad] at h
  obtain ⟨d, he, -⟩ := read_alike hb hb hq (.inl rfl) h
  exact ⟨d, he⟩

/-- What is read below one line that ends with `m` is read below all lines that end alike, and below
any other if the text does not begin with a slash that opens no comment. -/
theorem exists_below (hb : b.Follows m) (hq : Text.isBlank q = false) (hframes : b.frames = [])
    (hpad : b.pad = false) {t : Text} {e : Draft} (h : read q b t = .ok e) (hclosed : e.frames = []) :
    ∃ y es, (∀ m', m = m' ∨ Text.opensSlash t = false → Below q m' t y es) ∧
      e.back = y.reverse ++ b.back ∧ e.ends = es.reverse ++ b.ends := by
  obtain ⟨d', rfl⟩ := exists_on hb.begins hq hframes hpad h
  have hnone : d'.frames = [] := List.map_eq_nil_iff.1 hclosed
  refine ⟨d'.back.reverse, d'.ends.reverse, ?_, by simp [on], by simp [on]⟩
  intro m' hm b' hb' hframes' hpad'
  have hbase : read q (({ line := 0 } : Draft).on b) t = .ok (d'.on b) := by
    rwa [on_eq_self hframes hpad]
  obtain ⟨d'', hd, hread⟩ :=
    read_alike hb.begins hb'.begins hq (.inr (.inr ⟨m, m', hb, hb', hm⟩)) hbase
  have hsame : d' = d'' := on_injective b hd
  rw [on_eq_self hframes' hpad', ← hsame] at hread
  exact ⟨d'.on b', hread, by simp [on], by simp [on], by simp [on, hnone]⟩

end Draft

end ProjectSetup
