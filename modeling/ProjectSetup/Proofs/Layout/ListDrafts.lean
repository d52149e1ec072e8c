import ProjectSetup.Proofs.Layout.Lists
import ProjectSetup.Proofs.Text.Splitting

/-!
# Drafts of lists

Reading takes back the comma at the end of a list, and finishing the semicolon at the end of a
statement. Where no list ends in two commas and no statement in two semicolons, what is left has
nothing to take back: in the draft of a text of lists all neighbours agree, and each of its lines
ends with one semicolon at most.
-/
namespace ProjectSetup

namespace Text

/-- What may be taken back at the end of a list, if brackets are open, and else of a statement. -/
def endMark (n : Nat) : Char := if n = 0 then ';' else ','

/-- Whether no list ends in two commas and no statement in two semicolons, in a text ahead of which
`n` brackets are open and `k` of these marks stand. -/
def endsOnce : Nat → Nat → Text → Bool
  | _, k, [] => k ≤ 1
  | n, k, c :: t =>
    if c = '\n' ∧ n = 0 then k ≤ 1 && endsOnce 0 0 t
    else if isBlank c then endsOnce n k t
    else if c = endMark n then endsOnce n (k + 1) t
    else (!([')', ']'].contains c) || k ≤ 1) && endsOnce (deeper n c) 0 t

/-- How often `m` stands at the end of the last line of a text, blanks apart; the last character of
the text comes first. -/
def trail (m : Char) : Text → Nat
  | [] => 0
  | c :: back =>
    if c = '\n' then 0
    else if isBlank c then trail m back
    else if c = m then trail m back + 1
    else 0

/-- No line but the last one ends in two semicolons; the last character comes first. -/
def brokenOnce : Text → Prop
  | [] => True
  | c :: back => (c = '\n' → trail ';' back ≤ 1) ∧ brokenOnce back

/-- A text, last character first, without the blanks at its end. -/
def retracted (back : Text) : Text := back.dropWhile fun c => c == ' ' || c == '\t'

/-- A text, last character first, that ends with the last item of a list, without the comma and the
blanks behind it. -/
def lastItem (back : Text) : Text :=
  if (retracted back).head? = some ',' then retracted (retracted back).tail else retracted back

/-- A text, last character first, at the end of which `n` brackets are open and `k` marks or fewer
can be taken back. -/
structure Trailing (n k : Nat) (back : Text) : Prop where
  laid : isLaid 0 none back.reverse = true
  nested : depth 0 back.reverse = n
  marks : trail (endMark n) back ≤ k
  lines : brokenOnce back

variable {n k j : Nat} {c m : Char} {back t : Text}

theorem trail_cons_blank (hbreak : c ≠ '\n') (hc : isBlank c = true) (m : Char) (back : Text) :
    trail m (c :: back) = trail m back := by
  rw [trail, if_neg hbreak, if_pos hc]

theorem trail_cons_of_ne (hc : isBlank c = false) (hm : c ≠ m) (back : Text) :
    trail m (c :: back) = 0 := by
  rw [trail, if_neg (Bool.eq_false_iff.1 hc), if_neg hm, ite_self]

theorem ne_of_isGap {c : Char} (h : Draft.isGap c = false) :
    c ≠ '\n' ∧ c ≠ ' ' ∧ c ≠ '\t' ∧ c ≠ '\r' := by
  refine ⟨?_, ?_, ?_, ?_⟩
  all_goals
    rintro rfl
    cases h

theorem trail_cons_self (hbreak : m ≠ '\n') (hm : isBlank m = false) (back : Text) :
    trail m (m :: back) = trail m back + 1 := by
  rw [trail, if_neg hbreak, if_neg (Bool.eq_false_iff.1 hm), if_pos rfl]

theorem endMark_hard (n : Nat) : isBlank (endMark n) = false ∧ endMark n ≠ '\n' ∧
    endMark n ∉ ['(', '[', ')', ']'] := by
  unfold endMark
  split
  · decide
  · decide

/-- What a token leaves of the marks at the end of a text. -/
theorem exists_endsOnce (hgap : Draft.isGap c = false) (h : endsOnce n k (c :: t) = true) :
    ∃ j, endsOnce (deeper n c) j t = true ∧
      ∀ back, trail (endMark n) back ≤ k → trail (endMark (deeper n c)) (c :: back) ≤ j := by
  have hbreak := (ne_of_isGap hgap).1
  rw [endsOnce, if_neg (by simp [hbreak])] at h
  split at h
  · next hblank =>
    have hdeeper : deeper n c = n := deeper_of_not_mem (not_mem_of_blank hblank) n
    exact ⟨k, by rwa [hdeeper], fun back hback => by
      rwa [hdeeper, trail_cons_blank hbreak hblank]⟩
  · next hblank =>
    split at h
    · next hc =>
      obtain ⟨hhard, hline, hbracket⟩ := endMark_hard n
      rw [← hc] at hbracket
      refine ⟨k + 1, by rwa [deeper_of_not_mem hbracket], fun back hback => ?_⟩
      rw [deeper_of_not_mem hbracket, hc, trail_cons_self hline hhard]
      exact Nat.add_le_add_right hback 1
    · next hc =>
      refine ⟨0, (Bool.and_eq_true_iff.1 h).2, fun back _ => ?_⟩
      rw [trail_cons_of_ne (Bool.eq_false_iff.2 hblank)]
      intro hmark
      have hbracket := (endMark_hard (deeper n c)).2.2
      rw [← hmark] at hbracket
      rw [deeper_of_not_mem hbracket] at hmark
      exact hc hmark

/-- One mark at most is taken back ahead of a closing bracket. -/
theorem le_one_of_endsOnce (hc : c ∈ [')', ']']) (h : endsOnce n k (c :: t) = true) : k ≤ 1 := by
  have hmem : [')', ']'].contains c = true := List.contains_iff_mem.2 hc
  have hhard : c ≠ '\n' ∧ isBlank c = false ∧ c ≠ endMark n := by
    have hmark := (endMark_hard n).2.2
    simp only [List.mem_cons, List.not_mem_nil, or_false] at hc
    rcases hc with rfl | rfl
    · exact ⟨by decide, by decide, fun he => hmark (by rw [← he]; decide)⟩
    · exact ⟨by decide, by decide, fun he => hmark (by rw [← he]; decide)⟩
  rw [endsOnce, if_neg (by simp [hhard]), if_neg (by simp [hhard]), if_neg hhard.2.2, hmem,
    Bool.not_true, Bool.false_or] at h
  exact of_decide_eq_true (Bool.and_eq_true_iff.1 h).1

theorem Trailing.nil : Trailing 0 0 [] := ⟨rfl, rfl, Nat.le_refl 0, trivial⟩

theorem Trailing.write (h : Trailing n k back) (hc : joint n back.head? c = true)
    (hbreak : c = '\n' → trail ';' back ≤ 1)
    (hmarks : trail (endMark (deeper n c)) (c :: back) ≤ j) :
    Trailing (deeper n c) j (c :: back) := by
  have hlaid : isLaid 0 none (back.reverse ++ [c]) = true := by
    refine isLaid_append.2 ⟨h.laid, isLaid_cons.2 ⟨?_, rfl⟩⟩
    rwa [h.nested, List.getLast?_reverse, Option.or_none]
  refine ⟨by rwa [List.reverse_cons], ?_, hmarks, hbreak, h.lines⟩
  rw [List.reverse_cons, depth_append, h.nested]
  rfl

theorem Trailing.tail (h : Trailing n k (c :: back)) (hc : ∀ n, deeper n c = n)
    (hmarks : trail (endMark n) back ≤ j) : Trailing n j back := by
  have hlaid := h.laid
  have hdepth := h.nested
  rw [List.reverse_cons] at hlaid hdepth
  refine ⟨(isLaid_append.1 hlaid).1, ?_, hmarks, h.lines.2⟩
  rw [depth_append] at hdepth
  exact (hc _).symm.trans hdepth

theorem brokenOnce_of_append {front : Text} (h : brokenOnce (front ++ back)) : brokenOnce back := by
  induction front with
  | nil => exact h
  | cons c front ih => exact ih h.2

theorem trail_append_break {line : Text} (h : '\n' ∉ line) (m : Char) (back : Text) :
    trail m (line ++ '\n' :: back) = trail m line := by
  induction line with
  | nil => rfl
  | cons c line ih =>
    rw [List.mem_cons, not_or] at h
    rw [List.cons_append, trail, trail, ih h.2]

/-- No line of a text ends in two semicolons if none does at a line break or at the end. -/
theorem trail_of_brokenOnce (h : brokenOnce back) (hlast : trail ';' back ≤ 1) :
    ∀ l ∈ splitOn '\n' back.reverse, trail ';' l.reverse ≤ 1 := by
  induction hlength : back.length using Nat.strong_induction_on generalizing back with
  | _ n ih =>
    intro l hl
    by_cases hmem : '\n' ∈ back
    · obtain ⟨line, front, rfl, hline⟩ := List.eq_append_cons_of_mem hmem
      have hbroken := brokenOnce_of_append h
      rw [trail_append_break hline] at hlast
      rw [List.reverse_append, List.reverse_cons, List.append_assoc, List.singleton_append,
        splitOn_append_cons, splitOn_of_not_mem (t := line.reverse) (by simpa using hline)] at hl
      rcases List.mem_append.1 hl with hl | hl
      · rw [List.length_append, List.length_cons] at hlength
        exact ih front.length (by omega) hbroken.2 (hbroken.1 rfl) rfl l hl
      · rwa [List.mem_singleton.1 hl, List.reverse_reverse]
    · rw [splitOn_of_not_mem (by simpa using hmem), List.mem_singleton] at hl
      rwa [hl, List.reverse_reverse]

/-- Blanks within a line that are taken back leave the marks ahead of them. -/
theorem Trailing.retracted (h : Trailing n k back) : Trailing n k (retracted back) := by
  induction back with
  | nil => exact h
  | cons c back ih =>
    rw [Text.retracted, List.dropWhile_cons]
    split
    · next hblank =>
      have hc : c ≠ '\n' ∧ isBlank c = true ∧ Draft.isGap c = true := by
        rw [Bool.or_eq_true, beq_iff_eq, beq_iff_eq] at hblank
        rcases hblank with rfl | rfl <;> decide
      refine ih (h.tail (Draft.deeper_of_isGap hc.2.2) ?_)
      have hmarks := h.marks
      rwa [trail_cons_blank hc.1 hc.2.1] at hmarks
    · exact h

/-- Behind the blanks that are taken back in a list there is a character of another kind. -/
theorem Trailing.exists_head (h : Trailing n k back) (hn : n ≠ 0) :
    ∃ a rest, Text.retracted back = a :: rest ∧ a ≠ ' ' ∧ a ≠ '\t' := by
  have hnested := h.retracted.nested
  have hhead := List.head?_dropWhile_not (fun c => c == ' ' || c == '\t') back
  cases hdrop : Text.retracted back with
  | nil =>
    rw [hdrop] at hnested
    exact absurd hnested.symm hn
  | cons a rest =>
    rw [Text.retracted] at hdrop
    rw [hdrop] at hhead
    refine ⟨a, rest, rfl, ?_⟩
    simpa using hhead

/-- Where one comma may be taken back, none is left. -/
theorem Trailing.lastItem (h : Trailing n k back) (hn : n ≠ 0) (hk : k ≤ 1) :
    Trailing n k (lastItem back) ∧
      ∃ a rest, Text.lastItem back = a :: rest ∧ a ≠ ' ' ∧ a ≠ '\t' ∧ a ≠ ',' := by
  obtain ⟨a, rest, hback, hspace, htab⟩ := h.exists_head hn
  have hretracted := h.retracted
  rw [Text.lastItem, hback]
  rw [hback] at hretracted
  split
  · next hcomma =>
    obtain rfl : a = ',' := Option.some.inj hcomma
    have hmark : endMark n = ',' := if_neg hn
    have hmarks := hretracted.marks
    rw [hmark, trail_cons_self (by decide) (by decide)] at hmarks
    have htail : Trailing n 0 rest := hretracted.tail (fun _ => rfl) (by rw [hmark]; omega)
    obtain ⟨b, rest', hrest, hspace', htab'⟩ := htail.exists_head hn
    have hleft := htail.retracted
    refine ⟨⟨hleft.laid, hleft.nested, hleft.marks.trans (Nat.zero_le k), hleft.lines⟩, b, rest',
      hrest, hspace', htab', ?_⟩
    rintro rfl
    have hnone := hleft.marks
    rw [hrest, hmark, trail_cons_self (by decide) (by decide)] at hnone
    omega
  · next hcomma =>
    exact ⟨hretracted, a, rest, rfl, hspace, htab, fun he => hcomma (by rw [he]; rfl)⟩

theorem count_break_retracted (back : Text) : (retracted back).count '\n' = back.count '\n' := by
  induction back with
  | nil => rfl
  | cons c back ih =>
    rw [retracted, List.dropWhile_cons]
    split
    · next hblank =>
      have hbreak : c ≠ '\n' := by
        rintro rfl
        exact absurd hblank (by decide)
      rw [List.count_cons_of_ne hbreak]
      exact ih
    · rfl

theorem count_break_lastItem (back : Text) : (lastItem back).count '\n' = back.count '\n' := by
  rw [← count_break_retracted back, lastItem]
  split
  · next hcomma =>
    obtain ⟨rest, hrest⟩ := List.head?_eq_some_iff.1 hcomma
    rw [count_break_retracted, hrest]
    rfl
  · rfl

end Text

namespace Draft

open Text (endMark deeper depth endsOnce follows isLaid isListing joint trail Trailing)

variable {q c : Char} {d d' e : Draft} {n k j : Nat} {rest rest' t : Text}

/-- A draft that reading may go on from, if at most `k` marks stand at its end. -/
structure Drafted (d : Draft) (k : Nat) : Prop where
  lists : d.InLists
  due : d.pad = true ↔ d.frames ≠ [] ∧ d.back.head? = some ','
  ends : d.ends = List.replicate (d.back.count '\n') .statement
  trailing : Trailing d.frames.length k d.back

/-- What stands at the end of a list. -/
theorem Drafted.exists_head (h : d.Drafted k) (hne : d.frames ≠ []) :
    ∃ a back, d.back = a :: back := by
  cases hback : d.back with
  | nil =>
    have hnested := h.trailing.nested
    rw [hback] at hnested
    exact absurd (List.length_eq_zero_iff.1 hnested.symm) hne
  | cons a back => exact ⟨a, back, rfl⟩

theorem Drafted.pad_of_statement (h : d.Drafted k) (hframes : d.frames = []) : d.pad = false := by
  by_contra hpad
  exact (h.due.1 (by simpa using hpad)).1 hframes

/-- The blank that is due behind a comma. -/
theorem Drafted.settle (h : d.Drafted k) : d.settle.Drafted k ∧ d.settle.frames = d.frames ∧
    d.settle.pad = false := by
  cases hpad : d.pad with
  | false =>
    have hself : d.settle = d := by simp [Draft.settle, hpad]
    rw [hself]
    exact ⟨h, rfl, hpad⟩
  | true =>
    obtain ⟨hne, hhead⟩ := h.due.1 hpad
    have hspace : d.space = d.write [' '] := if_neg (by simp [endsWith, hhead])
    have hself : d.settle = { d.write [' '] with pad := false } := by
      rw [Draft.settle, hpad, if_pos rfl, hspace]
    have hjoint : joint d.frames.length d.back.head? ' ' = true := by
      simp [joint, hne, hhead]
      decide
    rw [hself]
    refine ⟨⟨h.lists, by simp [write], h.ends, ?_⟩, rfl, rfl⟩
    refine h.trailing.write hjoint (fun h => absurd h (by decide)) ?_
    exact h.trailing.marks

/-- A token that is neither a blank nor, in a list, a comma or a closing bracket. -/
theorem Drafted.token (h : d.Drafted k) (hc : isListing c = true) (hgap : isGap c = false)
    (hmark : d.frames ≠ [] → c ∉ [')', ']', ','])
    (hj : ∀ back, trail (endMark d.frames.length) back ≤ k →
      trail (endMark (deeper d.frames.length c)) (c :: back) ≤ j) :
    (d.token [c]).frames = d.frames ∧ (d.token [c]).pad = false ∧
      (d.token [c]).ends = List.replicate ((d.token [c]).back.count '\n') .statement ∧
      Trailing (deeper d.frames.length c) j (d.token [c]).back := by
  obtain ⟨hsettled, hframes, hpad⟩ := h.settle
  have hno := Text.ne_of_isGap hgap
  have hjoint : joint d.frames.length d.settle.back.head? c = true := by
    rw [joint, hc, Bool.true_and]
    split
    · simp [hno]
    · next hn =>
      have hne : d.frames ≠ [] := mt List.length_eq_zero_iff.2 hn
      have hmark := hmark hne
      simp only [List.mem_cons, List.not_mem_nil, or_false, not_or] at hmark
      rw [← hframes] at hne
      obtain ⟨a, back, hback⟩ := hsettled.exists_head hne
      have ha : a ≠ ',' := by
        rintro rfl
        have hdue := hsettled.due.2 ⟨hne, by rw [hback]; rfl⟩
        rw [hpad] at hdue
        cases hdue
      simp [hback, follows, hno, hmark, ha]
  have htrailing := hsettled.trailing
  rw [hframes] at htrailing
  refine ⟨hframes, hpad, ?_, htrailing.write hjoint (fun h => absurd h hno.1)
    (hj _ htrailing.marks)⟩
  change d.settle.ends = _
  rw [hsettled.ends]
  change _ = List.replicate ((c :: d.settle.back).count '\n') _
  rw [List.count_cons_of_ne hno.1]

/-- A comma in a list stands behind the last item. -/
theorem Drafted.comma (h : d.Drafted k) (hne : d.frames ≠ []) :
    d.comma.Drafted (k + 1) ∧ d.comma.frames = d.frames := by
  have hn := mt List.length_eq_zero_iff.1 hne
  have hself : d.comma = { d.retract.write [','] with pad := true } := by
    rw [Draft.comma, h.lists.joins_iff.2 hne, if_pos rfl]
  obtain ⟨a, back, hback, hspace, htab⟩ := h.trailing.exists_head hn
  have hjoint : joint d.frames.length d.retract.back.head? ',' = true := by
    change joint _ (Text.retracted d.back).head? ',' = true
    rw [hback, joint, if_neg hn]
    simp [follows, hspace, htab, isListing]
  rw [hself]
  refine ⟨⟨h.lists, ?_, ?_, ?_⟩, rfl⟩
  · simp [write, retract, hne]
  · change d.ends = _
    rw [h.ends, ← Text.count_break_retracted]
    rfl
  · refine h.trailing.retracted.write hjoint (fun h => absurd h (by decide)) ?_
    have hmark : endMark d.frames.length = ',' := if_neg hn
    rw [show deeper d.frames.length ',' = d.frames.length from rfl, hmark,
      Text.trail_cons_self (by decide) (by decide)]
    have hmarks := h.trailing.retracted.marks
    rw [hmark] at hmarks
    exact Nat.add_le_add_right hmarks 1

theorem closeFrame_of_list {f : Frame} (hf : f = .paren ∨ f = .bracket) (d : Draft)
    (fs : List (Frame × Nat)) : d.closeFrame f fs =
      { d with back := f.closer :: Text.lastItem d.back, frames := fs, pad := false } := by
  have hkind : f.joins = true ∧ (f = .list) = False := by
    rcases hf with rfl | rfl <;> simp [Frame.joins]
  have hcomma : ({ d with frames := fs, pad := false } : Draft).retract.endsWith [','] =
      decide ((Text.retracted d.back).head? = some ',') := by
    change (Text.retracted d.back).head?.any _ = _
    cases (Text.retracted d.back).head? with
    | none => rfl
    | some a => simp
  rw [Draft.closeFrame, if_pos hkind.1, endList]
  simp only [hkind.2, decide_false, Bool.false_and, Bool.false_eq_true, if_false, hcomma,
    decide_eq_true_eq, Text.lastItem]
  split
  · rfl
  · rfl

/-- A list ends behind its last item. -/
theorem Drafted.closeFrame {f : Frame} {m : Nat} {fs : List (Frame × Nat)} (h : d.Drafted k)
    (hf : f = .paren ∨ f = .bracket) (hframes : d.frames = (f, m) :: fs) (hk : k ≤ 1) :
    (d.closeFrame f fs).Drafted j := by
  have hn : d.frames.length ≠ 0 := by
    rw [hframes]
    exact Nat.succ_ne_zero _
  have hcloser : isListing f.closer = true ∧ f.closer ∉ ['\n', '\t', '\r', ' ', ','] ∧
      Text.isBlank f.closer = false ∧ deeper d.frames.length f.closer = fs.length ∧
      ∀ n, f.closer ≠ endMark n := by
    have hclosing (n : Nat) : endMark n = ';' ∨ endMark n = ',' := by
      unfold endMark
      split
      · exact .inl rfl
      · exact .inr rfl
    rw [hframes]
    rcases hf with rfl | rfl
    · exact ⟨by decide, by decide, by decide, rfl, fun n => by
        rcases hclosing n with h | h <;> rw [h] <;> decide⟩
    · exact ⟨by decide, by decide, by decide, rfl, fun n => by
        rcases hclosing n with h | h <;> rw [h] <;> decide⟩
  obtain ⟨hlisting, hmark, hhard, hdeeper, hne⟩ := hcloser
  simp only [List.mem_cons, List.not_mem_nil, or_false, not_or] at hmark
  obtain ⟨htrailing, a, back, hback, hspace, htab, hcomma⟩ := h.trailing.lastItem hn hk
  have hjoint : joint d.frames.length (Text.lastItem d.back).head? f.closer = true := by
    rw [joint, hlisting, if_neg hn, hback]
    simp [follows, hspace, htab, hcomma, hmark]
  rw [closeFrame_of_list hf]
  refine ⟨fun x hx => h.lists x (by rw [hframes]; exact List.mem_cons_of_mem _ hx), ?_, ?_, ?_⟩
  · simp [hmark]
  · change d.ends = _
    rw [h.ends, List.count_cons_of_ne hmark.1, Text.count_break_lastItem]
  · change Trailing fs.length j (f.closer :: Text.lastItem d.back)
    rw [← hdeeper]
    refine htrailing.write hjoint (fun h => absurd h hmark.1) ?_
    rw [Text.trail_cons_of_ne hhard (hne _)]
    exact Nat.zero_le j

theorem endsOnce_dropGaps (hn : n ≠ 0) (t : Text) :
    endsOnce n k (t.dropWhile isGap) = endsOnce n k t := by
  induction t with
  | nil => rfl
  | cons c t ih =>
    rw [List.dropWhile_cons]
    split
    · next hgap => rw [ih, endsOnce, if_neg (by simp [hn]), if_pos (isBlank_of_isGap hgap)]
    · rfl

/-- Of a run of blanks in a list one is kept at most. -/
theorem Drafted.gap_of_list (h : d.Drafted k) (hne : d.frames ≠ []) (run rest : Text) :
    (d.gap run rest).Drafted k ∧ (d.gap run rest).frames = d.frames := by
  have hjoins : (d.advance run).joins = true :=
    (InLists.joins_iff (d := d.advance run) h.lists).2 hne
  have hsame : (d.advance run).Drafted k := ⟨h.lists, h.due, h.ends, h.trailing⟩
  have hn := mt List.length_eq_zero_iff.1 hne
  obtain ⟨a, back, hback⟩ := h.exists_head hne
  rw [gap, hjoins, if_pos rfl]
  split
  · exact ⟨hsame, rfl⟩
  · next hkept =>
    refine ⟨?_, by unfold space; split <;> rfl⟩
    have hopen : a ≠ '(' ∧ a ≠ '[' := by
      simp only [Bool.or_eq_true, not_or] at hkept
      simpa [endsWith, advance, hback] using hkept.1
    unfold space
    split
    · next hspace =>
      obtain rfl : a = ' ' := by simpa [endsWith, advance, hback] using hspace
      exact ⟨h.lists, by simp [advance, hback], h.ends, h.trailing⟩
    · next hspace =>
      have ha : a ≠ ' ' := by simpa [endsWith, advance, hback] using hspace
      have hjoint : joint d.frames.length d.back.head? ' ' = true := by
        rw [joint, if_neg hn, hback]
        simp [follows, hopen, ha, isListing]
      refine ⟨h.lists, by simp [write], h.ends, ?_⟩
      exact h.trailing.write hjoint (fun h => absurd h (by decide)) h.trailing.marks

/-- Between statements any blank may be written but a carriage return. -/
theorem joint_of_isGap (hframes : d.frames = []) (hgap : isGap c = true) (hreturn : c ≠ '\r') :
    joint d.frames.length d.back.head? c = true := by
  have hlisting : isListing c = true := by
    simp only [isGap, Bool.or_eq_true, beq_iff_eq] at hgap
    rcases hgap with ((rfl | rfl) | rfl) | rfl
    all_goals decide
  simp [joint, hframes, hlisting, hreturn]

/-- A line break ends a statement, with one semicolon at most. -/
theorem Drafted.breakLine (h : d.Drafted k) (hframes : d.frames = []) (hk : k ≤ 1) :
    (d.breakLine d.lineEnd).Drafted 0 := by
  have hend : d.lineEnd = .statement := by simp [lineEnd, top?, hframes]
  have hmarks := h.trailing.marks
  rw [hframes] at hmarks
  have hwrite := h.trailing.write (c := '\n') (j := 0) (joint_of_isGap hframes rfl (by decide))
    (fun _ => hmarks.trans hk) (by rw [Text.trail, if_pos rfl])
  rw [deeper_of_isGap rfl] at hwrite
  refine ⟨h.lists, by simp [Draft.breakLine, h.pad_of_statement hframes, hframes], ?_, hwrite⟩
  rw [Draft.breakLine, hend, h.ends, List.count_cons_self, List.replicate_succ]

theorem Drafted.write_blank (h : d.Drafted k) (hframes : d.frames = []) (hgap : isGap c = true)
    (hreturn : c ≠ '\r') (hbreak : c ≠ '\n') : (d.write [c]).Drafted k := by
  have hdeeper := deeper_of_isGap hgap d.frames.length
  have hwrite := h.trailing.write (c := c) (j := k) (joint_of_isGap hframes hgap hreturn)
    (fun h => absurd h hbreak)
    (by rw [hdeeper, Text.trail_cons_blank hbreak (isBlank_of_isGap hgap)]
        exact h.trailing.marks)
  rw [hdeeper] at hwrite
  refine ⟨h.lists, by simp [write, h.pad_of_statement hframes, hframes], ?_, hwrite⟩
  change d.ends = List.replicate ((c :: d.back).count '\n') _
  rw [h.ends, List.count_cons_of_ne hbreak]

/-- Between statements, blanks end no statement but at line breaks. -/
theorem Drafted.run_of_statement {run : Text} (h : d.Drafted k) (hframes : d.frames = [])
    (hrun : ∀ c ∈ run, isGap c = true) (honce : endsOnce 0 k (run ++ t) = true) :
    let e := run.foldl (fun d c =>
      if c = '\n' then d.breakLine d.lineEnd else if c = '\r' then d else d.write [c]) d
    ∃ j, e.Drafted j ∧ e.frames = [] ∧ endsOnce 0 j t = true := by
  induction run generalizing d k with
  | nil => exact ⟨k, h, hframes, honce⟩
  | cons c run ih =>
    obtain ⟨hgap, hrun⟩ := List.forall_mem_cons.1 hrun
    rw [List.cons_append, endsOnce] at honce
    by_cases hbreak : c = '\n'
    · rw [if_pos ⟨hbreak, rfl⟩, Bool.and_eq_true, decide_eq_true_eq] at honce
      simp only [List.foldl_cons, if_pos hbreak]
      exact ih (h.breakLine hframes honce.1) hframes hrun honce.2
    · rw [if_neg (by simp [hbreak]), if_pos (isBlank_of_isGap hgap)] at honce
      by_cases hreturn : c = '\r'
      · simp only [List.foldl_cons, if_neg hbreak, if_pos hreturn]
        exact ih h hframes hrun honce
      · simp only [List.foldl_cons, if_neg hbreak, if_neg hreturn]
        exact ih (h.write_blank hframes hgap hreturn hbreak) hframes hrun honce

theorem Drafted.gap (hd : d.Drafted k) (hgap : isGap c = true)
    (honce : endsOnce d.frames.length k (c :: rest) = true) :
    let e := d.gap (c :: rest.takeWhile isGap) (rest.dropWhile isGap)
    ∃ j, e.Drafted j ∧ endsOnce e.frames.length j (rest.dropWhile isGap) = true := by
  by_cases hne : d.frames = []
  · have hjoins : (d.advance (c :: rest.takeWhile isGap)).joins = false := joins_of_statement hne
    have hrun : ∀ x ∈ c :: rest.takeWhile isGap, isGap x = true :=
      List.forall_mem_cons.2 ⟨hgap, fun x hx => List.mem_takeWhile_imp hx⟩
    have hsplit : c :: rest = (c :: rest.takeWhile isGap) ++ rest.dropWhile isGap := by
      rw [List.cons_append, List.takeWhile_append_dropWhile]
    rw [hne, hsplit] at honce
    obtain ⟨j, hj, hframes, honce'⟩ := Drafted.run_of_statement
      (d := d.advance (c :: rest.takeWhile isGap)) ⟨hd.lists, hd.due, hd.ends, hd.trailing⟩ hne
      hrun honce
    rw [Draft.gap, hjoins, if_neg Bool.false_ne_true]
    exact ⟨j, hj, by rw [hframes]; exact honce'⟩
  · obtain ⟨hdrafted, hframes⟩ := hd.gap_of_list hne (c :: rest.takeWhile isGap)
      (rest.dropWhile isGap)
    refine ⟨k, hdrafted, ?_⟩
    have hn := mt List.length_eq_zero_iff.1 hne
    rw [← endsOnce_dropGaps hn, List.dropWhile_cons_of_pos hgap] at honce
    rwa [hframes]

theorem Drafted.openFrame {f : Frame} (hd : d.Drafted k) (hf : f = .paren ∨ f = .bracket)
    (honce : endsOnce d.frames.length k (f.opener :: rest) = true) :
    ∃ j, (d.openFrame f).Drafted j ∧ endsOnce (d.openFrame f).frames.length j rest = true := by
  have hopener : isListing f.opener = true ∧ isGap f.opener = false ∧
      f.opener ∉ [')', ']', ','] ∧ deeper d.frames.length f.opener = d.frames.length + 1 ∧
      (f == .list) = false := by
    rcases hf with rfl | rfl <;> exact ⟨by decide, by decide, by decide, rfl, by decide⟩
  obtain ⟨hc, hgap, hmark, hdeeper, hpad⟩ := hopener
  obtain ⟨j, hj, htrail⟩ := Text.exists_endsOnce hgap honce
  obtain ⟨-, -, hends, htrailing⟩ := hd.token hc hgap (fun _ => hmark) htrail
  rw [hdeeper] at hj htrailing
  refine ⟨j, ⟨List.forall_mem_cons.2 ⟨hf, hd.lists⟩, ?_, hends, htrailing⟩, hj⟩
  have hcomma : f.opener ≠ ',' := fun he => hmark (by rw [he]; decide)
  change (f == .list) = true ↔ _ ∧ some f.opener = some ','
  simp [hpad, hcomma]

/-- A token that is no bracket, and a comma between statements only. -/
theorem Drafted.plain (hd : d.Drafted k) (hc : isListing c = true) (hgap : isGap c = false)
    (hbracket : c ∉ ['(', '[', ')', ']']) (hcomma : c = ',' → d.frames = [])
    (honce : endsOnce d.frames.length k (c :: rest) = true) :
    ∃ j, (d.token [c]).Drafted j ∧ endsOnce (d.token [c]).frames.length j rest = true := by
  have hmark : d.frames ≠ [] → c ∉ [')', ']', ','] := by
    intro hne
    have hplain := mt hcomma hne
    simp only [List.mem_cons, List.not_mem_nil, or_false, not_or] at hbracket
    simp [hbracket, hplain]
  obtain ⟨j, hj, htrail⟩ := Text.exists_endsOnce hgap honce
  obtain ⟨hframes, hpad, hends, htrailing⟩ := hd.token hc hgap hmark htrail
  rw [Text.deeper_of_not_mem hbracket] at hj htrailing
  refine ⟨j, ⟨?_, ?_, hends, ?_⟩, ?_⟩
  · rw [InLists, hframes]
    exact hd.lists
  · change (d.token [c]).pad = true ↔ _ ∧ some c = some ','
    simp only [hpad, hframes, Bool.false_eq_true, false_iff, not_and, Option.some.injEq]
    exact fun hne hmark => hne (hcomma hmark)
  · rwa [hframes]
  · rwa [hframes]

theorem ListStep.drafted (h : ListStep d c rest d' rest') (hd : d.Drafted k)
    (hlisting : ∀ x ∈ c :: rest, isListing x = true)
    (honce : endsOnce d.frames.length k (c :: rest) = true) :
    ∃ j, d'.Drafted j ∧ endsOnce d'.frames.length j rest' = true := by
  obtain ⟨hc, -⟩ := List.forall_mem_cons.1 hlisting
  cases h with
  | gap hgap => exact hd.gap hgap honce
  | opened hf => exact hd.openFrame hf honce
  | @closed f n fs _ hf hframes =>
    have hcloser : isGap f.closer = false ∧ f.closer ∈ [')', ']'] ∧
        deeper d.frames.length f.closer = fs.length := by
      rw [hframes]
      rcases hf with rfl | rfl <;> exact ⟨by decide, by decide, rfl⟩
    obtain ⟨j, hj, -⟩ := Text.exists_endsOnce hcloser.1 honce
    rw [hcloser.2.2] at hj
    refine ⟨j, hd.closeFrame hf hframes (Text.le_one_of_endsOnce hcloser.2.1 honce), ?_⟩
    rwa [closeFrame_of_list hf]
  | comma =>
    by_cases hne : d.frames = []
    · rw [Draft.comma, joins_of_statement hne, if_neg Bool.false_ne_true]
      exact hd.plain hc (by decide) (by decide) (fun _ => hne) honce
    · have hn := mt List.length_eq_zero_iff.1 hne
      have hmark : ',' = endMark d.frames.length := (if_neg hn).symm
      obtain ⟨hdrafted, hframes⟩ := hd.comma hne
      rw [endsOnce, if_neg (by simp), if_neg (by decide), if_pos hmark] at honce
      exact ⟨k + 1, hdrafted, by rwa [hframes]⟩
  | plain hgap hmark =>
    simp only [tokenMarks, List.mem_cons, List.not_mem_nil, or_false, not_or] at hmark
    exact hd.plain hc hgap (by simp [hmark]) (by simp [hmark]) honce

theorem read_drafted (hd : d.Drafted k) (hlisting : ∀ x ∈ t, isListing x = true)
    (honce : endsOnce d.frames.length k t = true) (h : read q d t = .ok e) :
    ∃ j, e.Drafted j ∧ j ≤ 1 := by
  induction h using read_induction generalizing k with
  | done => exact ⟨k, hd, of_decide_eq_true honce⟩
  | @step d c rest d' rest' hstep hread ih =>
    have hstep' := listStep_cases hd.lists hlisting hstep
    obtain ⟨j, hj, honce'⟩ := hstep'.drafted hd hlisting honce
    exact ih hj (fun x hx => hlisting x (hstep'.suffix.subset hx)) honce'

/-- In the draft of a text of lists all neighbours agree, and each line ends a statement, with one
semicolon at most. -/
theorem collapse_of_lists (hlisting : ∀ c ∈ t, isListing c = true) (honce : endsOnce 0 0 t = true)
    (h : collapse q t = .ok d) :
    isLaid 0 none d.text = true ∧ depth 0 d.text = 0 ∧
      d.lineEnds = List.replicate (d.text.count '\n' + 1) .statement ∧
      ∀ l ∈ Text.splitOn '\n' d.text, trail ';' l.reverse ≤ 1 := by
  have hstart : Drafted {} 0 :=
    ⟨fun x hx => (nomatch hx), by simp, rfl, Trailing.nil⟩
  obtain ⟨j, hd, hj⟩ := read_drafted hstart hlisting honce (read_of_collapse h)
  have hframes := frames_of_collapse h
  have htrailing := hd.trailing
  rw [hframes] at htrailing
  refine ⟨htrailing.laid, htrailing.nested, ?_, ?_⟩
  · rw [lineEnds, hd.ends, ← List.replicate_succ, List.reverse_replicate, text,
      List.count_reverse]
  · exact Text.trail_of_brokenOnce htrailing.lines (htrailing.marks.trans hj)

end Draft

end ProjectSetup
