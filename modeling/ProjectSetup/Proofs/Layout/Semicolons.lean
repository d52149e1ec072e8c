import ProjectSetup.Proofs.Layout.Finishing
import ProjectSetup.Proofs.Layout.Reading

/-!
# Semicolons

Finishing ends each statement as the style asks. Where no statement has to change for that, the
rest of finishing only trims, wraps and assembles lines. Where one does, reading the finished text
gives another draft. A semicolon that was dropped is not read, and one that was added is read on the
line of its statement, where the draft has a line break ahead of it: reading joins lines and never
parts them.
-/
namespace ProjectSetup

namespace Text

/-- The characters that reading writes as they stand, each after the same ones: all but soft
characters and commas. -/
def isRigid (c : Char) : Bool := !isSoft c && c != ','

/-- The rigid characters that are no line breaks. -/
def isFixed (c : Char) : Bool := isRigid c && c != '\n'

/-- The fixed characters of a text. -/
def fixed (t : Text) : Text := t.filter isFixed

@[simp] theorem fixed_append (s t : Text) : fixed (s ++ t) = fixed s ++ fixed t :=
  List.filter_append ..

theorem filter_rigid_of_unbroken {t : Text} (h : '\n' ∉ t) : t.filter isRigid = fixed t := by
  refine List.filter_congr fun c hc => ?_
  have hn : c ≠ '\n' := fun he => h (he ▸ hc)
  simp [isFixed, hn]

theorem countP_rigid (t : Text) : (t.filter isRigid).countP isFixed = (fixed t).length := by
  rw [List.countP_eq_length_filter, List.filter_filter, fixed]
  refine congrArg _ (List.filter_congr fun c _ => ?_)
  cases hc : isRigid c <;> simp [isFixed, hc]

theorem fixed_join_lines (ls : List Text) : fixed (join ['\n'] ls) = ls.flatMap fixed :=
  filter_join (by decide) ls

variable {p : Char → Bool} {b c k : Char}

/-- If a text has no more characters of a kind than a text within it, then a separator of the
latter is a separator of the former, behind as many characters of the kind. -/
theorem exists_break {u v r : Text} (h : (u ++ b :: v).Sublist r)
    (hr : r.countP p = u.countP p + v.countP p) :
    ∃ s t, r = s ++ b :: t ∧ s.countP p = u.countP p := by
  obtain ⟨r₁, r₂, rfl, h₁, h₂⟩ := List.append_sublist_iff.1 h
  obtain ⟨s, t, rfl, hb, hv⟩ := List.cons_sublist_iff.1 h₂
  obtain ⟨s₁, s₂, rfl⟩ := List.append_of_mem hb
  refine ⟨r₁ ++ s₁, s₂ ++ t, by simp, ?_⟩
  have hu := h₁.countP_le (p := p)
  have hv := hv.countP_le (p := p)
  simp only [List.countP_append, List.countP_cons] at hr ⊢
  omega

/-- No separator stands between two neighbours of a kind. -/
theorem no_break {x z s t : Text} (hk : p k = true) (hc : p c = true) (hb : p b = false)
    (h : (x ++ [k]) ++ c :: z = s ++ b :: t) : s.countP p ≠ (x ++ [k]).countP p := by
  intro hs
  rcases List.append_eq_append_iff.1 h with ⟨w, rfl, hw⟩ | ⟨w, hw, hz⟩
  · cases w with
    | nil =>
      cases hw
      rw [hc] at hb
      cases hb
    | cons a w =>
      cases hw
      simp only [List.countP_append, List.countP_cons, hc, if_true] at hs
      omega
  · cases w with
    | nil =>
      cases hz
      rw [hc] at hb
      cases hb
    | cons a w =>
      have hlast : k ∈ a :: w := by
        have hl := congrArg List.getLast? hw
        rw [List.getLast?_concat, List.getLast?_append_of_ne_nil _ (List.cons_ne_nil a w)] at hl
        exact List.mem_of_getLast? hl.symm
      have hpos : 0 < (a :: w).countP p := List.countP_pos_iff.2 ⟨k, hlast, hk⟩
      rw [hw, List.countP_append] at hs
      omega

/-- A character behind `last` on its line is not parted from it by a line break if rigid characters
are dropped, but none that is fixed. -/
theorem not_parted {s last t u v : Text} (hlast : '\n' ∉ last) (hne : fixed last ≠ [])
    (hc : isFixed c = true) (hu : fixed u = fixed s ++ fixed last)
    (hv : fixed v = c :: fixed t) :
    ¬((u ++ '\n' :: v).filter isRigid).Sublist ((s ++ last ++ c :: t).filter isRigid) := by
  intro hsub
  rw [List.filter_append, List.filter_cons_of_pos (by decide)] at hsub
  have hcount : ((s ++ last ++ c :: t).filter isRigid).countP isFixed =
      (u.filter isRigid).countP isFixed + (v.filter isRigid).countP isFixed := by
    have hcons : fixed (c :: t) = c :: fixed t := List.filter_cons_of_pos hc
    rw [countP_rigid, countP_rigid, countP_rigid, fixed_append, fixed_append, hcons, ← hu, ← hv,
      List.length_append]
  obtain ⟨x, y, hbreak, hx⟩ := exists_break hsub hcount
  -- The last fixed character of `last` is a neighbour of `c`.
  obtain ⟨w, k, hk⟩ := (List.eq_nil_or_concat' (fixed last)).resolve_left hne
  have hfixed : isFixed k = true := by
    have hmem : k ∈ fixed last := by rw [hk]; simp
    exact (List.mem_filter.1 hmem).2
  have hrigid : (s ++ last ++ c :: t).filter isRigid =
      ((s.filter isRigid ++ w) ++ [k]) ++ c :: t.filter isRigid := by
    rw [List.filter_append, List.filter_append, filter_rigid_of_unbroken hlast, hk,
      List.filter_cons_of_pos (Bool.and_eq_true_iff.1 hc).1]
    simp only [List.append_assoc]
  refine no_break hfixed hc (by decide) (hrigid ▸ hbreak) (hx.trans ?_)
  rw [countP_rigid, hu, List.append_assoc, ← hk, List.countP_append, countP_rigid,
    List.length_append, ← filter_rigid_of_unbroken hlast, countP_rigid,
    filter_rigid_of_unbroken hlast]

end Text

open Text (isFixed fixed isRigid)

theorem lasting_fixed : Lasting isFixed := by
  constructor
  · intro c hc
    by_cases hn : c = '\n'
    · simp [isFixed, hn]
    · simp [isFixed, isRigid, Text.isSoft, hc, hn]
  · decide

theorem Text.fixed_trimStart (t : Text) : fixed t.trimStart = fixed t :=
  filter_trimStart fun c _ => lasting_fixed.blank c

theorem Text.fixed_trimEnd (t : Text) : fixed t.trimEnd = fixed t :=
  filter_trimEnd fun c _ => lasting_fixed.blank c

namespace Draft

theorem fixed_collapse {style : Style} {source : Text} {d : Draft}
    (h : collapse style.quote source = .ok d) : fixed d.text = fixed source :=
  filter_collapse (quote_soft style) (fun c hc => by simp [isFixed, isRigid, hc]) (by decide)
    (by decide) h

/-- Reading drops rigid characters, and neither adds nor moves one. -/
theorem rigid_collapse {style : Style} {source : Text} {d : Draft}
    (h : collapse style.quote source = .ok d) :
    (d.text.filter isRigid).Sublist (source.filter isRigid) := by
  have hsoft : ∀ c, Text.isSoft c = true → isRigid c = false := fun c hc => by simp [isRigid, hc]
  have hs := ((collapse_pruned (quote_soft style) h).sublist.filter isRigid).reverse
  rw [Text.filter_firm hsoft, Text.filter_firm hsoft, ← List.filter_reverse,
    ← List.filter_reverse, List.reverse_reverse] at hs
  exact hs

end Draft

namespace Lines

/-- Every statement of the lines ends as the style asks. -/
def Settled (style : Style) : List Text → List LineEnd → Prop
  | t :: ts, e :: es =>
    (e = .statement → endStatement style.semi t.trimEnd ts = t.trimEnd) ∧ Settled style ts es
  | _, _ => True

/-- The form of one line whose statement has ended. -/
def layLine (style : Style) (l : Line) : List Line :=
  match l.ending with
  | .literal => [l]
  | .nested => [{ l with text := l.text.trimEnd }]
  | .statement => (wrapWide style l.text.trimEnd).map ({ l with text := · })

/-- The form of lines whose statements have ended. -/
def layLines (style : Style) : List Text → List LineEnd → List Line
  | t :: ts, e :: es => layLine style ⟨t, e⟩ ++ layLines style ts es
  | _, _ => []

/-- Lines trimmed, wrapped and assembled, without a change to their statements. -/
def lay (style : Style) (text : Text) (ends : List LineEnd) : Text :=
  assemble (layLines style (Text.splitOn '\n' text) ends)

theorem finishLine_of_settled {style : Style} {t : Text} {e : LineEnd} {following : List Text}
    (h : e = .statement → endStatement style.semi t.trimEnd following = t.trimEnd) :
    finishLine style ⟨t, e⟩ following = layLine style ⟨t, e⟩ := by
  cases e with
  | literal => rfl
  | nested => rfl
  | statement => rw [finishLine, layLine, h rfl]

theorem finishLines_of_settled {style : Style} {ts : List Text} {es : List LineEnd}
    (h : Settled style ts es) : finishLines style ts es = layLines style ts es := by
  induction ts generalizing es with
  | nil => rfl
  | cons t ts ih =>
    cases es with
    | nil => rfl
    | cons e es => rw [finishLines, layLines, finishLine_of_settled h.1, ih h.2]

theorem finish_of_settled {style : Style} {text : Text} {ends : List LineEnd}
    (h : Settled style (Text.splitOn '\n' text) ends) :
    finish style text ends = lay style text ends := by
  rw [finish, lay, finishLines_of_settled h]

theorem flatMap_finishLine_of_settled {p : Char → Bool} (hp : Lasting p) {style : Style} {t : Text}
    {e : LineEnd} {following : List Text}
    (h : e = .statement → endStatement style.semi t.trimEnd following = t.trimEnd) :
    (finishLine style ⟨t, e⟩ following).flatMap (fun l => l.text.filter p) = t.filter p :=
  flatMap_finishLine hp style ⟨t, e⟩ following fun he => by rw [h he]

theorem flatMap_finishLines_of_settled {p : Char → Bool} (hp : Lasting p) {style : Style}
    {ts : List Text} {es : List LineEnd} (h : Settled style ts es) :
    (finishLines style ts es).flatMap (fun l => l.text.filter p) =
      (ts.take es.length).flatMap (List.filter p) := by
  induction ts generalizing es with
  | nil => simp [finishLines]
  | cons t ts ih =>
    cases es with
    | nil => simp [finishLines]
    | cons e es =>
      rw [finishLines, List.flatMap_append, flatMap_finishLine_of_settled hp h.1, ih h.2,
        List.length_cons, List.take_succ_cons, List.flatMap_cons]

theorem fixed_finishStatement (style : Style) (t : Text) (following : List Text) :
    ((finishLine style ⟨t, .statement⟩ following).flatMap fun l => fixed l.text) =
      fixed (endStatement style.semi t.trimEnd following) := by
  rw [finishLine, List.flatMap_map]
  exact flatMap_wrapWide lasting_fixed style _

/-- A statement that changes its end without a semicolon has lost one. -/
theorem fixed_endStatement_lost {line : Text} {following : List Text}
    (h : endStatement false line following ≠ line) :
    fixed line = fixed (endStatement false line following) ++ [';'] := by
  rcases endStatement_cases false line following with
    hend | ⟨hsemi, -⟩ | ⟨-, -, front, rfl, hend⟩
  · exact absurd hend h
  · cases hsemi
  · rw [hend, Text.fixed_trimEnd, Text.fixed_append]
    rfl

/-- Unless all statements end as the style asks, the lines lose fixed characters. -/
theorem settled_or_loses {style : Style} (hs : style.semi = false) (ts : List Text)
    (es : List LineEnd) :
    Settled style ts es ∨
      ((finishLines style ts es).flatMap fun l => fixed l.text).length <
        ((ts.take es.length).flatMap fixed).length := by
  induction ts generalizing es with
  | nil => exact .inl trivial
  | cons t ts ih =>
    cases es with
    | nil => exact .inl trivial
    | cons e es =>
      have hlines : ((finishLines style (t :: ts) (e :: es)).flatMap fun l => fixed l.text).length =
          ((finishLine style ⟨t, e⟩ ts).flatMap fun l => fixed l.text).length +
            ((finishLines style ts es).flatMap fun l => fixed l.text).length := by
        rw [finishLines, List.flatMap_append, List.length_append]
      rw [hlines, List.length_cons, List.take_succ_cons, List.flatMap_cons, List.length_append]
      by_cases hl : e = .statement → endStatement style.semi t.trimEnd ts = t.trimEnd
      · have hkeep := flatMap_finishLine_of_settled lasting_fixed hl
        rcases ih es with h | h
        · exact .inl ⟨hl, h⟩
        · right
          simp only [fixed] at h ⊢
          rw [hkeep]
          omega
      · obtain ⟨rfl, hne⟩ := Classical.not_imp.1 hl
        have hrest : ((finishLines style ts es).flatMap fun l => fixed l.text).length ≤
            ((ts.take es.length).flatMap fixed).length := by
          rcases ih es with h | h
          · exact Nat.le_of_eq (congrArg _ (flatMap_finishLines_of_settled lasting_fixed h))
          · exact Nat.le_of_lt h
        have hline : fixed t = ((finishLine style ⟨t, .statement⟩ ts).flatMap
            fun l => fixed l.text) ++ [';'] := by
          rw [hs] at hne
          rw [fixed_finishStatement, hs, ← fixed_endStatement_lost hne, Text.fixed_trimEnd]
        right
        rw [hline, List.length_append, List.length_singleton]
        omega

theorem endStatement_gained {line : Text} {following : List Text}
    (h : endStatement true line following ≠ line) :
    isModuleDeclaration line = true ∧ endStatement true line following = line ++ [';'] := by
  rcases endStatement_cases true line following with hend | ⟨-, hmodule, hend⟩ | ⟨hsemi, -⟩
  · exact absurd hend h
  · exact ⟨hmodule, hend⟩
  · cases hsemi

theorem fixed_ne_nil_of_prefix {start : String} {t : Text} (hs : fixed start.toList ≠ [])
    (h : start.toList.isPrefixOf t.trimStart = true) : fixed t ≠ [] := by
  obtain ⟨r, hr⟩ := List.isPrefixOf_iff_prefix.1 h
  rw [← Text.fixed_trimStart, ← hr, Text.fixed_append]
  exact List.append_ne_nil_of_left_ne_nil hs _

theorem fixed_ne_nil_of_isModuleDeclaration {line : Text} (h : isModuleDeclaration line = true) :
    fixed line ≠ [] := by
  simp only [isModuleDeclaration, Bool.and_eq_true, Bool.or_eq_true] at h
  rcases h.1 with (h | h) | h
  · exact fixed_ne_nil_of_prefix (by decide) h
  · exact fixed_ne_nil_of_prefix (by decide) h
  · exact fixed_ne_nil_of_prefix (by decide) h

/-- The last line of a wide import is the end of its statement. -/
theorem exists_last_wrapWide (style : Style) (line : Text) :
    ∃ front last, wrapWide style line = front ++ [last] ∧ last <:+ line ∧
      (last = line ∨ '}' ∈ last) := by
  rcases wrapWide_cases style line with hone | ⟨i, hi, hwrap⟩
  · exact ⟨[], line, hone, List.suffix_rfl, .inl rfl⟩
  · obtain ⟨list, hline, -⟩ := ofLine?_eq_some hi
    refine ⟨_, "\x7d from ".toList ++ i.tail, hwrap, ?_, .inr (by simp)⟩
    rw [hline, ← List.append_assoc]
    exact List.suffix_append _ _

/-- A statement that gains its semicolon has it behind a fixed character of its last line. -/
theorem exists_gained {style : Style} {t : Text} {following : List Text} (hs : style.semi = true)
    (hn : '\n' ∉ t) (h : endStatement style.semi t.trimEnd following ≠ t.trimEnd) :
    ∃ front last, finishLine style ⟨t, .statement⟩ following =
        front ++ [⟨last ++ [';'], .statement⟩] ∧
      '\n' ∉ last ∧ fixed last ≠ [] ∧
      (front.flatMap fun l => fixed l.text) ++ fixed last = fixed t := by
  rw [hs] at h
  obtain ⟨hm, hgain⟩ := endStatement_gained h
  obtain ⟨front, last, hwrap, hsuffix, hlast⟩ := exists_last_wrapWide style (t.trimEnd ++ [';'])
  have hline : finishLine style ⟨t, .statement⟩ following =
      (front ++ [last]).map fun u => ⟨u, .statement⟩ := by
    rw [finishLine, hs, hgain, hwrap]
  have hne : last ≠ [] := by
    rintro rfl
    rcases hlast with h | h
    · exact absurd h (by simp)
    · cases h
  obtain ⟨body, rfl, hbody⟩ := (List.suffix_concat_iff.1 hsuffix).resolve_left hne
  refine ⟨front.map fun u => ⟨u, .statement⟩, body, ?_, ?_, ?_, ?_⟩
  · rw [hline, List.map_append]
    rfl
  · exact fun h => hn (Text.mem_of_mem_trimEnd (hbody.subset h))
  · rcases hlast with h | h
    · rw [List.append_cancel_right h]
      exact fixed_ne_nil_of_isModuleDeclaration hm
    · have hb : '}' ∈ fixed body := List.mem_filter.2 ⟨by simpa using h, by decide⟩
      exact List.ne_nil_of_mem hb
  · have hkeep := fixed_finishStatement style t following
    rw [hs, hgain, hline, List.map_append, List.flatMap_append, Text.fixed_append,
      Text.fixed_trimEnd] at hkeep
    simp only [List.map_cons, List.map_nil, List.flatMap_cons, List.flatMap_nil, List.append_nil,
      Text.fixed_append, ← List.append_assoc] at hkeep
    exact List.append_cancel_right hkeep

/-- The first semicolon that finishing adds to lines. -/
structure Gain (style : Style) (ts : List Text) (es : List LineEnd) where
  /-- The lines up to the statement that gains the semicolon. -/
  done : List Text
  rest : List Text
  /-- The finished lines ahead of the one with the semicolon. -/
  front : List Line
  /-- What stands ahead of the semicolon in its line. -/
  last : Text
  back : List Line
  lines : ts = done ++ rest
  done_ne_nil : done ≠ []
  finished : finishLines style ts es = front ++ ⟨last ++ [';'], .statement⟩ :: back
  unbroken : '\n' ∉ last
  fixed_ne_nil : fixed last ≠ []
  kept : (front.flatMap fun l => fixed l.text) ++ fixed last = done.flatMap fixed

theorem settled_or_gains {style : Style} (hs : style.semi = true) {ts : List Text}
    (hn : ∀ t ∈ ts, '\n' ∉ t) (es : List LineEnd) :
    Settled style ts es ∨ Nonempty (Gain style ts es) := by
  induction ts generalizing es with
  | nil => exact .inl trivial
  | cons t ts ih =>
    cases es with
    | nil => exact .inl trivial
    | cons e es =>
      by_cases hl : e = .statement → endStatement style.semi t.trimEnd ts = t.trimEnd
      · rcases ih (fun u hu => hn u (List.mem_cons_of_mem t hu)) es with h | h
        · exact .inl ⟨hl, h⟩
        · obtain ⟨g⟩ := h
          have hkeep := flatMap_finishLine_of_settled lasting_fixed hl
          refine .inr ⟨⟨t :: g.done, g.rest, finishLine style ⟨t, e⟩ ts ++ g.front, g.last, g.back,
            ?_, List.cons_ne_nil _ _, ?_, g.unbroken, g.fixed_ne_nil, ?_⟩⟩
          · rw [List.cons_append, ← g.lines]
          · rw [finishLines, g.finished, List.append_assoc]
          · rw [List.flatMap_append, List.append_assoc, g.kept, List.flatMap_cons]
            exact congrArg (· ++ g.done.flatMap fixed) hkeep
      · obtain ⟨rfl, hne⟩ := Classical.not_imp.1 hl
        obtain ⟨front, last, hline, hunbroken, hfixed, hkept⟩ :=
          exists_gained hs (hn t List.mem_cons_self) hne
        refine .inr ⟨⟨[t], ts, front, last, finishLines style ts es, rfl, List.cons_ne_nil _ _, ?_,
          hunbroken, hfixed, ?_⟩⟩
        · rw [finishLines, hline, List.append_assoc]
          rfl
        · rw [hkept, List.flatMap_singleton]

end Lines

end ProjectSetup
