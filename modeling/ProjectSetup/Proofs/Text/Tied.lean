import Mathlib.Data.List.Basic
import Mathlib.Data.List.Induction
import ProjectSetup.Text.Basic

/-!
# Tied texts

A text in which the characters of each literal are tied to one another. What changes the text but
puts nothing between tied characters and drops none of them keeps the literals, in their order.
-/
namespace ProjectSetup

/-- The pieces stand in the text one behind the other, each of them whole. -/
inductive Text.InOrder : List Text → Text → Prop where
  | nil (t : Text) : InOrder [] t
  | cons (gap piece : Text) {ps : List Text} {t : Text} :
      InOrder ps t → InOrder (piece :: ps) (gap ++ piece ++ t)

theorem Text.InOrder.isInfix {p : Text} {ps : List Text} {t : Text} (h : InOrder (p :: ps) t) :
    p <:+: t := by
  cases h with
  | cons gap piece h => exact ⟨gap, _, rfl⟩

theorem Text.InOrder.append_left {ps : List Text} {t : Text} (h : InOrder ps t) (u : Text) :
    InOrder ps (u ++ t) := by
  cases h with
  | nil => exact .nil _
  | cons gap piece h =>
    rw [← List.append_assoc, ← List.append_assoc]
    exact .cons (u ++ gap) piece h

theorem Text.InOrder.append_right {ps : List Text} {t : Text} (h : InOrder ps t) (u : Text) :
    InOrder ps (t ++ u) := by
  induction h with
  | nil => exact .nil _
  | cons gap piece _ ih =>
    rw [List.append_assoc]
    exact .cons gap piece ih

theorem Text.InOrder.concat {ps : List Text} {t : Text} (h : InOrder ps t) (gap piece : Text) :
    InOrder (ps ++ [piece]) (t ++ (gap ++ piece)) := by
  induction h with
  | nil t =>
    have hone := InOrder.cons (t ++ gap) piece (.nil [])
    simpa using hone
  | cons gap' piece' _ ih =>
    rw [List.append_assoc]
    exact .cons gap' piece' ih

/-- A text in which a character may be tied to the one before it. -/
abbrev TiedText := List (Char × Bool)

namespace TiedText

def text (m : TiedText) : Text := m.map (·.1)

/-- The characters that may stand ahead of the first tie of a literal. -/
def opens (c : Char) : Bool := ['\'', '"', '\x60', '/', '}'].contains c

/-- The characters that may end a literal. -/
def closes (c : Char) : Bool := ['\'', '"', '\x60', '/', '{'].contains c

/-- A character and the text that is tied to it. -/
def block (c : Char) (w : Text) : TiedText := (c, false) :: w.map (·, true)

/-- A text, last character first, in which the literals are tied, last literal first. -/
inductive Holds : TiedText → List Text → Prop where
  | nil : Holds [] []
  | free (c : Char) {m : TiedText} {ls : List Text} : Holds m ls → Holds ((c, false) :: m) ls
  | literal {c x : Char} {w body : Text} {m : TiedText} {ls : List Text} : Holds m ls →
      opens c = true → closes x = true → body <:+: c :: (w ++ [x]) →
        Holds ((block c (w ++ [x])).reverse ++ m) (body :: ls)

theorem Holds.append {m : TiedText} {ls : List Text} (h : Holds m ls) (t : Text) :
    Holds (t.map (·, false) ++ m) ls := by
  induction t with
  | nil => exact h
  | cons c t ih => exact ih.free c

/-- Characters at the end that end no literal are free. -/
theorem Holds.drop {m : TiedText} {ls : List Text} (h : Holds m ls) {n : Nat}
    (hn : ∀ p ∈ m.take n, closes p.1 = false) :
    Holds (m.drop n) ls ∧ ∀ p ∈ m.take n, p.2 = false := by
  induction n generalizing m with
  | zero => exact ⟨h, by simp⟩
  | succ n ih =>
    cases h with
    | nil => exact ⟨.nil, by simp⟩
    | free c hm =>
      rw [List.take_succ_cons, List.forall_mem_cons] at hn ⊢
      obtain ⟨hdrop, hfree⟩ := ih hm hn.2
      exact ⟨hdrop, rfl, hfree⟩
    | @literal c x w body m ls hm hc hx hbody =>
      have hlast := hn (x, true) (by simp [block])
      rw [hx] at hlast
      cases hlast

theorem zip_replicate (t : Text) (b : Bool) : t.zip (List.replicate t.length b) = t.map (·, b) := by
  induction t with
  | nil => rfl
  | cons c t ih =>
    rw [List.length_cons, List.replicate_succ, List.zip_cons_cons, ih]
    rfl

/-- The ties of the line breaks. -/
def breakTies (m : TiedText) : List Bool := (m.filter (·.1 == '\n')).map (·.2)

theorem breakTies_append (m l : TiedText) : breakTies (m ++ l) = breakTies m ++ breakTies l := by
  rw [breakTies, List.filter_append, List.map_append]
  rfl

theorem breakTies_map (t : Text) (b : Bool) :
    breakTies (t.map (·, b)) = List.replicate (t.count '\n') b := by
  induction t with
  | nil => rfl
  | cons c t ih =>
    rw [breakTies] at ih
    by_cases hc : c = '\n'
    · rw [hc, breakTies, List.map_cons, List.filter_cons_of_pos (by rfl), List.map_cons, ih,
        List.count_cons_self]
      rfl
    · rw [breakTies, List.map_cons, List.filter_cons_of_neg (by simpa using hc), ih,
        List.count_cons_of_ne hc]

theorem breakTies_of_not_mem {m : TiedText} (h : ∀ p ∈ m, p.1 ≠ '\n') : breakTies m = [] := by
  rw [breakTies, List.filter_eq_nil_iff.2 (by simpa using h), List.map_nil]

theorem opens_ne_newline {c : Char} (h : opens c = true) : c ≠ '\n' := by
  rintro rfl
  cases h

theorem closes_ne_newline {c : Char} (h : closes c = true) : c ≠ '\n' := by
  rintro rfl
  cases h

theorem breakTies_block {c x : Char} (hc : opens c = true) (hx : closes x = true) (w : Text) :
    breakTies (block c (w ++ [x])).reverse = List.replicate (w.count '\n') true := by
  have hblock : (block c (w ++ [x])).reverse =
      (w ++ [x]).reverse.map (·, true) ++ [(c, false)] := by simp [block]
  have hone : breakTies [(c, false)] = [] :=
    breakTies_of_not_mem (by simpa using opens_ne_newline hc)
  have hlast : '\n' ∉ [x] := by simpa using (closes_ne_newline hx).symm
  rw [hblock, breakTies_append, breakTies_map, hone, List.append_nil, List.count_reverse,
    List.count_append, List.count_eq_zero.2 hlast, Nat.add_zero]

/-- Whether the first character is tied to one before the text. -/
def tiedHead (m : TiedText) : Bool := m.head?.any (·.2)

/-- The second text is the first one with free characters dropped and others put in, none of them
within what is tied. -/
inductive Kept : TiedText → Text → Prop where
  | nil : Kept [] []
  | keep (p : Char × Bool) {m : TiedText} {t : Text} : Kept m t → Kept (p :: m) (p.1 :: t)
  | drop (c : Char) {m : TiedText} {t : Text} : tiedHead m = false → Kept m t →
      Kept ((c, false) :: m) t
  | put (c : Char) {m : TiedText} {t : Text} : tiedHead m = false → Kept m t → Kept m (c :: t)

variable {m l : TiedText} {t u : Text} {ls : List Text} {c x : Char}

theorem tiedHead_append (h : tiedHead l = false) (hm : tiedHead m = false) :
    tiedHead (m ++ l) = false := by
  cases m with
  | nil => exact h
  | cons p m => exact hm

theorem tiedHead_left (h : tiedHead (m ++ l) = false) : tiedHead m = false := by
  cases m with
  | nil => rfl
  | cons p m => exact h

theorem tiedHead_of_free (h : ∀ p ∈ m, p.2 = false) : tiedHead m = false := by
  cases m with
  | nil => rfl
  | cons p m => exact h p List.mem_cons_self

namespace Kept

theorem append (h : Kept m t) (h' : Kept l u) (hl : tiedHead l = false) :
    Kept (m ++ l) (t ++ u) := by
  induction h with
  | nil => exact h'
  | keep p _ ih => exact ih.keep p
  | drop c hm _ ih => exact ih.drop c (tiedHead_append hl hm)
  | put c hm _ ih => exact ih.put c (tiedHead_append hl hm)

/-- A text is kept in front of what is kept, tied to it or not. -/
theorem prepend (h : Kept l u) (m : TiedText) : Kept (m ++ l) (m.text ++ u) := by
  induction m with
  | nil => exact h
  | cons p m ih => exact ih.keep p

theorem refl (m : TiedText) : Kept m m.text := by
  have h := nil.prepend m
  rwa [List.append_nil, List.append_nil] at h

theorem of_free (h : ∀ p ∈ m, p.2 = false) : Kept m [] := by
  induction m with
  | nil => exact .nil
  | cons p m ih =>
    obtain ⟨c, b⟩ := p
    rw [List.forall_mem_cons] at h
    obtain rfl : b = false := h.1
    exact (ih h.2).drop c (tiedHead_of_free h.2)

/-- Free characters at the end are dropped. -/
theorem append_free (h : Kept m t) (hl : ∀ p ∈ l, p.2 = false) : Kept (m ++ l) t := by
  have hkept := h.append (of_free hl) (tiedHead_of_free hl)
  rwa [List.append_nil] at hkept

theorem put_all (h : Kept m t) (hm : tiedHead m = false) (u : Text) : Kept m (u ++ t) := by
  induction u with
  | nil => exact h
  | cons c u ih => exact ih.put c hm

/-- Nothing is left only of a text in which all is free. -/
theorem free_of_nil (h : Kept m []) : ∀ p ∈ m, p.2 = false := by
  generalize ht : ([] : Text) = t at h
  induction h with
  | nil => exact fun p hp => by cases hp
  | keep p _ _ => cases ht
  | drop c _ _ ih => exact List.forall_mem_cons.2 ⟨rfl, ih ht⟩
  | put c _ _ _ => cases ht

theorem exists_of_tied {w : Text} (h : Kept (w.map (·, true) ++ l) t) :
    ∃ v, t = w ++ v ∧ Kept l v := by
  induction w generalizing t with
  | nil => exact ⟨t, rfl, h⟩
  | cons c w ih =>
    rw [List.map_cons, List.cons_append] at h
    cases h with
    | keep p h =>
      obtain ⟨v, rfl, hv⟩ := ih h
      exact ⟨v, rfl, hv⟩
    | put c hm _ => cases hm

/-- What is tied is kept whole. -/
theorem exists_of_block {w : Text} (h : Kept (block c (w ++ [x]) ++ l) t) :
    ∃ u v, t = u ++ (c :: (w ++ [x])) ++ v ∧ Kept l v := by
  rw [block, List.cons_append] at h
  generalize hm : (c, false) :: ((w ++ [x]).map (·, true) ++ l) = m at h
  induction h with
  | nil => cases hm
  | keep p h _ =>
    cases hm
    obtain ⟨v, rfl, hv⟩ := exists_of_tied h
    exact ⟨[], v, rfl, hv⟩
  | drop c' hm' _ _ =>
    cases hm
    cases w <;> cases hm'
  | put c' _ _ ih =>
    obtain ⟨u, v, rfl, hv⟩ := ih hm
    exact ⟨c' :: u, v, rfl, hv⟩

theorem exists_of_free (h : Kept ((c, false) :: l) t) :
    ∃ u v, t = u ++ v ∧ Kept l v := by
  generalize hm : (c, false) :: l = m at h
  induction h with
  | nil => cases hm
  | @keep p m t h _ =>
    cases hm
    exact ⟨[c], t, rfl, h⟩
  | @drop c' m t _ h _ =>
    cases hm
    exact ⟨[], t, rfl, h⟩
  | put c' _ _ ih =>
    obtain ⟨u, v, rfl, hv⟩ := ih hm
    exact ⟨c' :: u, v, rfl, hv⟩

end Kept

/-- The literals of a text stand in what is kept of it. -/
theorem Holds.exists_inOrder (h : Holds m ls) (hkept : Kept (m.reverse ++ l) t) :
    ∃ u v, t = u ++ v ∧ Text.InOrder ls.reverse u ∧ Kept l v := by
  induction h generalizing l t with
  | nil => exact ⟨[], t, rfl, .nil [], hkept⟩
  | free c _ ih =>
    rw [List.reverse_cons, List.append_assoc, List.singleton_append] at hkept
    obtain ⟨u, v, rfl, horder, hv⟩ := ih (l := (c, false) :: l) hkept
    obtain ⟨u', v', rfl, hv'⟩ := hv.exists_of_free
    exact ⟨u ++ u', v', by simp, horder.append_right u', hv'⟩
  | @literal c x w body m ls _ hc hx hbody ih =>
    rw [List.reverse_append, List.reverse_reverse, List.append_assoc] at hkept
    obtain ⟨u, v, rfl, horder, hv⟩ := ih (l := block c (w ++ [x]) ++ l) hkept
    obtain ⟨u', v', rfl, hv'⟩ := hv.exists_of_block
    obtain ⟨s, s', hs⟩ := hbody
    refine ⟨u ++ (u' ++ (c :: (w ++ [x]))), v', by simp, ?_, hv'⟩
    rw [List.reverse_cons, ← hs]
    have hconcat := (horder.concat (u' ++ s) body).append_right s'
    simpa [List.append_assoc] using hconcat

/-- Ties begin behind a mark that opens a literal, and end with one that closes it. -/
def Sound : TiedText → Prop
  | [] => True
  | p :: m => (p.2 = true → tiedHead m = false → closes p.1 = true) ∧
      (p.2 = false → tiedHead m = true → opens p.1 = true) ∧ Sound m

theorem Sound.right (h : Sound (m ++ l)) : Sound l := by
  induction m with
  | nil => exact h
  | cons p m ih => exact ih h.2.2

theorem Sound.left (h : Sound (m ++ l)) (hl : tiedHead l = false) : Sound m := by
  induction m with
  | nil => trivial
  | cons p m ih =>
    have hhead : tiedHead m = tiedHead (m ++ l) := by
      cases m with
      | nil => exact hl.symm
      | cons q m => rfl
    exact ⟨hhead ▸ h.1, hhead ▸ h.2.1, ih h.2.2⟩

theorem sound_tied {w : Text} (hx : closes x = true) (hl : Sound l) :
    Sound ((w ++ [x]).map (·, true) ++ l) := by
  induction w with
  | nil => exact ⟨fun _ _ => hx, fun h => Bool.noConfusion h, hl⟩
  | cons c w ih =>
    have hhead : tiedHead ((w ++ [x]).map (·, true) ++ l) = true := by cases w <;> rfl
    exact ⟨fun _ h => absurd (hhead.symm.trans h) (by decide), fun h => Bool.noConfusion h, ih⟩

theorem Holds.sound (h : Holds m ls) (hl : Sound l) (ht : tiedHead l = false) :
    Sound (m.reverse ++ l) ∧ tiedHead (m.reverse ++ l) = false := by
  induction h generalizing l with
  | nil => exact ⟨hl, ht⟩
  | free c _ ih =>
    rw [List.reverse_cons, List.append_assoc, List.singleton_append]
    exact ih ⟨fun h => Bool.noConfusion h, fun _ h => absurd (ht.symm.trans h) (by decide), hl⟩ rfl
  | @literal c x w body m ls _ hc hx hbody ih =>
    rw [List.reverse_append, List.reverse_reverse, List.append_assoc]
    exact ih ⟨fun h => Bool.noConfusion h, fun _ _ => hc, sound_tied hx hl⟩ rfl

/-- Behind a free beginning, nothing is tied up to a mark that opens a literal. -/
theorem Sound.free_of_opens (h : Sound (m ++ l)) (hhead : tiedHead (m ++ l) = false)
    (hm : ∀ c ∈ m.text, opens c = false) : (∀ p ∈ m, p.2 = false) ∧ tiedHead l = false := by
  induction m with
  | nil => exact ⟨by simp, hhead⟩
  | cons p m ih =>
    have hp : p.2 = false := hhead
    have hmark : opens p.1 = false := hm p.1 List.mem_cons_self
    have hnext : tiedHead (m ++ l) = false := by
      rw [← Bool.not_eq_true]
      exact fun ht => absurd (h.2.1 hp ht) (by simp [hmark])
    obtain ⟨hfree, hl⟩ := ih h.2.2 hnext fun c hc => hm c (List.mem_cons_of_mem _ hc)
    exact ⟨List.forall_mem_cons.2 ⟨hp, hfree⟩, hl⟩

/-- Ahead of a free end, nothing is tied down to a mark that closes a literal. -/
theorem Sound.free_of_closes {s : TiedText} (h : Sound (m ++ s))
    (hs : ∀ c ∈ s.text, closes c = false) : (∀ p ∈ s, p.2 = false) ∧ Sound m := by
  induction s using List.reverseRecOn with
  | nil =>
    rw [List.append_nil] at h
    exact ⟨by simp, h⟩
  | append_singleton s p ih =>
    rw [← List.append_assoc] at h
    have hmark : closes p.1 = false := hs p.1 (by simp [text])
    have hp : p.2 = false := by
      rw [← Bool.not_eq_true]
      exact fun ht => absurd (h.right.1 ht rfl) (by simp [hmark])
    obtain ⟨hfree, hm⟩ := ih (h.left hp) fun c hc => hs c (by
      rw [text, List.map_append]
      exact List.mem_append_left _ hc)
    refine ⟨fun q hq => ?_, hm⟩
    rcases List.mem_append.1 hq with hq | hq
    · exact hfree q hq
    · rw [List.mem_singleton.1 hq]
      exact hp

@[simp] theorem text_nil : text [] = [] := rfl

@[simp] theorem text_cons (p : Char × Bool) (m : TiedText) : text (p :: m) = p.1 :: m.text := rfl

@[simp] theorem text_append (m l : TiedText) : text (m ++ l) = m.text ++ l.text := List.map_append

theorem exists_of_text_append (h : m.text = t ++ u) :
    ∃ a b, m = a ++ b ∧ a.text = t ∧ b.text = u := List.map_eq_append_iff.1 h

theorem exists_of_text_cons (h : m.text = c :: t) :
    ∃ b, ∃ l : TiedText, m = (c, b) :: l ∧ l.text = t := by
  cases m with
  | nil => cases h
  | cons p l =>
    cases h
    exact ⟨p.2, l, rfl, rfl⟩

/-- The pieces between separators. -/
def split (sep : Char) : TiedText → List TiedText
  | [] => [[]]
  | p :: m =>
    if p.1 = sep then [] :: split sep m
    else match split sep m with
      | [] => [[p]]
      | k :: ks => (p :: k) :: ks

variable {sep : Char}

theorem map_text_split (sep : Char) (m : TiedText) :
    (split sep m).map text = Text.splitOn sep m.text := by
  induction m with
  | nil => rfl
  | cons p m ih =>
    rw [split, text_cons, Text.splitOn, ← ih]
    split
    · rfl
    · cases split sep m <;> rfl

theorem split_of_not_mem (h : sep ∉ m.text) : split sep m = [m] := by
  induction m with
  | nil => rfl
  | cons p m ih =>
    rw [text_cons, List.mem_cons, not_or] at h
    rw [split, if_neg (Ne.symm h.1), ih h.2]

theorem split_append_cons {a : TiedText} (ha : sep ∉ a.text) (b : Bool) (m : TiedText) :
    split sep (a ++ (sep, b) :: m) = a :: split sep m := by
  induction a with
  | nil => rw [List.nil_append, split, if_pos rfl]
  | cons p a ih =>
    rw [text_cons, List.mem_cons, not_or] at ha
    rw [List.cons_append, split, if_neg (Ne.symm ha.1), ih ha.2]

/-- A text has no separator, or a first one. -/
theorem exists_split (sep : Char) (m : TiedText) :
    sep ∉ m.text ∨ ∃ (a : TiedText) (b : Bool) (l : TiedText),
      m = a ++ (sep, b) :: l ∧ sep ∉ a.text := by
  induction m with
  | nil => exact .inl List.not_mem_nil
  | cons p m ih =>
    by_cases hp : p.1 = sep
    · exact .inr ⟨[], p.2, m, by rw [← hp]; rfl, List.not_mem_nil⟩
    · rcases ih with h | ⟨a, b, l, rfl, ha⟩
      · exact .inl (by simp [h, Ne.symm hp])
      · exact .inr ⟨p :: a, b, l, rfl, by simp [ha, Ne.symm hp]⟩

end TiedText

end ProjectSetup
