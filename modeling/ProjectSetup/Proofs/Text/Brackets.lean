import Mathlib.Data.List.Induction
import ProjectSetup.Proofs.Text.Firm

/-!
# Brackets

A text is balanced if every bracket in it is paired with one of its own kind. A closing bracket is
stray if it does not close the innermost bracket that is open before it. The pairing of a text,
which keeps the open brackets on a stack with their lines, stops at the first stray bracket, and
otherwise leaves those that are open at the end, the innermost on top.
-/
namespace ProjectSetup.Text

/-- The bracket that closes an opening one. -/
def closerOf? (c : Char) : Option Char :=
  if c = '(' then some ')' else if c = '[' then some ']' else if c = '{' then some '}' else none

inductive Balanced : Text → Prop where
  | nil : Balanced []
  | plain {c : Char} {t : Text} : closerOf? c = none → isCloser c = false → Balanced t →
    Balanced (c :: t)
  | nest {o c : Char} {s t : Text} : closerOf? o = some c → Balanced s → Balanced t →
    Balanced (o :: s ++ c :: t)

/-- At the end of the text, `o` is the innermost open bracket, and it stands on line `n`. -/
def Innermost (t : Text) (o : Char) (n : Nat) : Prop :=
  ∃ front inner, t = front ++ o :: inner ∧ (closerOf? o).isSome ∧ Balanced inner ∧
    n = 1 + front.count '\n'

/-- The closing bracket `c` after `front` is not that of the innermost open one. -/
def Stray (front : Text) (c : Char) : Prop :=
  isCloser c = true ∧ ∀ o n, Innermost front o n → closerOf? o ≠ some c

/-- No closing bracket of the text is stray. -/
def Matched (t : Text) : Prop := ∀ front c, front ++ [c] <+: t → ¬ Stray front c

theorem closer_of_closerOf? {o c : Char} (h : closerOf? o = some c) :
    isCloser c = true ∧ closerOf? c = none := by
  unfold closerOf? at h
  split_ifs at h <;> cases h <;> decide

namespace Balanced

theorem append {s t : Text} (hs : Balanced s) (ht : Balanced t) : Balanced (s ++ t) := by
  induction hs with
  | nil => exact ht
  | plain hopen hclose _ ih => exact .plain hopen hclose ih
  | nest hpair hinner _ _ ih =>
    rw [List.append_assoc, List.cons_append]
    exact .nest hpair hinner ih

theorem of_plain {t : Text} (h : ∀ c ∈ t, closerOf? c = none ∧ isCloser c = false) :
    Balanced t := by
  induction t with
  | nil => exact .nil
  | cons c t ih =>
    obtain ⟨⟨hopen, hclose⟩, ht⟩ := List.forall_mem_cons.1 h
    exact .plain hopen hclose (ih ht)

end Balanced

/-- Whether the character is a bracket of either kind. -/
def isBracket (c : Char) : Bool := (closerOf? c).isSome || isCloser c

theorem isBracket_iff {c : Char} :
    isBracket c = true ↔ c ∈ ['(', '[', '{', ')', ']', '}'] := by
  unfold isBracket closerOf? isCloser
  split_ifs with hparen hbracket hbrace
  all_goals simp_all [or_assoc]

/-- Only the brackets of a text decide whether it is balanced. -/
theorem balanced_filter_iff {t : Text} : Balanced (t.filter isBracket) ↔ Balanced t := by
  constructor
  · generalize hs : t.filter isBracket = s
    intro h
    induction h generalizing t with
    | nil =>
      refine .of_plain fun c hc => ?_
      have hno := List.filter_eq_nil_iff.1 hs c hc
      simpa [isBracket] using hno
    | @plain c s hopen hclose _ _ =>
      have hc : isBracket c = true := (List.mem_filter.1 (hs ▸ List.mem_cons_self)).2
      simp [isBracket, hopen, hclose] at hc
    | @nest o c inner s hpair _ _ ihinner ihs =>
      obtain ⟨u, v, rfl, hu, -, hv⟩ := List.filter_eq_cons_iff.1 hs
      obtain ⟨w, r, rfl, hw, hr⟩ := List.filter_eq_append_iff.1 hv
      obtain ⟨x, y, rfl, hx, -, hy⟩ := List.filter_eq_cons_iff.1 hr
      have hplain {u : Text} (hu : ∀ c ∈ u, ¬isBracket c = true) : Balanced u :=
        .of_plain fun c hc => by simpa [isBracket] using hu c hc
      have hinner : Balanced (w ++ x) := (ihinner hw).append (hplain hx)
      have hsplit : o :: (w ++ (x ++ c :: y)) = o :: (w ++ x) ++ c :: y := by simp
      rw [hsplit]
      exact (hplain hu).append (.nest hpair hinner (ihs hy))
  · intro h
    induction h with
    | nil => exact .nil
    | plain hopen hclose _ ih => rwa [List.filter_cons_of_neg (by simp [isBracket, hopen, hclose])]
    | @nest o c s t hpair _ _ ihs iht =>
      have ho : isBracket o = true := by simp [isBracket, hpair]
      have hc : isBracket c = true := by simp [isBracket, (closer_of_closerOf? hpair).1]
      rw [List.filter_append, List.filter_cons_of_pos ho, List.filter_cons_of_pos hc]
      exact .nest hpair ihs iht

/-- The open brackets after `c` on line `n`, or the bracket that is stray. -/
def pair (n : Nat) (stack : List (Char × Nat)) (c : Char) :
    Except (Char × Nat) (List (Char × Nat)) :=
  if (closerOf? c).isSome then .ok ((c, n) :: stack)
  else if isCloser c then
    match stack with
    | (o, _) :: stack => if closerOf? o = some c then .ok stack else .error (c, n)
    | [] => .error (c, n)
  else .ok stack

/-- The open brackets after a text that begins on line `n`, or the first bracket that is stray. -/
def pairs (n : Nat) (stack : List (Char × Nat)) : Text → Except (Char × Nat) (List (Char × Nat))
  | [] => .ok stack
  | c :: t => do
    let stack ← pair n stack c
    pairs (n + [c].count '\n') stack t

variable {n : Nat} {stack : List (Char × Nat)} {c o : Char} {t : Text}

theorem pair_opener (h : (closerOf? c).isSome) : pair n stack c = .ok ((c, n) :: stack) := if_pos h

theorem pair_plain (hopen : closerOf? c = none) (hclose : isCloser c = false) :
    pair n stack c = .ok stack := by
  simp [pair, hopen, hclose]

theorem pair_closer (h : isCloser c = true) : pair n stack c = match stack with
    | (o, _) :: stack => if closerOf? o = some c then .ok stack else .error (c, n)
    | [] => .error (c, n) := by
  have hopen : closerOf? c = none := by
    simp only [isCloser, Bool.or_eq_true, beq_iff_eq] at h
    rcases h with (rfl | rfl) | rfl <;> decide
  simp [pair, hopen, h]

theorem pair_closing (h : closerOf? o = some c) (m : Nat) : pair n ((o, m) :: stack) c = .ok stack := by
  rw [pair_closer (closer_of_closerOf? h).1]
  exact if_pos h

theorem pairs_cons_of_pair {left : List (Char × Nat)} (h : pair n stack c = .ok left) (hc : c ≠ '\n')
    (t : Text) : pairs n stack (c :: t) = pairs n left t := by
  rw [pairs, h, List.count_singleton, if_neg (by simpa using hc)]
  rfl

theorem pairs_cons_of_error {e : Char × Nat} (h : pair n stack c = .error e) (t : Text) :
    pairs n stack (c :: t) = .error e := by
  rw [pairs, h]
  rfl

theorem pairs_append (n : Nat) (stack : List (Char × Nat)) (s t : Text) :
    pairs n stack (s ++ t) =
      (pairs n stack s >>= fun stack => pairs (n + s.count '\n') stack t) := by
  induction s generalizing n stack with
  | nil => rfl
  | cons c s ih =>
    have hcount : n + [c].count '\n' + s.count '\n' = n + (c :: s).count '\n' := by
      rw [Nat.add_assoc, ← List.count_append, List.singleton_append]
    rw [List.cons_append, pairs, pairs, bind_assoc]
    simp only [ih, hcount]

theorem pairs_concat (n : Nat) (stack : List (Char × Nat)) (t : Text) (c : Char) :
    pairs n stack (t ++ [c]) =
      (pairs n stack t >>= fun stack => pair (n + t.count '\n') stack c) := by
  have hlast (n : Nat) (stack : List (Char × Nat)) : pairs n stack [c] = pair n stack c :=
    bind_pure _
  simp only [pairs_append, hlast]

/-- A balanced text leaves the open brackets as they were. -/
theorem pairs_of_balanced (h : Balanced t) (n : Nat) (stack : List (Char × Nat)) :
    pairs n stack t = .ok stack := by
  induction h generalizing n stack with
  | nil => rfl
  | plain hopen hclose _ ih =>
    rw [pairs, pair_plain hopen hclose]
    exact ih _ _
  | nest hpair _ _ ihs iht =>
    rw [List.cons_append, pairs, pair_opener (by rw [hpair]; rfl)]
    refine (pairs_append _ _ _ _).trans ?_
    rw [ihs]
    change pairs _ ((_, n) :: stack) (_ :: _) = _
    rw [pairs, pair_closing hpair]
    exact iht _ _

/-- The brackets of a stack are open at the end of a text, with nothing but balanced texts between
them. -/
inductive Leaves : Text → List (Char × Nat) → Prop where
  | balanced {t : Text} : Balanced t → Leaves t []
  | opened {t u : Text} {o : Char} {stack : List (Char × Nat)} : Leaves t stack →
    (closerOf? o).isSome → Balanced u → Leaves (t ++ o :: u) ((o, 1 + t.count '\n') :: stack)

namespace Leaves

theorem append_balanced {u : Text} (h : Leaves t stack) (hu : Balanced u) :
    Leaves (t ++ u) stack := by
  cases h with
  | balanced ht => exact .balanced (ht.append hu)
  | opened ht ho hinner =>
    rw [List.append_assoc, List.cons_append]
    exact .opened ht ho (hinner.append hu)

theorem closed (h : Leaves t ((o, n) :: stack)) (hpair : closerOf? o = some c) :
    Leaves (t ++ [c]) stack := by
  cases h with
  | opened ht _ hinner =>
    rw [List.append_assoc, List.cons_append]
    exact ht.append_balanced (.nest hpair hinner .nil)

theorem innermost (h : Leaves t ((o, n) :: stack)) : Innermost t o n := by
  cases h with
  | opened ht ho hinner => exact ⟨_, _, rfl, ho, hinner, rfl⟩

theorem of_balanced (h : Leaves t []) : Balanced t := by
  cases h with
  | balanced h => exact h

end Leaves

/-- By induction on the text from its end: each bracket changes the top of the stack only. -/
theorem leaves_of_pairs (h : pairs 1 [] t = .ok stack) : Leaves t stack := by
  induction t using List.reverseRecOn generalizing stack with
  | nil =>
    cases h
    exact .balanced .nil
  | append_singleton t c ih =>
    rw [pairs_concat] at h
    cases hp : pairs 1 [] t with
    | error e =>
      rw [hp] at h
      cases h
    | ok before =>
      have ht := ih hp
      rw [hp] at h
      have h : pair (1 + t.count '\n') before c = .ok stack := h
      by_cases hopen : (closerOf? c).isSome
      · rw [pair_opener hopen] at h
        cases h
        exact .opened ht hopen .nil
      have hopen : closerOf? c = none := by simpa using hopen
      cases hclose : isCloser c with
      | false =>
        rw [pair_plain hopen hclose] at h
        cases h
        exact ht.append_balanced (.plain hopen hclose .nil)
      | true =>
        rw [pair_closer hclose] at h
        split at h
        · split at h
          · next hpair =>
            cases h
            exact ht.closed hpair
          · cases h
        · cases h

theorem balanced_iff : Balanced t ↔ pairs 1 [] t = .ok [] :=
  ⟨fun h => pairs_of_balanced h 1 [], fun h => (leaves_of_pairs h).of_balanced⟩

/-- Where no bracket is stray, the innermost open bracket is on top. -/
theorem innermost_iff (h : pairs 1 [] t = .ok stack) :
    Innermost t o n ↔ stack.head? = some (o, n) := by
  constructor
  · rintro ⟨front, inner, rfl, ho, hinner, rfl⟩
    rw [pairs_append] at h
    cases hp : pairs 1 [] front with
    | error e =>
      rw [hp] at h
      cases h
    | ok before =>
      rw [hp] at h
      have h : (pair (1 + front.count '\n') before o >>= fun stack =>
        pairs (1 + front.count '\n' + [o].count '\n') stack inner) = .ok stack := h
      rw [pair_opener ho] at h
      have h := (pairs_of_balanced hinner _ _).symm.trans h
      cases h
      rfl
  · intro hhead
    cases stack with
    | nil => cases hhead
    | cons top stack =>
      cases hhead
      exact (leaves_of_pairs h).innermost

/-- Pairing stops at `c` iff it is stray. -/
theorem pair_eq_error_iff (h : pairs 1 [] t = .ok stack) {e : Char × Nat} :
    pair n stack c = .error e ↔ Stray t c ∧ e = (c, n) := by
  cases hclose : isCloser c with
  | false =>
    refine iff_of_false (fun h => ?_) fun h => absurd h.1.1 (by simp [hclose])
    by_cases hopen : (closerOf? c).isSome
    · rw [pair_opener hopen] at h
      cases h
    · rw [pair_plain (by simpa using hopen) hclose] at h
      cases h
  | true =>
    simp only [Stray, hclose, innermost_iff h, true_and]
    cases stack with
    | nil => simp [pair_closer hclose, eq_comm]
    | cons top stack =>
      obtain ⟨o, m⟩ := top
      by_cases hpair : closerOf? o = some c
      · simp [pair_closing hpair, hpair]
      · simp [pair_closer hclose, hpair, Ne.symm hpair, eq_comm]

theorem Matched.of_prefix {s : Text} (h : Matched t) (hs : s <+: t) : Matched s :=
  fun front c hc => h front c (hc.trans hs)

theorem matched_concat : Matched (t ++ [c]) ↔ Matched t ∧ ¬ Stray t c := by
  constructor
  · exact fun h => ⟨h.of_prefix (List.prefix_append _ _), h t c (List.prefix_refl _)⟩
  · rintro ⟨ht, hc⟩ front d hd
    rcases List.prefix_concat_iff.1 hd with heq | hd
    · obtain ⟨rfl, hlast⟩ := List.append_inj' heq rfl
      rw [List.singleton_inj.1 hlast]
      exact hc
    · exact ht front d hd

/-- Pairing reaches the end of a text iff no bracket in it is stray. -/
theorem matched_iff : Matched t ↔ ∃ stack, pairs 1 [] t = .ok stack := by
  induction t using List.reverseRecOn with
  | nil =>
    refine iff_of_true (fun front c h => ?_) ⟨[], rfl⟩
    simp at h
  | append_singleton t c ih =>
    rw [matched_concat, ih, pairs_concat]
    constructor
    · rintro ⟨⟨stack, h⟩, hc⟩
      rw [h]
      cases hp : pair (1 + t.count '\n') stack c with
      | error e => exact absurd ((pair_eq_error_iff h).1 hp).1 hc
      | ok stack' => exact ⟨stack', hp⟩
    · rintro ⟨stack', h'⟩
      cases h : pairs 1 [] t with
      | error e =>
        rw [h] at h'
        cases h'
      | ok stack =>
        rw [h] at h'
        refine ⟨⟨stack, rfl⟩, fun hc => ?_⟩
        have hstop := (pair_eq_error_iff (n := 1 + t.count '\n') h).2 ⟨hc, rfl⟩
        exact nomatch hstop.symm.trans h'

theorem open_iff : Matched t ∧ Innermost t o n ↔
    ∃ stack, pairs 1 [] t = .ok ((o, n) :: stack) := by
  constructor
  · rintro ⟨hmatched, hinner⟩
    obtain ⟨stack, h⟩ := matched_iff.1 hmatched
    obtain ⟨stack, rfl⟩ := List.head?_eq_some_iff.1 ((innermost_iff h).1 hinner)
    exact ⟨stack, h⟩
  · rintro ⟨stack, h⟩
    exact ⟨matched_iff.2 ⟨_, h⟩, (innermost_iff h).2 rfl⟩

/-- Pairing fails at the first stray bracket, and names its line. -/
theorem pairs_eq_error_iff {e : Char × Nat} : pairs 1 [] t = .error e ↔
    ∃ front c rest, t = front ++ c :: rest ∧ Matched front ∧ Stray front c ∧
      e = (c, 1 + front.count '\n') := by
  constructor
  · intro h
    induction t using List.reverseRecOn with
    | nil => cases h
    | append_singleton t c ih =>
      rw [pairs_concat] at h
      cases hp : pairs 1 [] t with
      | error e' =>
        rw [hp] at h
        cases h
        obtain ⟨front, d, rest, rfl, hstray⟩ := ih hp
        exact ⟨front, d, rest ++ [c], by simp, hstray⟩
      | ok stack =>
        rw [hp] at h
        obtain ⟨hstray, rfl⟩ := (pair_eq_error_iff hp).1 h
        exact ⟨t, c, [], rfl, matched_iff.2 ⟨stack, hp⟩, hstray, rfl⟩
  · rintro ⟨front, c, rest, rfl, hfront, hstray, rfl⟩
    obtain ⟨stack, h⟩ := matched_iff.1 hfront
    rw [pairs_append, h]
    have hstop := (pair_eq_error_iff (n := 1 + front.count '\n') h).2 ⟨hstray, rfl⟩
    exact congrArg (· >>= fun stack => pairs _ stack rest) hstop

end ProjectSetup.Text
