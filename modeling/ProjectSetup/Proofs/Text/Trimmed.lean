import ProjectSetup.Proofs.Text.Blank
import ProjectSetup.Proofs.Text.Case

/-!
# Trimmed texts

A text is trimmed if no blank stands at its ends. These are the texts that trimming leaves as they
are. Putting a text into lower case makes no letter of a blank and no blank of a letter, so it keeps
a text trimmed or not.
-/
namespace ProjectSetup.Text

/-- No blank stands at either end. -/
def Trimmed (t : Text) : Prop :=
  (∀ c ∈ t.head?, isBlank c = false) ∧ ∀ c ∈ t.getLast?, isBlank c = false

instance (t : Text) : Decidable (Trimmed t) :=
  decidable_of_iff (t.head?.all (!isBlank ·) = true ∧ t.getLast?.all (!isBlank ·) = true) <| by
    simp [Trimmed, Option.all_eq_true]

theorem trimEnd_eq_self {t : Text} : t.trimEnd = t ↔ ∀ c ∈ t.getLast?, isBlank c = false := by
  have h := trimStart_eq_self (t := t.reverse)
  rw [List.head?_reverse] at h
  exact List.reverse_eq_iff.trans h

theorem trimmed_trim (t : Text) : t.trim.Trimmed := by
  refine ⟨fun c hc => ?_, trimEnd_eq_self.1 (trimEnd_trimEnd t.trimStart)⟩
  -- the end goes last: what it leaves begins as the text without its first blanks
  obtain ⟨s, -, hs⟩ := exists_trimEnd t.trimStart
  have hc : t.trimStart.trimEnd.head? = some c := hc
  refine trimStart_eq_self.1 (trimStart_trimStart t) c ?_
  rw [hs, List.head?_append, hc]
  rfl

theorem trim_eq_self_iff {t : Text} : t.trim = t ↔ t.Trimmed := by
  constructor
  · intro h
    rw [← h]
    exact trimmed_trim t
  · rintro ⟨hfirst, hlast⟩
    rw [trim, trimStart_eq_self.2 hfirst, trimEnd_eq_self.2 hlast]

/-- The stretches of code points between blanks that the lower-case mapping takes place in. -/
def stretches : List (Nat × Nat) :=
  [(0xA0, 0x1680), (0x3000, 0x110000), (0x1680, 0x2000), (0x205F, 0x3000), (0x20, 0x85)]

theorem isBlank_of_stretch {s : Nat × Nat} (hs : s ∈ stretches) {n : Nat} (hfirst : s.1 < n)
    (hlast : n < s.2) : isBlank (Char.ofNat n) = false := by
  -- a number that is no code point stands for the first of all characters
  have hcode : (Char.ofNat n).toNat = n ∨ (Char.ofNat n).toNat = 0 := by
    by_cases h : n.isValidChar
    · exact .inl (congrArg Char.toNat (dif_pos h))
    · exact .inr (congrArg Char.toNat (dif_neg h))
  simp only [stretches, List.mem_cons, List.not_mem_nil, or_false] at hs
  rcases hcode with hcode | hcode
  · rw [isBlank, hcode]
    rcases hs with rfl | rfl | rfl | rfl | rfl <;> simp <;> omega
  · rw [isBlank, hcode]
    rfl

theorem lowerRuns_within_stretches :
    ∀ run ∈ lowerRuns, ∀ first ∈ [run.1, run.2.2.2],
      ∃ s ∈ stretches, s.1 < first ∧ first + (run.2.1 - run.1) < s.2 := by
  decide +kernel

@[simp] theorem isBlank_lowerChar (c : Char) : isBlank (lowerChar c) = isBlank c := by
  by_cases hc : c.toNat < 0x80
  · exact of_ascii (p := fun c => isBlank (lowerChar c) = isBlank c) (by decide) hc
  · rw [lowerChar, if_neg hc]
    split
    · next lo hi step target hrun =>
      have hin := List.find?_some hrun
      simp only [Bool.and_eq_true, decide_eq_true_eq] at hin
      obtain ⟨⟨hlo, hhi⟩, -⟩ := hin
      have hplain {first : Nat} (hfirst : first ∈ [lo, target]) :
          isBlank (Char.ofNat (first + (c.toNat - lo))) = false := by
        obtain ⟨s, hs, hbelow, (habove : first + (hi - lo) < s.2)⟩ :=
          lowerRuns_within_stretches _ (List.mem_of_find?_eq_some hrun) first hfirst
        exact isBlank_of_stretch hs (by omega) (by omega)
      have hfrom := hplain (List.mem_cons_self (a := lo))
      rw [Nat.add_sub_cancel' hlo, Char.ofNat_toNat] at hfrom
      rw [hfrom, hplain (List.mem_pair.2 (.inr rfl))]
    · rfl

theorem lowerIn_ne_nil (before : Text) (c : Char) (rest : Text) : lowerIn before c rest ≠ [] := by
  rw [lowerIn]
  split_ifs <;> simp

/-- What a character becomes is blank if the character is. -/
theorem isBlank_of_mem_lowerIn {before rest : Text} {c d : Char} (hd : d ∈ lowerIn before c rest) :
    isBlank d = isBlank c := by
  rw [lowerIn] at hd
  split_ifs at hd with hsigma _ hdotted
  · rw [List.mem_singleton.1 hd, hsigma]
    decide
  · rw [List.mem_singleton.1 hd, hsigma]
    decide
  · rw [hdotted]
    rcases List.mem_pair.1 hd with rfl | rfl <;> decide
  · rw [List.mem_singleton.1 hd, isBlank_lowerChar]

theorem lowerAfter_append (before s t : Text) : ∃ low : Text,
    lowerAfter before (s ++ t) = low ++ lowerAfter (s.reverse ++ before) t := by
  induction s generalizing before with
  | nil => exact ⟨[], rfl⟩
  | cons c s ih =>
    obtain ⟨low, hlow⟩ := ih (c :: before)
    refine ⟨lowerIn before c (s ++ t) ++ low, ?_⟩
    rw [List.cons_append, lowerAfter, hlow, List.reverse_cons, List.append_assoc,
      List.append_assoc]
    rfl

theorem map_isBlank_head?_lower (t : Text) :
    (lower t).head?.map isBlank = t.head?.map isBlank := by
  cases t with
  | nil => rfl
  | cons c r =>
    have hne := lowerIn_ne_nil [] c r
    rw [lower, lowerAfter, List.head?_append_of_ne_nil _ hne, List.head?_eq_some_head hne]
    exact congrArg some (isBlank_of_mem_lowerIn (List.head_mem hne))

theorem map_isBlank_getLast?_lower (t : Text) :
    (lower t).getLast?.map isBlank = t.getLast?.map isBlank := by
  rcases List.eq_nil_or_concat' t with rfl | ⟨s, c, rfl⟩
  · rfl
  · obtain ⟨low, hlow⟩ := lowerAfter_append [] s [c]
    have hne := lowerIn_ne_nil (s.reverse ++ []) c []
    rw [lower, hlow, lowerAfter, lowerAfter, List.append_nil, List.getLast?_append_of_ne_nil _ hne,
      List.getLast?_eq_some_getLast hne, List.getLast?_concat]
    exact congrArg some (isBlank_of_mem_lowerIn (List.getLast_mem hne))

/-- The lower-case form of a text is trimmed iff the text is. -/
theorem trimmed_lower {t : Text} : (lower t).Trimmed ↔ t.Trimmed := by
  have hend (o : Option Char) :
      (∀ c ∈ o, isBlank c = false) ↔ o.map isBlank ≠ some true := by
    cases o <;> simp
  simp only [Trimmed, hend, map_isBlank_head?_lower, map_isBlank_getLast?_lower]

end ProjectSetup.Text
