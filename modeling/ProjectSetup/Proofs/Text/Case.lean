import ProjectSetup.Text.Lower

/-!
# The case of the letters A to Z

Lower-casing knows the letters of every script, and for a sigma it looks at what stands around it.
Putting the letters A to Z into lower case beforehand makes no difference to it: in either case they
are cased and not ignorable. So texts that are equal up to the case of these letters have the same
lower-case form. The converse holds for ASCII texts.
-/
namespace ProjectSetup.Text

/-- What is decided for the ASCII characters one by one. -/
theorem of_ascii {p : Char → Prop} (h : ∀ n < 0x80, p (Char.ofNat n)) {c : Char}
    (hc : c.toNat < 0x80) : p c :=
  Char.ofNat_toNat c ▸ h c.toNat hc

theorem toLower_of_not_ascii {c : Char} (hc : ¬ c.toNat < 0x80) : c.toLower = c := by
  have hupper : ¬(c.val ≥ 'A'.val ∧ c.val ≤ 'Z'.val) := by
    rintro ⟨-, hle⟩
    exact hc (Nat.lt_of_le_of_lt hle (by decide))
  exact dif_neg hupper

theorem ascii_toLower {c : Char} (hc : c.toNat < 0x80) : c.toLower.toNat < 0x80 :=
  of_ascii (p := fun c => c.toLower.toNat < 0x80) (by decide) hc

/-- No character comes to be one beyond ASCII. -/
theorem toLower_eq_iff {c d : Char} (hd : ¬ d.toNat < 0x80) : c.toLower = d ↔ c = d := by
  by_cases hc : c.toNat < 0x80
  · refine iff_of_false ?_ ?_
    · rintro rfl
      exact hd (ascii_toLower hc)
    · rintro rfl
      exact hd hc
  · rw [toLower_of_not_ascii hc]

@[simp] theorem isCased_toLower (c : Char) : isCased c.toLower = isCased c := by
  by_cases hc : c.toNat < 0x80
  · exact of_ascii (p := fun c => isCased c.toLower = isCased c) (by decide) hc
  · rw [toLower_of_not_ascii hc]

@[simp] theorem isCaseIgnorable_toLower (c : Char) :
    isCaseIgnorable c.toLower = isCaseIgnorable c := by
  by_cases hc : c.toNat < 0x80
  · exact of_ascii (p := fun c => isCaseIgnorable c.toLower = isCaseIgnorable c) (by decide) hc
  · rw [toLower_of_not_ascii hc]

theorem lowerChar_of_ascii {c : Char} (hc : c.toNat < 0x80) : lowerChar c = c.toLower := if_pos hc

@[simp] theorem lowerChar_toLower (c : Char) : lowerChar c.toLower = lowerChar c := by
  by_cases hc : c.toNat < 0x80
  · rw [lowerChar_of_ascii (ascii_toLower hc), lowerChar_of_ascii hc]
    exact of_ascii (p := fun c => c.toLower.toLower = c.toLower) (by decide) hc
  · rw [toLower_of_not_ascii hc]

/-- What a sigma looks at is the same in either case. -/
@[simp] theorem casedAhead_map_toLower (t : Text) :
    casedAhead (t.map Char.toLower) = casedAhead t := by
  have hp : isCaseIgnorable ∘ Char.toLower = isCaseIgnorable := funext isCaseIgnorable_toLower
  rw [casedAhead, List.dropWhile_map, hp, List.head?_map, Option.any_map]
  simp only [isCased_toLower, casedAhead]

theorem lowerIn_toLower (before : Text) (c : Char) (rest : Text) :
    lowerIn (before.map Char.toLower) c.toLower (rest.map Char.toLower) =
      lowerIn before c rest := by
  -- the two characters that are treated apart are no letters A to Z
  have hsigma : c.toLower = 'Σ' ↔ c = 'Σ' := toLower_eq_iff (by decide)
  have hdotted : c.toLower = 'İ' ↔ c = 'İ' := toLower_eq_iff (by decide)
  simp only [lowerIn, hsigma, hdotted, casedAhead_map_toLower, lowerChar_toLower]

theorem lowerAfter_map_toLower (before t : Text) :
    lowerAfter (before.map Char.toLower) (t.map Char.toLower) = lowerAfter before t := by
  induction t generalizing before with
  | nil => rfl
  | cons c r ih =>
    rw [List.map_cons, lowerAfter, lowerIn_toLower, ← List.map_cons, ih, lowerAfter]

theorem lower_map_toLower (t : Text) : lower (t.map Char.toLower) = lower t :=
  lowerAfter_map_toLower [] t

theorem lower_eq_of_eqIgnoringAsciiCase {a b : Text} (h : eqIgnoringAsciiCase a b = true) :
    lower a = lower b := by
  rw [← lower_map_toLower a, ← lower_map_toLower b, beq_iff_eq.1 h]

def Ascii (t : Text) : Prop := ∀ c ∈ t, c.toNat < 0x80

theorem lowerAfter_of_ascii (before : Text) {t : Text} (ht : Ascii t) :
    lowerAfter before t = t.map Char.toLower := by
  induction t generalizing before with
  | nil => rfl
  | cons c r ih =>
    obtain ⟨hc, hr⟩ := List.forall_mem_cons.1 ht
    have hsigma : c ≠ 'Σ' := by
      rintro rfl
      exact absurd hc (by decide)
    have hdotted : c ≠ 'İ' := by
      rintro rfl
      exact absurd hc (by decide)
    rw [lowerAfter, ih _ hr, lowerIn, if_neg hsigma, if_neg hdotted, lowerChar_of_ascii hc]
    rfl

theorem eqIgnoringAsciiCase_iff {a b : Text} (ha : Ascii a) (hb : Ascii b) :
    eqIgnoringAsciiCase a b = true ↔ lower a = lower b := by
  rw [lower, lower, lowerAfter_of_ascii [] ha, lowerAfter_of_ascii [] hb, eqIgnoringAsciiCase,
    beq_iff_eq]

end ProjectSetup.Text
