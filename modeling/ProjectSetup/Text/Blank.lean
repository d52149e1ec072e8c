import ProjectSetup.Text.Basic

/-!
# Blanks

The characters of the Unicode property White_Space, and trimming by them. A trimmed text begins
and ends with a character that is not blank.
-/
namespace ProjectSetup.Text

/-- The property White_Space. -/
def isBlank (c : Char) : Bool :=
  let n := c.toNat
  n == 32 || (9 ≤ n && n ≤ 13) || n == 0x85 || n == 0xA0 || n == 0x1680 ||
    (0x2000 ≤ n && n ≤ 0x200A) || n == 0x2028 || n == 0x2029 || n == 0x202F || n == 0x205F ||
    n == 0x3000

def trimStart (t : Text) : Text := t.dropWhile isBlank

def trimEnd (t : Text) : Text := (t.reverse.dropWhile isBlank).reverse

def trim (t : Text) : Text := t.trimStart.trimEnd

/-- Whether the text holds blanks only. -/
def blank (t : Text) : Bool := t.all isBlank

@[simp] theorem trimStart_nil : trimStart [] = [] := rfl

@[simp] theorem trimEnd_nil : trimEnd [] = [] := rfl

theorem trimStart_eq_nil {t : Text} : t.trimStart = [] ↔ t.blank = true := by
  induction t with
  | nil => simp [trimStart, blank]
  | cons c r ih =>
    cases h : isBlank c
    · simp [trimStart, blank, h]
    · rw [trimStart, List.dropWhile_cons_of_pos h, blank, List.all_cons, h, Bool.true_and]
      exact ih

theorem trimEnd_eq_nil {t : Text} : t.trimEnd = [] ↔ t.blank = true := by
  have h := trimStart_eq_nil (t := t.reverse)
  rw [blank, List.all_reverse] at h
  exact List.reverse_eq_nil_iff.trans h

theorem trimStart_eq_self {t : Text} : t.trimStart = t ↔ ∀ c ∈ t.head?, isBlank c = false := by
  cases t with
  | nil => simp
  | cons c r =>
    cases h : isBlank c
    · simp [trimStart, h]
    · have hl : (r.dropWhile isBlank).length ≤ r.length := (List.dropWhile_suffix _).length_le
      simp only [trimStart, List.dropWhile_cons_of_pos h, List.head?_cons, Option.mem_some_iff,
        forall_eq', h, Bool.true_eq_false, iff_false]
      intro he
      have := congrArg List.length he
      simp only [List.length_cons] at this
      omega

end ProjectSetup.Text
