import Mathlib.Tactic.IntervalCases
import ProjectSetup.Proofs.Text.Case
import ProjectSetup.Proofs.Yaml.BlockMapping

/-!
# The reader of settings

The reader with which a run reads its settings is a standard one: words of letters and digits are
plain scalars by themselves, and a number is read in the form in which it is written.
-/
namespace ProjectSetup.Yaml

/-- Letters and digits make a word. -/
theorem word_of_alphanumeric {t : Text} (h : alphanumeric t = true) : Word t := by
  rw [alphanumeric, Bool.and_eq_true, List.all_eq_true] at h
  have hchar : ∀ c ∈ t, isPrintable c = true ∧ isGap c = false ∧ c ≠ ':' ∧
      Scan.isIndicator c = false ∧ c ≠ '.' := by
    intro c hc
    have hcode : ∀ n < 0x80, (Char.ofNat n).isAlphanum = true → isPrintable (Char.ofNat n) = true ∧
        isGap (Char.ofNat n) = false ∧ Char.ofNat n ≠ ':' ∧
        Scan.isIndicator (Char.ofNat n) = false ∧ Char.ofNat n ≠ '.' := by decide +kernel
    exact Text.of_ascii (p := fun c => c.isAlphanum = true → isPrintable c = true ∧
      isGap c = false ∧ c ≠ ':' ∧ Scan.isIndicator c = false ∧ c ≠ '.') hcode
        (ascii_of_isAlphanum (h.2 c hc)) (h.2 c hc)
  refine ⟨by simpa using h.1, fun c hc => (hchar c hc).1, fun c hc => (hchar c hc).2.1,
    fun hc => (hchar ':' hc).2.2.1 rfl, fun c hc => ?_⟩
  exact (hchar c (List.mem_of_mem_head? hc)).2.2.2

/-- The number that the digits after a text denote goes on from the number of the text. -/
theorem foldlM_digit? {t : Text} (ht : ∀ c ∈ t, c.isDigit = true) (v : Nat) :
    t.foldlM (fun v c => (digit? 10 c).map (10 * v + ·)) v = some (Nat.ofDigitChars 10 t v) := by
  induction t generalizing v with
  | nil => rfl
  | cons c t ih =>
    obtain ⟨hc, ht⟩ := List.forall_mem_cons.1 ht
    have hdigit : digit? 10 c = some (c.toNat - '0'.toNat) := by
      have hlt : c.toNat - '0'.toNat < 10 := by
        simp only [Char.isDigit, Bool.and_eq_true, decide_eq_true_eq, UInt32.le_iff_toNat_le] at hc
        exact Nat.sub_lt_left_of_lt_add hc.1 (Nat.lt_succ_of_le hc.2)
      rw [digit?, if_pos hc, if_pos hlt]
    rw [List.foldlM_cons, hdigit, Nat.ofDigitChars_cons]
    exact ih ht _

theorem head?_toDigits {n : Nat} (hn : 0 < n) : (Nat.toDigits 10 n).head? ≠ some '0' := by
  induction n using Nat.strongRecOn with
  | ind n ih =>
    by_cases hlt : n < 10
    · rw [Nat.toDigits_of_lt_base hlt]
      interval_cases n <;> decide
    · rw [Nat.toDigits_of_base_le (by decide) (Nat.le_of_not_lt hlt),
        List.head?_append_of_ne_nil _ Nat.toDigits_ne_nil]
      exact ih (n / 10) (by omega) (by omega)

theorem digits?_toDigits {n : Nat} (hn : n < UInt64.size) :
    digits? 10 (Nat.toDigits 10 n) = some n := by
  have hdigit : ∀ c ∈ Nat.toDigits 10 n, c.isDigit = true :=
    fun c hc => Nat.isDigit_of_mem_toDigits (by decide) (by decide) hc
  have hnumber := foldlM_digit? hdigit 0
  rw [Nat.ofDigitChars_toDigits (by decide) (by decide)] at hnumber
  simp [digits?, hnumber, hn]

theorem number?_toDigits {n : Nat} (hn : n < UInt64.size) :
    number? (Nat.toDigits 10 n) = some n := by
  rw [← digits?_toDigits hn]
  by_cases hzero : n = 0
  · rw [hzero]
    rfl
  · obtain ⟨c, t, ht⟩ := List.exists_cons_of_ne_nil (Nat.toDigits_ne_nil (b := 10) (n := n))
    have hdigit : c.isDigit = true :=
      Nat.isDigit_of_mem_toDigits (b := 10) (n := n) (by decide) (by decide) (by simp [ht])
    have hplus : c ≠ '+' := by
      rintro rfl
      cases hdigit
    have hlead : c ≠ '0' := by
      rintro rfl
      exact head?_toDigits (Nat.pos_of_ne_zero hzero) (by rw [ht]; rfl)
    rw [ht]
    simp [number?, hplus, hlead]

theorem reader_standard : reader.Standard where
  mapping es hne hes _ := Node.read?_blockText hne fun e he => by
    obtain ⟨hkey, hvalue, hshort⟩ := hes e he
    exact ⟨word_of_alphanumeric hkey, word_of_alphanumeric hvalue, hshort⟩
  null t := by
    simp only [reader, isNull, Bool.or_eq_true, List.isEmpty_iff, List.any_cons, List.any_nil,
      beq_iff_eq, List.mem_cons, List.not_mem_nil, Bool.or_false, eq_comm (b := t)]
    tauto
  truth := ⟨rfl, rfl⟩
  number _ := number?_toDigits

end ProjectSetup.Yaml
