import ProjectSetup.Yaml.Node

/-!
# Standard readers

YAML 1.2 reads a block with a key and a value on each line as a mapping, and by its core schema some
plain scalars stand for no value, for a truth value or for a number. Asked of a reader here is what
it does with words of letters and digits.
-/
namespace ProjectSetup.Yaml

/-- Whether a text consists of letters and digits. -/
def alphanumeric (t : Text) : Bool := !t.isEmpty && t.all Char.isAlphanum

theorem ascii_of_isAlphanum {c : Char} (h : c.isAlphanum = true) : c.toNat < 0x80 := by
  have hupper (hc : c.isUpper = true) : c.toNat < 0x80 :=
    Nat.lt_of_le_of_lt (of_decide_eq_true hc).2 (by decide)
  have hlower (hc : c.isLower = true) : c.toNat < 0x80 :=
    Nat.lt_of_le_of_lt (of_decide_eq_true (Bool.and_eq_true_iff.1 hc).2) (by decide)
  have hdigit (hc : c.isDigit = true) : c.toNat < 0x80 :=
    Nat.lt_of_le_of_lt (of_decide_eq_true (Bool.and_eq_true_iff.1 hc).2) (by decide)
  rcases Bool.or_eq_true_iff.1 h with h | h
  · exact (Bool.or_eq_true_iff.1 h).elim hupper hlower
  · exact hdigit h

theorem alphanumeric_toDigits (n : Nat) : alphanumeric (Nat.toDigits 10 n) = true := by
  have hall : ∀ c ∈ Nat.toDigits 10 n, c.isAlphanum = true := by
    intro c hc
    rw [Char.isAlphanum, Nat.isDigit_of_mem_toDigits (by decide) (by decide) hc, Bool.or_true]
  simpa [alphanumeric] using hall

/-- The line of an entry. -/
def entryLine (e : Text × Text) : Text := e.1 ++ ':' :: ' ' :: e.2

/-- The lines of the entries, each of them with a line break behind it. -/
def blockText (es : List (Text × Text)) : Text := es.flatMap fun e => entryLine e ++ ['\n']

def entryNode (e : Text × Text) : Node × Node := (.scalar true e.1, .scalar true e.2)

/-- A reader that does as YAML 1.2 says with block mappings of words and with plain scalars. -/
structure Reader.Standard (yaml : Reader) : Prop where
  /-- An entry on every line makes a mapping of plain scalars. A key that stands on one line with
  its colon has at most 1024 characters, and no key is there twice. -/
  mapping : ∀ es : List (Text × Text), es ≠ [] →
    (∀ e ∈ es, alphanumeric e.1 = true ∧ alphanumeric e.2 = true ∧ e.1.length ≤ 1024) →
      (es.map Prod.fst).Nodup → yaml.node? (blockText es) = some (.mapping (es.map entryNode))
  null : ∀ t, yaml.null t = true ↔
    t ∈ [[], ['~'], "null".toList, "Null".toList, "NULL".toList]
  truth : yaml.truth? "true".toList = some true ∧ yaml.truth? "false".toList = some false
  number : ∀ n < UInt64.size, yaml.number? (Nat.toDigits 10 n) = some n

end ProjectSetup.Yaml
