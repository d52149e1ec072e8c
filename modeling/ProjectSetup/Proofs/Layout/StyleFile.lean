import ProjectSetup.Layout.StyleFile
import ProjectSetup.Proofs.Yaml.Standard

/-!
# Written style files

The options of a style are written one to a line, each under the name by which a style file knows
it. What is written is read back: it sets every option to the value that the style has for it, also
the widest print width.
-/
namespace ProjectSetup

/-- The form in which an option is written that is on or off. -/
def Style.flag (b : Bool) : Text := if b then "true".toList else "false".toList

/-- The options of a style by their names in a style file. -/
def Style.fields (s : Style) : List (Text × Text) :=
  [("singleQuote".toList, flag s.singleQuote), ("semi".toList, flag s.semi),
    ("trailingComma".toList, s.trailingComma.name.toList),
    ("printWidth".toList, Nat.toDigits 10 s.printWidth)]

/-- The overrides that set every option as in a style. -/
def StyleOverrides.ofStyle (s : Style) : StyleOverrides :=
  ⟨some s.singleQuote, some s.semi, some s.trailingComma, some s.printWidth⟩

namespace Style

open Yaml (alphanumeric blockText entryNode)

theorem alphanumeric_fields (s : Style) :
    ∀ e ∈ s.fields, alphanumeric e.1 = true ∧ alphanumeric e.2 = true := by
  have hflag (b : Bool) : alphanumeric (flag b) = true := by
    cases b <;> decide
  have hcomma : alphanumeric s.trailingComma.name.toList = true := by
    cases s.trailingComma <;> decide
  simp only [fields, List.forall_mem_cons, hflag, hcomma, Yaml.alphanumeric_toDigits, and_true]
  exact ⟨by decide, by decide, by decide, by decide, fun e he => absurd he List.not_mem_nil⟩

variable {yaml : Yaml.Reader} {s : Style}

/-- The options are read as a mapping from their names. -/
theorem node?_fields (hyaml : yaml.Standard) :
    yaml.node? (blockText s.fields) = some (.mapping (s.fields.map entryNode)) := by
  have hshort : ∀ e ∈ s.fields, e.1.length ≤ 1024 := by simp [fields]
  have hkeys : (s.fields.map Prod.fst).Nodup := by
    simp only [fields, List.map_cons, List.map_nil]
    decide
  refine hyaml.mapping s.fields (List.cons_ne_nil _ _) (fun e he => ?_) hkeys
  obtain ⟨hkey, hvalue⟩ := s.alphanumeric_fields e he
  exact ⟨hkey, hvalue, hshort e he⟩

theorem truth?_flag (hyaml : yaml.Standard) (b : Bool) : yaml.truth? (flag b) = some b := by
  cases b
  · exact hyaml.truth.2
  · exact hyaml.truth.1

/-- No option is written as a scalar that stands for no value. -/
theorem null_fields (hyaml : yaml.Standard) : ∀ e ∈ s.fields, yaml.null e.2 = false := by
  have hnull {t : Text} (ht : t ∉ [[], ['~'], "null".toList, "Null".toList, "NULL".toList]) :
      yaml.null t = false := Bool.eq_false_iff.2 (mt (hyaml.null t).1 ht)
  have hflag (b : Bool) : yaml.null (flag b) = false := hnull (by cases b <;> decide)
  have hcomma : yaml.null s.trailingComma.name.toList = false :=
    hnull (by cases s.trailingComma <;> decide)
  have hwidth : yaml.null (Nat.toDigits 10 s.printWidth) = false := by
    refine hnull fun hmem => ?_
    have hdigit : ∀ c ∈ Nat.toDigits 10 s.printWidth, c.isDigit = true :=
      fun c hc => Nat.isDigit_of_mem_toDigits (by decide) (by decide) hc
    have hno : ∀ t ∈ [[], ['~'], "null".toList, "Null".toList, "NULL".toList],
        t = [] ∨ t.all Char.isDigit = false := by decide
    rcases hno _ hmem with h | h
    · exact Nat.toDigits_ne_nil h
    · rw [List.all_eq_true.2 hdigit] at h
      cases h
  simp [fields, hflag, hcomma, hwidth]

theorem ofNode?_fields (hyaml : yaml.Standard) (hs : s.printWidth ≤ StyleOverrides.widest) :
    StyleOverrides.ofNode? yaml (.mapping (s.fields.map entryNode)) = some (.ofStyle s) := by
  have hwidth := hyaml.number s.printWidth (Nat.lt_of_le_pred (by decide) hs)
  have hnull := null_fields (s := s) hyaml
  simp only [fields, List.forall_mem_cons] at hnull
  simp [StyleOverrides.ofNode?, fields, entryNode, Yaml.Node.fields?, Yaml.Reader.optionalField?,
    Yaml.Node.field?, Yaml.Node.text?, Yaml.Node.plain?, Yaml.Reader.bool?, Yaml.Reader.nat?,
    truth?_flag hyaml, hnull, hwidth, StyleOverrides.ofStyle]

/-- A written style file is read as the style that it was written for. -/
theorem parse?_fields (hyaml : yaml.Standard) (hs : s.printWidth ≤ StyleOverrides.widest) :
    StyleOverrides.parse? yaml (blockText s.fields) = some (.ofStyle s) := by
  have hblank : (blockText s.fields).blank = false := rfl
  rw [StyleOverrides.parse?, hblank, if_neg Bool.false_ne_true, node?_fields hyaml]
  exact ofNode?_fields hyaml hs

end Style

end ProjectSetup
