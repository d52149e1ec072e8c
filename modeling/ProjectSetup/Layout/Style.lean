/-!
# Style

The options of the formatter. A partial style overrides the house style option by option.
-/
namespace ProjectSetup

/-- Where a list that is broken into lines keeps a comma after its last item. -/
inductive TrailingComma where
  | all
  | es5
  | none
  deriving DecidableEq, Repr

namespace TrailingComma

def name : TrailingComma → String
  | .all => "all"
  | .es5 => "es5"
  | .none => "none"

def ofName? : String → Option TrailingComma
  | "all" => some .all
  | "es5" => some .es5
  | "none" => some .none
  | _ => Option.none

@[simp] theorem ofName?_name (t : TrailingComma) : ofName? t.name = some t := by cases t <;> rfl

end TrailingComma

/-- A style in which every option is set. -/
structure Style where
  singleQuote : Bool
  semi : Bool
  trailingComma : TrailingComma
  printWidth : Nat
  deriving DecidableEq, Repr

/-- A style in which an option may be left open. -/
structure StyleOverrides where
  singleQuote : Option Bool := none
  semi : Option Bool := none
  trailingComma : Option TrailingComma := none
  printWidth : Option Nat := none
  deriving DecidableEq, Repr

namespace Style

/-- The style of generated projects. -/
def house : Style := ⟨true, false, .all, 80⟩

/-- The quote that string literals take where their text allows it. -/
def quote (s : Style) : Char := if s.singleQuote then '\'' else '"'

theorem quote_cases (s : Style) : s.quote = '\'' ∨ s.quote = '"' := by
  unfold quote
  split
  · exact .inl rfl
  · exact .inr rfl

end Style

namespace StyleOverrides

/-- The largest width that a style can name. -/
def widest : Nat := UInt64.size - 1

/-- The house style with the options of `o` in place of its own. -/
def resolve (o : StyleOverrides) : Style where
  singleQuote := o.singleQuote.getD Style.house.singleQuote
  semi := o.semi.getD Style.house.semi
  trailingComma := o.trailingComma.getD Style.house.trailingComma
  printWidth := o.printWidth.getD Style.house.printWidth

/-- The same style with the greatest width, under which no statement is wrapped. -/
def singleLine (o : StyleOverrides) : StyleOverrides := { o with printWidth := some widest }

@[simp] theorem resolve_empty : resolve {} = Style.house := rfl

@[simp] theorem singleLine_singleLine (o : StyleOverrides) :
    o.singleLine.singleLine = o.singleLine := rfl

end StyleOverrides

end ProjectSetup
