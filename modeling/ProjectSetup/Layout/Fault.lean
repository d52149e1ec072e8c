/-!
# Faults

The reasons why a script cannot be laid out. Every fault names a line, counted from one.
-/
namespace ProjectSetup

inductive Fault where
  | unterminatedString (line : Nat)
  | unterminatedTemplate (line : Nat)
  | unterminatedComment (line : Nat)
  | unterminatedRegex (line : Nat)
  | unbalancedBracket (found : Char) (line : Nat)
  | unclosedBracket (opener : Char) (line : Nat)
  deriving DecidableEq, Repr

namespace Fault

def line : Fault → Nat
  | .unterminatedString n | .unterminatedTemplate n | .unterminatedComment n
  | .unterminatedRegex n | .unbalancedBracket _ n | .unclosedBracket _ n => n

def message : Fault → String
  | .unterminatedString n => s!"unterminated string literal on line {n}"
  | .unterminatedTemplate n => s!"unterminated template literal starting on line {n}"
  | .unterminatedComment n => s!"unterminated block comment starting on line {n}"
  | .unterminatedRegex n => s!"unterminated regular expression on line {n}"
  | .unbalancedBracket c n => s!"unexpected '{c}' on line {n}"
  | .unclosedBracket c n => s!"'{c}' opened on line {n} is never closed"

end Fault

end ProjectSetup
