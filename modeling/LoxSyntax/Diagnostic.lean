import LoxSyntax.Text.Quoted
import LoxSyntax.Token.Basic

/-! # Diagnostics
What can go wrong, by cause, with the wording in `Diagnostic.message` alone. -/

namespace LoxSyntax

/-- A **diagnostic**. -/
inductive Diagnostic where
  /-- A character that starts no token. -/
  | unexpectedChar (shown : Char) (span : Span)
  /-- A quote that no later quote closes. -/
  | unterminatedString (span : Span)
  /-- A token that starts no operand, where an operand is due. -/
  | expectedExpression (found : String) (span : Span)
  /-- A token other than a closing parenthesis, where one is due. -/
  | expectedClosingParen (found : String) (span : Span)
  /-- A token that would take an expression beyond the allowed number of levels. -/
  | tooDeep (found : String) (limit : Nat) (span : Span)
  /-- A source that cannot be read. -/
  | unreadable (path reason : String)
deriving DecidableEq, Repr

namespace Diagnostic

/-- Where the diagnostic is about, if it is about a place in a source. -/
def span? : Diagnostic → Option Span
  | unexpectedChar _ span | unterminatedString span | expectedExpression _ span
  | expectedClosingParen _ span | tooDeep _ _ span => some span
  | unreadable .. => none

/-- The line of the place the diagnostic is about. -/
def line? (d : Diagnostic) : Option Nat := d.span?.map (·.line)

/-- **The wording.** -/
def message : Diagnostic → String
  | unexpectedChar shown _ => s!"Error: Unexpected character: {shown}"
  | unterminatedString _ => "Error: Unterminated string."
  | expectedExpression found _ => s!"Error at {found}: Expected expression"
  | expectedClosingParen found _ => s!"Error at {found}: Expected ')'"
  | tooDeep found limit _ => s!"Error at {found}: Expression nested deeper than {limit} levels"
  | unreadable path reason => s!"error reading file {Quoted.text path}: {reason}"

/-- **The line of a report**: the wording after the line number, if there is one. -/
def report (d : Diagnostic) : String :=
  match d.line? with
  | some line => s!"[line {line}] {d.message}"
  | none => d.message

end Diagnostic

/-- An **item** of a scan. -/
inductive Item where
  /-- A token. -/
  | token (t : Token)
  /-- What is wrong where no token could be read. -/
  | fault (d : Diagnostic)
deriving DecidableEq, Repr

/-- Whether an item is a fault. -/
def Item.isFault : Item → Bool
  | fault _ => true
  | token _ => false

end LoxSyntax
