import LoxSyntax.Span
import LoxSyntax.Token.Kind
import LoxSyntax.Value

/-! # Tokens
A token with its text, its value if it is a literal, and its place. -/

namespace LoxSyntax

/-- A **token**. -/
structure Token where
  /-- What the token is. -/
  kind : Kind
  /-- The text of the token in the source, quotes included. -/
  lexeme : String
  /-- The value, for the tokens that carry one. -/
  literal : Option Value
  /-- Where the token stands. -/
  span : Span
deriving DecidableEq, Repr

namespace Token

/-- The token of a kind whose text is fixed. The words for truth values and the absent value carry
theirs. -/
def fixed (kind : Kind) (span : Span) : Token where
  kind := kind
  lexeme := kind.text
  literal :=
    match kind with
    | .trueWord => some (.bool true)
    | .falseWord => some (.bool false)
    | .nilWord => some .nil
    | _ => none
  span := span

/-- The token after the last byte of a source. -/
def endOfInput (span : Span) : Token := ⟨.endOfInput, "", none, span⟩

/-- The literal column of a dump: the value of a number or a string, if the token is no identifier.
-/
def literalText (t : Token) : String :=
  match t.kind, t.literal with
  | .identifier, _ => "null"
  | _, some (.number x) => (Value.number x).text
  | _, some (.string s) => (Value.string s).text
  | _, _ => "null"

/-- **The line of a dump**: name, lexeme and literal column. -/
def text (t : Token) : String := s!"{t.kind.name} {t.lexeme} {t.literalText}"

/-- How a diagnostic names the token it is about. -/
def location (t : Token) : String :=
  if t.kind = .endOfInput then "end" else s!"'{t.lexeme}'"

/-- **The JSON line of a dump.** -/
def json (t : Token) : String :=
  "\x7b\"kind\":\"" ++ t.kind.name ++ "\",\"lexeme\":" ++ Json.quote t.lexeme ++
    ",\"literal\":" ++ (t.literal.elim "null" Value.json) ++
    ",\"start\":" ++ toString t.span.start ++ ",\"end\":" ++ toString t.span.stop ++
    ",\"line\":" ++ toString t.span.line ++ "\x7d"

/-- **Equality of tokens**: literals are compared as values, all else by identity. -/
def equal (s t : Token) : Bool :=
  s.kind == t.kind && s.lexeme == t.lexeme && s.span == t.span &&
    match s.literal, t.literal with
    | none, none => true
    | some v, some w => v.equal w
    | _, _ => false

end Token

end LoxSyntax
