import LoxSyntax.Expr.Parser
import LoxSyntax.Lexical.Cursor
import LoxSyntax.Transcript

/-! # Commands
The two commands. **Tokenize** writes a line for each token of a source, and reports each fault on
the channel of diagnostics. **Parse** writes a line for each expression, up to the first error,
which it reports. Both end with a status that tells whether anything was reported. -/

namespace LoxSyntax

/-- A **command** on a source. -/
inductive Command where
  /-- Dump the tokens, as plain text or as JSON. -/
  | tokenize (json : Bool)
  /-- Dump the expressions. -/
  | parse
deriving DecidableEq, Repr

namespace Command

/-- The exit status when the source has errors. -/
def dataError : Nat := 65

/-- The exit status of a command, by whether it reported anything. -/
def statusOf (reported : Bool) : Nat := if reported then dataError else 0

/-- The line of an item. -/
def itemAction (json : Bool) : Item → Action
  | .token t => .write .out (if json then t.json else t.text)
  | .fault d => .write .err d.report

/-- **The transcript of a dump of tokens.** -/
def tokenizeTranscript (json : Bool) (source : List UInt8) : Transcript :=
  let given := (Cursor.start source).drain.1
  let status := statusOf (given.any (·.2.isFault))
  { actions := .log .tokenizeStart ::
      given.flatMap (fun step => step.1.map .log ++ [itemAction json step.2]) ++
      [.flush, .log (.tokenizeDone given.length status)]
    status := status }

/-- The line of an expression, or of the error in its place. -/
def outcomeActions : Option (Except Diagnostic Expr) → List Action
  | some (.ok e) => [.write .out e.text]
  | some (.error d) => [.write .err d.report]
  | none => []

/-- Whether an outcome is an error. -/
def isError : Option (Except Diagnostic Expr) → Bool
  | some (.error _) => true
  | _ => false

/-- The steps of the parser over a source. Each expression takes a byte at least, so one step more
than there are bytes is enough. -/
def parseSteps (source : List UInt8) : List (Step (Parser Cursor) (Except Diagnostic Expr)) :=
  (Parser.ofSupply (Cursor.start source)).steps (source.length + 1)

/-- **The transcript of a dump of expressions.** -/
def parseTranscript (source : List UInt8) : Transcript :=
  let steps := parseSteps source
  let status := statusOf (steps.any (isError ·.given))
  { actions := .log .parseStart ::
      steps.flatMap (fun step => step.records.map .log ++ outcomeActions step.given) ++
      [.flush, .log (.parseDone status)]
    status := status }

/-- **The transcript of a command** on a source. -/
def transcript : Command → List UInt8 → Transcript
  | tokenize json, source => tokenizeTranscript json source
  | parse, source => parseTranscript source

end Command

end LoxSyntax
