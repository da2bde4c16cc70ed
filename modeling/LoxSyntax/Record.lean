import LoxSyntax.Diagnostic
import LoxSyntax.Expr.Basic

/-! # Log records
What the library does, as records of a log. A record holds what it is about; its level and its
wording are functions of that. -/

namespace LoxSyntax

/-- The **level** of a record, the more severe first. -/
inductive Level where
  | error | warning | info | debug | trace
deriving DecidableEq, Repr

namespace Level

/-- The level as it is written before a record. -/
def name : Level → String
  | error => "ERROR"
  | warning => "WARN"
  | info => "INFO"
  | debug => "DEBUG"
  | trace => "TRACE"

/-- How much a log of the level admits: the levels are numbered by decreasing severity. -/
def detail : Level → Nat
  | error => 1
  | warning => 2
  | info => 3
  | debug => 4
  | trace => 5

end Level

/-- A **record** of the log. -/
inductive Record where
  /-- The scanner decides what to do by a byte. -/
  | dispatch (line : Nat) (byte : UInt8)
  /-- The scanner found no token. -/
  | scanError (d : Diagnostic)
  /-- The parser ended a group, or tried to. -/
  | closing (t : Token)
  /-- The parser has an expression. -/
  | parsed (e : Expr)
  /-- The parser gives up. -/
  | stopped (d : Diagnostic)
  /-- A source was read. -/
  | fileRead (size : Nat) (path : String)
  /-- A dump of tokens begins. -/
  | tokenizeStart
  /-- A dump of tokens ends. -/
  | tokenizeDone (items status : Nat)
  /-- A dump of expressions begins. -/
  | parseStart
  /-- A dump of expressions ends. -/
  | parseDone (status : Nat)
deriving DecidableEq, Repr

namespace Record

/-- **The level of a record.** -/
def level : Record → Level
  | dispatch .. => .trace
  | scanError _ | closing _ | parsed _ | stopped _ | fileRead .. => .debug
  | tokenizeStart | tokenizeDone .. | parseStart | parseDone _ => .info

/-- **The wording of a record.** A byte is shown as the character of the same number. -/
def message : Record → String
  | dispatch line byte => s!"line {line}: dispatching {Quoted.char (Char.ofUInt8 byte)}"
  | scanError d => s!"scan error: {d.report}"
  | closing t => s!"closing token {t.text} at line {t.span.line}"
  | parsed e => s!"parsed expression {e.text}"
  | stopped d => s!"parse stopped: {d.message}"
  | fileRead size path => s!"read {size} bytes from {path}"
  | tokenizeStart => "tokenize: start"
  | tokenizeDone items status => s!"tokenize: {items} items, exit status {status}"
  | parseStart => "parse: start"
  | parseDone status => s!"parse: exit status {status}"

/-- The line of a record in a log. -/
def text (r : Record) : String := s!"{r.level.name} {r.message}"

/-- Whether a log of the given level holds the record. -/
def admittedBy (r : Record) (level : Level) : Bool := r.level.detail ≤ level.detail

end Record

end LoxSyntax
