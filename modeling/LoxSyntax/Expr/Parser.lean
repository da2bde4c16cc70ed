import LoxSyntax.Lookahead

/-! # Reading expressions
Expressions are read from a supply of items with one item of lookahead. An **operand** is a literal,
a group, or an operator before an operand; a **chain** is an operand and the binary operators after
it, each with its right side. All binary operators associate to the left, and the right side of one
takes only operators that bind more tightly.

Every node but a literal takes one level of a limited number. `operand` and `chain` are given the
number of levels they may still use, which goes down with each node they open; a chain spends one
level on each of its operators and does not get it back before its end. So the recursion is bounded
on every supply, an endless one included. -/

namespace LoxSyntax

/-- The state of **reading** one expression. -/
structure Reader (σ : Type) where
  /-- The items still to read. -/
  ahead : Lookahead σ
  /-- The span of the last token read. -/
  last : Span
  /-- The records logged so far. -/
  log : Array Record

/-- An action on a reader, which may fail. A failed action keeps what it did to the reader. -/
abbrev Reading (σ : Type) := EStateM Diagnostic (Reader σ)

namespace Reading

variable {σ : Type} [Supply σ]

/-- Add a record to the log. -/
def note (record : Record) : Reading σ Unit :=
  fun reader => .ok () { reader with log := reader.log.push record }

/-- **Take the next token.** A fault is passed on as it is, and a supply that gives nothing counts
as one that gives the end of input where the last token was. -/
def advance : Reading σ Token := fun reader =>
  let taken := reader.ahead.pull
  let reader := { reader with ahead := taken.after, log := reader.log ++ taken.records }
  match taken.given with
  | some (.token t) => .ok t { reader with last := t.span }
  | some (.fault d) => .error d reader
  | none => .ok (.endOfInput reader.last) reader

/-- The kind of the next token, if there is one. -/
def kindOf : Option Item → Option Kind
  | some (.token t) => some t.kind
  | _ => none

/-- **Look at the kind of the next token**; there is none where a fault or nothing is next. -/
def peekKind : Reading σ (Option Kind) := fun reader =>
  let seen := reader.ahead.peek
  .ok (kindOf seen.given) { reader with ahead := seen.after, log := reader.log ++ seen.records }

/-- The binary operator that comes next, if one does that binds at least as tightly as asked. -/
def peekOperator (least : Nat) : Reading σ (Option BinaryOp) := do
  let kind ← peekKind
  return (kind.bind BinaryOp.ofKind?).filter (least ≤ ·.precedence)

/-- Fail for want of levels, at the token that needs one. -/
def tooDeep {α : Type} (limit : Nat) (t : Token) : Reading σ α :=
  throw (.tooDeep t.location limit t.span)

/-- Take the parenthesis that closes a group. -/
def closeGroup (inner : Expr) : Reading σ Expr := do
  let t ← advance
  note (.closing t)
  if t.kind = .rightParen then return .group inner
  else throw (.expectedClosingParen t.location t.span)

mutual

/-- **Read an operand** in at most `room` levels. -/
def operand (limit room : Nat) : Reading σ Expr := do
  let t ← advance
  match t.kind.opening? with
  | none => throw (.expectedExpression t.location t.span)
  | some .literal => return .literal (t.literal.getD .nil)
  | some .group =>
    match room with
    | 0 => tooDeep limit t
    | room + 1 =>
      let first ← operand limit room
      let inner ← chain limit room 0 first
      closeGroup inner
  | some (.unary op) =>
    match room with
    | 0 => tooDeep limit t
    | room + 1 =>
      let inner ← operand limit room
      return .unary op inner
termination_by structural room

/-- **Read a chain** whose first operand is read already, in at most `room` levels: the binary
operators that bind at least as tightly as `least`, with their right sides. -/
def chain (limit room least : Nat) (left : Expr) : Reading σ Expr := do
  match ← peekOperator least with
  | none => return left
  | some op =>
    let t ← advance
    match room with
    | 0 => tooDeep limit t
    | room + 1 =>
      let first ← operand limit room
      let right ← chain limit room (op.precedence + 1) first
      chain limit room least (.binary left op right)
termination_by structural room

end

/-- **Read an expression** in at most `room` levels. -/
def expression (limit room : Nat) : Reading σ Expr := do
  let first ← operand limit room
  chain limit room 0 first

end Reading

/-! ## Successive expressions -/

/-- A **parser**: it gives the expressions of a supply one after the other, until the end of input
or the first error. -/
structure Parser (σ : Type) where
  /-- The items still to read. -/
  ahead : Lookahead σ
  /-- The span of the last token read. -/
  last : Span
  /-- Whether the end of input or an error was met. -/
  halted : Bool
  /-- How many levels an expression may have. -/
  limit : Nat
deriving DecidableEq

namespace Parser

variable {σ : Type} [Supply σ]

/-- How many levels an expression may have. -/
def maxDepth : Nat := 255

/-- The parser of a supply, with a limit of its own. -/
def within (limit : Nat) (supply : σ) : Parser σ := ⟨.ofSupply supply, .origin, false, limit⟩

/-- **The parser of a supply.** -/
def ofSupply (supply : σ) : Parser σ := within maxDepth supply

/-- Whether nothing more is to be read after a look at the next item. -/
def isEnd (seen : Option Item) : Bool :=
  seen.isNone || Reading.kindOf seen == some .endOfInput

/-- **Give the next expression**, or the error that ends the parse. Nothing is given at the end of
input, and after the end or an error the supply is left alone. -/
def next (p : Parser σ) : Step (Parser σ) (Except Diagnostic Expr) :=
  if p.halted then ⟨[], none, p⟩
  else
    let seen := p.ahead.peek
    if isEnd seen.given then ⟨seen.records, none, { p with ahead := seen.after, halted := true }⟩
    else
      match Reading.expression p.limit p.limit ⟨seen.after, p.last, seen.records.toArray⟩ with
      | .ok e reader =>
        ⟨(reader.log.push (.parsed e)).toList, some (.ok e),
          { p with ahead := reader.ahead, last := reader.last }⟩
      | .error d reader =>
        ⟨(reader.log.push (.stopped d)).toList, some (.error d),
          { p with ahead := reader.ahead, last := reader.last, halted := true }⟩

/-- Whether a step leaves an expression to ask for after it. -/
def goesOn (step : Step (Parser σ) (Except Diagnostic Expr)) : Bool :=
  match step.given with
  | some (.ok _) => true
  | _ => false

/-- Take at most so many steps, after those already taken. -/
def stepsOnto (taken : Array (Step (Parser σ) (Except Diagnostic Expr))) :
    Nat → Parser σ → List (Step (Parser σ) (Except Diagnostic Expr))
  | 0, _ => taken.toList
  | calls + 1, p =>
    let step := p.next
    if goesOn step then stepsOnto (taken.push step) calls step.after
    else (taken.push step).toList

/-- **The steps of a parser**, at most so many, up to and with the first that gives no expression.
-/
def steps (calls : Nat) (p : Parser σ) : List (Step (Parser σ) (Except Diagnostic Expr)) :=
  stepsOnto #[] calls p

theorem stepsOnto_eq (taken : Array (Step (Parser σ) (Except Diagnostic Expr))) (calls : Nat)
    (p : Parser σ) : stepsOnto taken calls p = taken.toList ++ steps calls p := by
  unfold steps
  induction calls generalizing taken p with
  | zero => simp [stepsOnto]
  | succ calls ih =>
    simp only [stepsOnto]
    rw [ih (taken.push p.next), ih (#[].push p.next)]
    split <;> simp

@[simp] theorem steps_zero (p : Parser σ) : steps 0 p = [] := rfl

/-- The first step, and those after it if it gives an expression. -/
theorem steps_succ (calls : Nat) (p : Parser σ) :
    steps (calls + 1) p = p.next :: if goesOn p.next then steps calls p.next.after else [] := by
  conv => lhs; unfold steps
  simp only [stepsOnto, stepsOnto_eq]
  split <;> simp

end Parser

end LoxSyntax
