import LoxSyntax.Proofs.Expr.Calls

/-! # Counting levels
`Reading.operand` and `Reading.chain` are given the number of levels that are left. A **counter**
counts the levels that are taken: every token that opens a node takes one, a group and a unary
operator give theirs back at their end, and a chain gives back those of all its operators at its own
end. Levels that were not taken cannot be given back: an action that tries has no result.

A counter with a **guard** fails at the token that takes a level beyond it; a counter without one
goes on as long as there are items. Over an endless supply that may be for ever, so readings that
count have **fuel**, and a reading that would need more has no result at all.

The readings are those of a recursive reader that has one routine each for operands, groups and
sides. The counter counts the routines that are open, too; it notes how many levels are taken and
routines open whenever that changes, and what each routine leaves at its end.

1. *Counters* and what is done to them.
2. *Readings* that count.
3. *Fuel*: more of it changes no result.
4. *Calls* of a parser whose readings count. -/

namespace LoxSyntax

/-! ## (1) Counters -/

/-- A **charge**: a token that took a level, and how many levels were taken then. -/
structure Charge where
  /-- The token. -/
  token : Token
  /-- How many levels were taken, its own included. -/
  level : Nat
deriving DecidableEq

/-- The failure at a charge, for want of levels. -/
def Charge.tooDeep (charge : Charge) (limit : Nat) : Diagnostic :=
  .tooDeep charge.token.location limit charge.token.span

/-- A **routine**, which reads a part of an expression. -/
inductive Routine where
  /-- It reads an operand. -/
  | operand
  /-- It reads what is left of a group after the opening parenthesis. -/
  | group
  /-- It reads an operand and the chain after it. -/
  | side
  /-- It has another one read one level deeper. -/
  | nested
deriving DecidableEq

/-- A **visit** to a routine: how many levels were taken at its start and at its end. -/
structure Visit where
  /-- The routine. -/
  routine : Routine
  /-- How many levels were taken at its start. -/
  before : Nat
  /-- How many levels were taken at its end. -/
  after : Nat
  /-- Whether it succeeded. -/
  succeeded : Bool
deriving DecidableEq

/-- A **moment**: how many levels are taken, and how many routines are open. -/
structure Moment where
  /-- How many levels are taken. -/
  depth : Nat
  /-- How many operands, groups and sides are being read. -/
  opened : Nat
deriving DecidableEq

/-- A **counter**: a reader, how many levels are taken and routines open now, and what was noted. -/
structure Counter (σ : Type) where
  /-- The reader. -/
  reader : Reader σ
  /-- The moment. -/
  now : Moment
  /-- The moments before it, in order. -/
  moments : List Moment
  /-- The charges so far, in order. -/
  charges : List Charge
  /-- The visits that have ended, in order. -/
  visits : List Visit

namespace Counter

variable {σ : Type}

/-- A counter at the start of an expression: no level is taken, and no routine is open. -/
def start (r : Reader σ) : Counter σ := ⟨r, ⟨0, 0⟩, [], [], []⟩

/-- Another moment follows. -/
def moveTo (moment : Moment) (c : Counter σ) : Counter σ :=
  { c with now := moment, moments := c.moments ++ [c.now] }

/-- Charge a token for a level. -/
def charge (t : Token) (c : Counter σ) : Counter σ :=
  { c.moveTo { c.now with depth := c.now.depth + 1 } with
    charges := c.charges ++ [⟨t, c.now.depth + 1⟩] }

/-- **Give levels back.** There is no result where not so many are taken. -/
def leave (levels : Nat) (c : Counter σ) : Option (Counter σ) :=
  if levels ≤ c.now.depth then some (c.moveTo { c.now with depth := c.now.depth - levels })
  else none

/-- One routine more is open. -/
def opening (c : Counter σ) : Counter σ := c.moveTo { c.now with opened := c.now.opened + 1 }

/-- So many routines are open again. -/
def closing (opened : Nat) (c : Counter σ) : Counter σ := c.moveTo { c.now with opened := opened }

/-- Note a visit that ends now. -/
def note (routine : Routine) (before : Nat) (succeeded : Bool) (c : Counter σ) : Counter σ :=
  { c with visits := c.visits ++ [⟨routine, before, c.now.depth, succeeded⟩] }

/-- Levels that were taken can be given back. -/
theorem leave_of_le {levels : Nat} {c : Counter σ} (taken : levels ≤ c.now.depth) :
    c.leave levels = some (c.moveTo { c.now with depth := c.now.depth - levels }) :=
  if_pos taken

/-- Only levels that were taken are given back. -/
theorem leave_eq_some {levels : Nat} {c c' : Counter σ} (left : c.leave levels = some c') :
    levels ≤ c.now.depth ∧ c' = c.moveTo { c.now with depth := c.now.depth - levels } := by
  rw [leave] at left
  split at left
  · next taken => exact ⟨taken, (Option.some.inj left).symm⟩
  · cases left

end Counter

/-- An action on a counter, which may fail, and may have no result. -/
abbrev Counting (σ α : Type) := ExceptT Diagnostic (StateT (Counter σ) Option) α

namespace Counting

variable {σ α β : Type}

/-- Do to the reader what a reading action does. -/
def read (x : Reading σ α) : Counting σ α := fun c =>
  match x c.reader with
  | .ok a r => some (.ok a, { c with reader := r })
  | .error d r => some (.error d, { c with reader := r })

/-- **Take a level** for a token. With a guard, one too many is a failure; it is taken all the
same. -/
def enter (guard : Option Nat) (t : Token) : Counting σ Unit := fun c =>
  match guard with
  | none => some (.ok (), c.charge t)
  | some limit =>
    if limit < (c.charge t).now.depth then
      some (.error (.tooDeep t.location limit t.span), c.charge t)
    else some (.ok (), c.charge t)

/-- Give levels back. -/
def leave (levels : Nat) : Counting σ Unit := fun c =>
  (c.leave levels).map fun c' => (.ok (), c')

/-- Have no result. -/
def giveUp : Counting σ α := fun _ => none

/-- **Do something and then finish**, whether it fails or not, and give what it gives. -/
def finishing (x : Counting σ α)
    (finish : Except Diagnostic α → Counter σ → Option (Counter σ)) : Counting σ α := fun c => do
  let (result, c₁) ← x c
  let c₂ ← finish result c₁
  return (result, c₂)

/-- Note the visit to a routine. -/
def visit (routine : Routine) (x : Counting σ α) : Counting σ α := fun c =>
  finishing x (fun result c' => some (c'.note routine c.now.depth result.isOk)) c

/-- **Do something inside a routine**, which is open until it ends, and note the visit. -/
def inside (routine : Routine) (x : Counting σ α) : Counting σ α :=
  visit routine fun c => finishing x (fun _ c' => some (c'.closing c.now.opened)) c.opening

/-- Do something and give a level back. -/
def givingBack (x : Counting σ α) : Counting σ α := finishing x fun _ => Counter.leave 1

/-- Do something one level deeper, and note the visit. -/
def nested (guard : Option Nat) (t : Token) (x : Counting σ α) : Counting σ α :=
  visit .nested do
    enter guard t
    givingBack x

section Laws

variable {x : Counting σ α} {f : α → Counting σ β} {c c₁ c₂ c' : Counter σ} {a : α}
  {d : Diagnostic} {result : Except Diagnostic α}

/-- After a success the second action goes on. -/
theorem bind_of_ok (done : x c = some (.ok a, c₁)) (f : α → Counting σ β) :
    (x >>= f) c = f a c₁ := by
  change (x c).bind _ = _
  rw [done]
  rfl

/-- After a failure the second action is left out. -/
theorem bind_of_error (done : x c = some (.error d, c₁)) (f : α → Counting σ β) :
    (x >>= f) c = some (.error d, c₁) := by
  change (x c).bind _ = _
  rw [done]
  rfl

/-- **Two actions have a result** where the first succeeds and the second has it, or the first
fails. -/
theorem of_bind {result : Except Diagnostic β} (done : (x >>= f) c = some (result, c')) :
    (∃ a c₁, x c = some (.ok a, c₁) ∧ f a c₁ = some (result, c')) ∨
      ∃ d, x c = some (.error d, c') ∧ result = .error d := by
  cases started : x c with
  | none =>
      change (x c).bind _ = _ at done
      rw [started] at done
      cases done
  | some outcome =>
      obtain ⟨first, c₁⟩ := outcome
      cases first with
      | ok a =>
          rw [bind_of_ok started] at done
          exact .inl ⟨a, c₁, rfl, done⟩
      | error d =>
          rw [bind_of_error started] at done
          cases done
          exact .inr ⟨d, rfl, rfl⟩

/-- What is finished gives what it gave before. -/
theorem finishing_of_some {finish : Except Diagnostic α → Counter σ → Option (Counter σ)}
    (done : x c = some (result, c₁)) (finished : finish result c₁ = some c₂) :
    finishing x finish c = some (result, c₂) := by
  rw [finishing, done]
  change (finish result c₁).bind _ = _
  rw [finished]
  rfl

/-- What was finished has a result of its own. -/
theorem of_finishing {finish : Except Diagnostic α → Counter σ → Option (Counter σ)}
    (done : finishing x finish c = some (result, c')) :
    ∃ c₁, x c = some (result, c₁) ∧ finish result c₁ = some c' := by
  rw [finishing, Option.bind_eq_bind, Option.bind_eq_some_iff] at done
  obtain ⟨⟨given, c₁⟩, started, done⟩ := done
  rw [Option.bind_eq_bind, Option.bind_eq_some_iff] at done
  obtain ⟨c₂, finished, same⟩ := done
  cases same
  exact ⟨c₁, started, finished⟩

/-- Without a guard a level is always taken. -/
theorem enter_none (t : Token) (c : Counter σ) : enter none t c = some (.ok (), c.charge t) := rfl

/-- A level is taken where the guard allows one more. -/
theorem enter_of_lt {limit : Nat} (t : Token) (allowed : c.now.depth < limit) :
    enter (some limit) t c = some (.ok (), c.charge t) :=
  if_neg (Nat.not_lt_of_le allowed)

/-- Where the guard allows no more, a level is taken with a failure. -/
theorem enter_of_le {limit : Nat} (t : Token) (full : limit ≤ c.now.depth) :
    enter (some limit) t c =
      some (.error (.tooDeep t.location limit t.span), c.charge t) :=
  if_pos (Nat.lt_succ_of_le full)

/-- The token is charged in any case, and with success only where the guard allows one level
more. -/
theorem of_enter {guard : Option Nat} {t : Token} {result : Except Diagnostic Unit}
    (done : enter guard t c = some (result, c')) :
    c' = c.charge t ∧ (result = .ok () → ∀ limit ∈ guard, c.now.depth < limit) := by
  cases guard with
  | none =>
      cases done
      exact ⟨rfl, fun _ limit member => by cases member⟩
  | some limit =>
      rcases Nat.lt_or_ge c.now.depth limit with allowed | full
      · rw [enter_of_lt t allowed] at done
        cases done
        refine ⟨rfl, fun _ limit member => ?_⟩
        cases member
        exact allowed
      · rw [enter_of_le t full] at done
        cases done
        exact ⟨rfl, fun same => by cases same⟩

/-- Levels that were taken can be given back. -/
theorem leave_of_le {levels : Nat} (taken : levels ≤ c.now.depth) :
    leave levels c =
      some (.ok (), c.moveTo { c.now with depth := c.now.depth - levels }) := by
  rw [leave, Counter.leave_of_le taken]
  rfl

end Laws

/-! ## (2) Readings -/

mutual

/-- **Read an operand.** -/
def operand [Supply σ] (guard : Option Nat) (fuel : Nat) : Counting σ Expr :=
  match fuel with
  | 0 => giveUp
  | fuel + 1 => inside .operand do
    let t ← read Reading.advance
    match t.kind.opening? with
    | none => throw (.expectedExpression t.location t.span)
    | some .literal => return .literal (t.literal.getD .nil)
    | some .group =>
      nested guard t <| inside .group do
        let inner ← inside .side do
          let first ← operand guard fuel
          chain guard fuel 0 0 first
        read (Reading.closeGroup inner)
    | some (.unary op) =>
      nested guard t do
        let inner ← operand guard fuel
        return .unary op inner
termination_by structural fuel

/-- **Read a chain**, of which so many operators were taken already. Their levels are given back
when it ends; when it fails they are not. -/
def chain [Supply σ] (guard : Option Nat) (fuel least links : Nat) (left : Expr) :
    Counting σ Expr :=
  match fuel with
  | 0 => giveUp
  | fuel + 1 => do
    match ← read (Reading.peekOperator least) with
    | none =>
      leave links
      return left
    | some op =>
      let t ← read Reading.advance
      enter guard t
      let right ← inside .side do
        let first ← operand guard fuel
        chain guard fuel (op.precedence + 1) 0 first
      chain guard fuel least (links + 1) (.binary left op right)
termination_by structural fuel

end

/-- **Read a side**: an operand and the chain after it. -/
def side [Supply σ] (guard : Option Nat) (fuel least : Nat) : Counting σ Expr :=
  inside .side do
    let first ← operand guard fuel
    chain guard fuel least 0 first

/-- **Read what is left of a group** after the opening parenthesis. -/
def group [Supply σ] (guard : Option Nat) (fuel : Nat) : Counting σ Expr :=
  inside .group do
    let inner ← side guard fuel 0
    read (Reading.closeGroup inner)

/-- What is read as an operand, by the routines for its parts. -/
theorem operand_succ [Supply σ] (guard : Option Nat) (fuel : Nat) :
    (operand guard (fuel + 1) : Counting σ Expr) = inside .operand (do
      let t ← read Reading.advance
      match t.kind.opening? with
      | none => throw (.expectedExpression t.location t.span)
      | some .literal => return .literal (t.literal.getD .nil)
      | some .group => nested guard t (group guard fuel)
      | some (.unary op) =>
        nested guard t do
          let inner ← operand guard fuel
          return .unary op inner) := by
  rw [operand]
  rfl

/-- What is read as a chain, with a side after each operator. -/
theorem chain_succ [Supply σ] (guard : Option Nat) (fuel least links : Nat) (left : Expr) :
    (chain guard (fuel + 1) least links left : Counting σ Expr) = (do
      match ← read (Reading.peekOperator least) with
      | none =>
        leave links
        return left
      | some op =>
        let t ← read Reading.advance
        enter guard t
        let right ← side guard fuel (op.precedence + 1)
        chain guard fuel least (links + 1) (.binary left op right)) := by
  rw [chain]
  rfl

/-! ## (3) Fuel -/

/-- **An action that does more**: it has every result that the other one has. -/
def Does (x y : Counting σ α) : Prop := ∀ c result, x c = some result → y c = some result

/-- An action does what it does. -/
theorem Does.refl (x : Counting σ α) : Does x x := fun _ _ done => done

/-- Without a result there is nothing to do. -/
theorem does_giveUp (y : Counting σ α) : Does giveUp y := by
  intro c result done
  cases done

/-- Actions one after the other do more if each does. -/
theorem Does.bind {x y : Counting σ α} {f g : α → Counting σ β} (first : Does x y)
    (second : ∀ a, Does (f a) (g a)) : Does (x >>= f) (y >>= g) := by
  rintro c ⟨result, c'⟩ done
  rcases of_bind done with ⟨a, c₁, started, went⟩ | ⟨d, failed, rfl⟩
  · rw [bind_of_ok (first c _ started)]
    exact second a c₁ _ went
  · exact bind_of_error (first c _ failed) g

/-- What is finished does more if it did before. -/
theorem Does.finishing {x y : Counting σ α} (does : Does x y)
    (finish : Except Diagnostic α → Counter σ → Option (Counter σ)) :
    Does (finishing x finish) (finishing y finish) := by
  rintro c ⟨result, c'⟩ done
  obtain ⟨c₁, started, finished⟩ := of_finishing done
  exact finishing_of_some (does c _ started) finished

/-- A visit does more if more is done. -/
theorem Does.visit {x y : Counting σ α} (does : Does x y) (routine : Routine) :
    Does (visit routine x) (visit routine y) :=
  fun c => does.finishing _ c

/-- Inside a routine more is done if more is done there. -/
theorem Does.inside {x y : Counting σ α} (does : Does x y) (routine : Routine) :
    Does (inside routine x) (inside routine y) :=
  Does.visit (fun c => does.finishing _ c.opening) routine

/-- One level deeper more is done if more is done there. -/
theorem Does.nested {x y : Counting σ α} (does : Does x y) (guard : Option Nat) (t : Token) :
    Does (nested guard t x) (nested guard t y) :=
  ((Does.refl (enter guard t)).bind fun _ => does.finishing _).visit .nested

/-- A side does more if its operand and its chain do. -/
theorem Does.side [Supply σ] {guard : Option Nat} {fuel more : Nat}
    (operand : Does (operand guard fuel : Counting σ Expr) (operand guard more))
    (chain : ∀ (least links : Nat) (left : Expr),
      Does (chain guard fuel least links left : Counting σ Expr)
        (chain guard more least links left))
    (least : Nat) : Does (side guard fuel least : Counting σ Expr) (side guard more least) :=
  (operand.bind (chain least 0)).inside .side

/-- **More fuel changes no result.** -/
theorem does_succ [Supply σ] (guard : Option Nat) (fuel : Nat) :
    Does (operand guard fuel : Counting σ Expr) (operand guard (fuel + 1)) ∧
    ∀ (least links : Nat) (left : Expr),
      Does (chain guard fuel least links left : Counting σ Expr)
        (chain guard (fuel + 1) least links left) := by
  induction fuel with
  | zero =>
      constructor
      · rw [operand]
        exact does_giveUp _
      · intro least links left
        rw [chain]
        exact does_giveUp _
  | succ fuel ih =>
      obtain ⟨operands, chains⟩ := ih
      constructor
      · rw [operand_succ, operand_succ]
        refine Does.inside ?_ .operand
        apply (Does.refl (read Reading.advance)).bind
        intro t
        generalize t.kind.opening? = opening
        cases opening with
        | none => exact .refl _
        | some opening =>
            cases opening with
            | literal => exact .refl _
            | group =>
                have sides := (operands.side chains 0).bind fun inner =>
                  Does.refl (read (Reading.closeGroup inner))
                exact (sides.inside .group).nested guard t
            | unary op => exact (operands.bind fun inner => .refl _).nested guard t
      · intro least links left
        rw [chain_succ, chain_succ]
        apply (Does.refl (read (Reading.peekOperator least))).bind
        intro seen
        cases seen with
        | none => exact .refl _
        | some op =>
            apply (Does.refl (read Reading.advance)).bind
            intro t
            apply (Does.refl (enter guard t)).bind
            intro _
            exact (operands.side chains (op.precedence + 1)).bind fun right => chains _ _ _

/-- What was read with some fuel is read with more. -/
theorem side_of_le [Supply σ] {guard : Option Nat} {fuel more least : Nat} (le : fuel ≤ more)
    {c : Counter σ} {result : Except Diagnostic Expr × Counter σ}
    (counted : side guard fuel least c = some result) : side guard more least c = some result := by
  induction le with
  | refl => exact counted
  | step le ih =>
      obtain ⟨operands, chains⟩ := does_succ (σ := σ) guard _
      exact operands.side chains least c result ih

/-! ## (4) Calls -/

/-- What a **call** of a parser does whose reading counts levels. -/
structure Outcome (σ : Type) where
  /-- What is given. -/
  given : Option (Except Diagnostic Expr)
  /-- The charges of the call, in order. -/
  charges : List Charge
  /-- The moments of the reading, in order. -/
  moments : List Moment
  /-- The visits of the reading, in order of their ends. -/
  visits : List Visit
  /-- The parser afterwards. -/
  after : Parser σ

/-- A call that gives nothing, and reads nothing. -/
def Outcome.nothing (after : Parser σ) : Outcome σ := ⟨none, [], [], [], after⟩

/-- A call of a parser that gives what was read, with the counter as it is then. -/
def Outcome.ofRead (p : Parser σ) (result : Except Diagnostic Expr) (c : Counter σ) : Outcome σ :=
  ⟨some result, c.charges, c.moments ++ [c.now], c.visits,
    { p with ahead := c.reader.ahead, last := c.reader.last, halted := !result.isOk }⟩

/-- **Call a parser** whose reading counts levels. -/
def call [Supply σ] (guard : Option Nat) (fuel : Nat) (p : Parser σ) : Option (Outcome σ) :=
  if p.halted then some (.nothing p)
  else if Parser.isEnd p.ahead.peek.given then
    some (.nothing { p with ahead := p.ahead.peek.after, halted := true })
  else (side guard fuel 0 (.start p.reader)).map fun done => .ofRead p done.1 done.2

/-- A parser that has halted gives nothing. -/
theorem call_of_halted [Supply σ] {guard : Option Nat} {fuel : Nat} {p : Parser σ}
    (halted : p.halted = true) : call guard fuel p = some (.nothing p) := by
  rw [call, if_pos halted]

/-- At the end of input nothing is given. -/
theorem call_of_isEnd [Supply σ] {guard : Option Nat} {fuel : Nat} {p : Parser σ}
    (running : p.halted = false) (ends : Parser.isEnd p.ahead.peek.given = true) :
    call guard fuel p =
      some (.nothing { p with ahead := p.ahead.peek.after, halted := true }) := by
  rw [call, running, ends]
  rfl

/-- **What is read is given**, whether it is an expression or an error. -/
theorem call_of_side [Supply σ] {guard : Option Nat} {fuel : Nat} {p : Parser σ}
    {result : Except Diagnostic Expr} {c : Counter σ} (running : p.halted = false)
    (begins : Parser.isEnd p.ahead.peek.given = false)
    (counted : side guard fuel 0 (.start p.reader) = some (result, c)) :
    call guard fuel p = some (.ofRead p result c) := by
  rw [call, running, begins, counted]
  rfl

/-- **A call** finds a parser halted, or the end of input, or something to read. -/
theorem of_call [Supply σ] {guard : Option Nat} {fuel : Nat} {p : Parser σ} {outcome : Outcome σ}
    (called : call guard fuel p = some outcome) :
    (outcome = .nothing outcome.after) ∨
      p.halted = false ∧ Parser.isEnd p.ahead.peek.given = false ∧ ∃ result c,
        side guard fuel 0 (.start p.reader) = some (result, c) ∧ outcome = .ofRead p result c := by
  rw [call] at called
  split at called
  · cases called
    exact .inl rfl
  split at called
  · cases called
    exact .inl rfl
  next running begins =>
    obtain ⟨⟨result, c⟩, counted, rfl⟩ := Option.map_eq_some_iff.mp called
    exact .inr ⟨by simpa using running, by simpa using begins, result, c, counted, rfl⟩

/-- An expression that is given was read. -/
theorem counted_of_call [Supply σ] {guard : Option Nat} {fuel : Nat} {p : Parser σ}
    {outcome : Outcome σ} {e : Expr} (called : call guard fuel p = some outcome)
    (given : outcome.given = some (.ok e)) :
    p.halted = false ∧ ∃ c, side guard fuel 0 (.start p.reader) = some (.ok e, c) := by
  rcases of_call called with nothing | ⟨running, begins, result, c, counted, rfl⟩
  · rw [nothing] at given
    cases given
  · cases given
    exact ⟨running, c, counted⟩

/-- What a call did with some fuel it does with more. -/
theorem call_of_le [Supply σ] {guard : Option Nat} {fuel more : Nat} (le : fuel ≤ more)
    {p : Parser σ} {outcome : Outcome σ} (called : call guard fuel p = some outcome) :
    call guard more p = some outcome := by
  rw [call] at called ⊢
  split at called
  · next halted => rw [if_pos halted, called]
  next running =>
  rw [if_neg running]
  split at called
  · next ends => rw [if_pos ends, called]
  next begins =>
  rw [if_neg begins]
  obtain ⟨result, counted, rfl⟩ := Option.map_eq_some_iff.mp called
  exact Option.map_eq_some_iff.mpr ⟨result, side_of_le le counted, rfl⟩

/-- Call a parser so many times. -/
def calls [Supply σ] (guard : Option Nat) (fuel : Nat) :
    Nat → Parser σ → Option (List (Outcome σ))
  | 0, _ => some []
  | more + 1, p => do
    let outcome ← call guard fuel p
    let outcomes ← calls guard fuel more outcome.after
    return outcome :: outcomes

/-- Calls one after the other. -/
theorem calls_succ [Supply σ] {guard : Option Nat} {fuel more : Nat} {p : Parser σ}
    {outcomes : List (Outcome σ)} :
    calls guard fuel (more + 1) p = some outcomes ↔ ∃ outcome rest,
      call guard fuel p = some outcome ∧ calls guard fuel more outcome.after = some rest ∧
        outcome :: rest = outcomes := by
  rw [calls]
  simp only [Option.bind_eq_bind, Option.bind_eq_some_iff, Option.pure_def, Option.some.injEq]
  constructor
  · rintro ⟨outcome, called, rest, others, same⟩
    exact ⟨outcome, rest, called, others, same⟩
  · rintro ⟨outcome, rest, called, others, same⟩
    exact ⟨outcome, called, rest, others, same⟩

/-- What calls did with some fuel they do with more. -/
theorem calls_of_le [Supply σ] {guard : Option Nat} {fuel above : Nat} (le : fuel ≤ above)
    {more : Nat} {p : Parser σ} {outcomes : List (Outcome σ)}
    (called : calls guard fuel more p = some outcomes) :
    calls guard above more p = some outcomes := by
  induction more generalizing p outcomes with
  | zero => exact called
  | succ more ih =>
      obtain ⟨outcome, rest, first, others, rfl⟩ := calls_succ.mp called
      exact calls_succ.mpr ⟨outcome, rest, call_of_le le first, ih others, rfl⟩

end Counting

end LoxSyntax
