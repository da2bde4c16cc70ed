import LoxSyntax.Proofs.Expr.Parallel
import LoxSyntax.Proofs.Expr.Runs
import LoxSyntax.Proofs.Expr.Taking
import LoxSyntax.Proofs.Expr.Traces

/-! # What a parser asks for
A parser asks its supply for no more than it needs. Behind a supply that counts its calls, what was
received is at every moment what was taken, and the item held. So after an expression one item more
was received than its tokens, if there is one; an error is about the last item received; and after
an error, or after the end of input, nothing is asked for any more.

1. *Lookaheads* and what they have received.
2. *Results so far*: `Received` says what a lazy parser has received with them.
3. *Calls*, one after the other. -/

namespace LoxSyntax

variable {σ : Type} [Supply σ]

/-! ## (1) Lookaheads -/

namespace Lookahead

variable {s : σ} {items : List Item} {ahead : Lookahead (Counted σ)}

/-- **What was taken was received.** -/
theorem HasReceived.took {after : Lookahead (Counted σ)} {ts : List Token}
    (has : HasReceived s items ahead) (took : Took ahead ts after) :
    HasReceived s (items ++ ts.map .token) after := by
  induction took with
  | nothing => rwa [List.map_nil, List.append_nil]
  | look took ih => exact ih.peek
  | token took given kind ih =>
      have pulled := ih.pull
      rwa [given, List.append_assoc, Option.toList_some, ← List.map_singleton,
        ← List.map_append] at pulled

/-- A look that gave nothing has asked a supply that gave nothing. -/
theorem asked_of_peek (nothing : ahead.peek.given = none) :
    ∃ call < ahead.peek.after.supply.asked,
      Supply.answer ahead.peek.after.supply.start call = none := by
  unfold Lookahead.peek at nothing ⊢
  split at nothing
  · cases nothing
  · exact ⟨ahead.supply.asked, Nat.lt_succ_self _, nothing⟩

/-- A pull that gave nothing has asked a supply that gave nothing. -/
theorem asked_of_pull (nothing : ahead.pull.given = none) :
    ∃ call < ahead.pull.after.supply.asked,
      Supply.answer ahead.pull.after.supply.start call = none := by
  unfold Lookahead.pull at nothing ⊢
  split at nothing
  · cases nothing
  · exact ⟨ahead.supply.asked, Nat.lt_succ_self _, nothing⟩

/-- Where a call to a fused supply gave nothing, all its items were received. -/
theorem HasReceived.gives (has : HasReceived s items ahead) (fused : Supply.Fused s)
    (nothing : ∃ call < ahead.supply.asked, Supply.answer ahead.supply.start call = none) :
    Supply.Gives s ahead.supply.received := by
  obtain ⟨call, lt, none⟩ := nothing
  have start := has.start
  subst start
  exact Counted.gives_received fused lt none

/-- **After a look** the next item was received too, if there is one. -/
theorem HasReceived.received_peek (has : HasReceived s items ahead) (fused : Supply.Fused s) :
    ahead.peek.after.supply.received = items ++ (Supply.answer s items.length).toList := by
  have looked := has.peek
  have received := looked.received
  rw [held_peek] at received
  rw [received]
  congr 2
  cases given : ahead.peek.given with
  | none =>
      -- Nothing was left, so the answer is nothing too.
      have gives := looked.gives fused (asked_of_peek given)
      have last := gives items.length
      rw [received, given, Option.toList_none, List.append_nil,
        List.getElem?_eq_none (Nat.le_refl _)] at last
      exact last.symm
  | some item =>
      rw [given, Option.toList_some] at received
      have start := looked.start
      have answers := Counted.received_of_fused (c := ahead.peek.after.supply) (start ▸ fused)
      rw [received, start] at answers
      have within : items.length < ahead.peek.after.supply.asked := by
        have length := answers.1
        rw [List.length_append, List.length_singleton] at length
        exact length
      rw [← answers.2 _ within, List.getElem?_append_right (Nat.le_refl _), Nat.sub_self]
      rfl

end Lookahead

namespace Parser

/-! ## (2) Results so far -/

/-- The results of calls that give some expressions. -/
def okays (readings : List (Expr × List Token)) : List (Option (Except Diagnostic Expr)) :=
  readings.map fun reading => some (.ok reading.1)

/-- The items that spell some expressions, one after the other. -/
def spelling (readings : List (Expr × List Token)) : List Item :=
  (readings.flatMap (·.2)).map .token

/-- Expressions with the tokens that spell them. -/
def Spelled (readings : List (Expr × List Token)) : Prop :=
  ∀ reading ∈ readings, reading.1.Spells reading.2

/-- **What a lazy parser has received** from a supply when it has given some results. -/
inductive Received (s : σ) : List (Option (Except Diagnostic Expr)) → List Item → Prop where
  /-- Before the first call nothing was received. -/
  | start : Received s [] []
  /-- After an expression the tokens of all of them were received, and one item more if there is
  one. -/
  | expression {readings : List (Expr × List Token)} (any : readings ≠ [])
    (spells : Spelled readings) : Received s (okays readings)
      (spelling readings ++ (Supply.answer s (spelling readings).length).toList)
  /-- After a fault, which is given as it is, that is the last item received. -/
  | fault {readings : List (Expr × List Token)} {ts : List Token} {d : Diagnostic} (more : Nat)
    (spells : Spelled readings) (kinds : ∀ t ∈ ts, t.kind ≠ .endOfInput) :
    Received s (okays readings ++ some (.error d) :: List.replicate more none)
      (spelling readings ++ ts.map .token ++ [.fault d])
  /-- After an error at a token that is the last item received. -/
  | token {readings : List (Expr × List Token)} {ts : List Token} {t : Token} {d : Diagnostic}
    (more : Nat) (spells : Spelled readings) (kinds : ∀ t ∈ ts, t.kind ≠ .endOfInput)
    (fails : Reading.FailsAt t d) :
    Received s (okays readings ++ some (.error d) :: List.replicate more none)
      (spelling readings ++ ts.map .token ++ [.token t])
  /-- After an error for want of items all were received, none of them the end of input. -/
  | missing {readings : List (Expr × List Token)} {ts : List Token} {span : Span} {d : Diagnostic}
    (more : Nat) (spells : Spelled readings) (kinds : ∀ t ∈ ts, t.kind ≠ .endOfInput)
    (fails : Reading.FailsAt (.endOfInput span) d)
    (all : Supply.Gives s (spelling readings ++ ts.map .token)) :
    Received s (okays readings ++ some (.error d) :: List.replicate more none)
      (spelling readings ++ ts.map .token)
  /-- After nothing at an end of input that is the last item received. -/
  | ended {readings : List (Expr × List Token)} {t : Token} (more : Nat)
    (spells : Spelled readings) (kind : t.kind = .endOfInput) :
    Received s (okays readings ++ List.replicate (more + 1) none)
      (spelling readings ++ [.token t])
  /-- After nothing for want of items all were received. -/
  | exhausted {readings : List (Expr × List Token)} (more : Nat) (spells : Spelled readings)
    (all : Supply.Gives s (spelling readings)) :
    Received s (okays readings ++ List.replicate (more + 1) none) (spelling readings)

/-- The spelling of one expression more. -/
theorem spelling_append (readings : List (Expr × List Token)) (e : Expr) (ts : List Token) :
    spelling (readings ++ [(e, ts)]) = spelling readings ++ ts.map .token := by
  simp [spelling]

/-! ## (3) Calls -/

variable {s : σ} {p : Parser (Counted σ)} {readings : List (Expr × List Token)}

/-- What was received when a call gave an error. -/
theorem received_of_error (fused : Supply.Fused s) (spells : Spelled readings)
    (has : p.ahead.HasReceived s (spelling readings)) {d : Diagnostic}
    (given : p.next.given = some (.error d)) (more : Nat) :
    Received s (okays readings ++ some (.error d) :: List.replicate more none)
      p.next.after.ahead.supply.received := by
  obtain ⟨ts, before, took, fails, after⟩ := took_of_next_error given
  have pulled := (has.took took).pull
  have received := pulled.received
  have kinds := took.kind_ne_endOfInput
  rw [Lookahead.held_pull, Option.toList_none, List.append_nil] at received
  rw [after, received]
  cases fails with
  | fault next =>
      rw [next]
      exact .fault more spells kinds
  | token next fails =>
      rw [next]
      exact .token more spells kinds fails
  | missing next fails =>
      have all := pulled.gives fused (Lookahead.asked_of_pull next)
      rw [received] at all
      rw [next, Option.toList_none, List.append_nil] at all ⊢
      exact .missing more spells kinds fails all

/-- What was received when a call gave nothing. -/
theorem received_of_none (fused : Supply.Fused s) (spells : Spelled readings)
    (has : p.ahead.HasReceived s (spelling readings)) (running : p.halted = false)
    (given : p.next.given = none) (more : Nat) :
    Received s (okays readings ++ List.replicate (more + 1) none)
      p.next.after.ahead.supply.received := by
  obtain ⟨ends, after⟩ := next_eq_none running given
  have looked := has.peek
  have received := looked.received
  rw [Lookahead.held_peek] at received
  rw [after]
  change Received s _ p.ahead.peek.after.supply.received
  cases next : p.ahead.peek.given with
  | none =>
      have all := looked.gives fused (Lookahead.asked_of_peek next)
      rw [next, Option.toList_none, List.append_nil] at received
      rw [received] at all ⊢
      exact .exhausted more spells all
  | some item =>
      rw [next] at ends received
      rw [received]
      cases item with
      | token t => exact .ended more spells (by simpa [isEnd, Reading.kindOf] using ends)
      | fault d => cases ends

/-- **A run of calls**: from a moment at which a parser has received no more than it should, it
never receives more than it should. -/
theorem received_of_running (fused : Supply.Fused s) (spells : Spelled readings)
    (has : p.ahead.HasReceived s (spelling readings)) (running : p.halted = false)
    (now : Received s (okays readings) p.ahead.supply.received) (calls : Nat) :
    Received s (okays readings ++ p.results calls) (p.afterCalls calls).ahead.supply.received := by
  induction calls generalizing p readings with
  | zero =>
      rw [results, List.append_nil]
      exact now
  | succ calls ih =>
      rw [results, afterCalls]
      cases given : p.next.given with
      | none =>
          have halted := halted_of_none given
          rw [results_of_halted halted, afterCalls_of_halted halted]
          exact received_of_none fused spells has running given calls
      | some result =>
          cases result with
          | error d =>
              have halted := halted_of_error given
              rw [results_of_halted halted, afterCalls_of_halted halted]
              exact received_of_error fused spells has given calls
          | ok e =>
              -- The spelling was taken, and one look past it ended the expression.
              obtain ⟨ts, before, spelled, took, after⟩ := took_of_next_ok given
              have has' := has.took took
              rw [← spelling_append _ e] at has'
              have spells' : Spelled (readings ++ [(e, ts)]) :=
                List.forall_mem_append.mpr ⟨spells, List.forall_mem_singleton.mpr spelled⟩
              have now' : Received s (okays (readings ++ [(e, ts)]))
                  p.next.after.ahead.supply.received := by
                rw [after, has'.received_peek fused]
                exact .expression (by simp) spells'
              have rest := ih spells' (after ▸ has'.peek) (running_of_next given) now'
              rwa [okays, List.map_append, List.append_assoc] at rest

/-- A parser gives expressions, then at most one error, and then nothing for ever. -/
theorem exists_results_eq (p : Parser σ) (calls : Nat) :
    ∃ (es : List Expr) (failure : Option Diagnostic) (more : Nat),
      p.results calls = es.map (fun e => some (.ok e)) ++
        failure.toList.map (fun d => some (.error d)) ++ List.replicate more none := by
  induction calls generalizing p with
  | zero => exact ⟨[], none, 0, rfl⟩
  | succ calls ih =>
      rw [results]
      cases given : p.next.given with
      | none =>
          have halted := halted_of_none given
          exact ⟨[], none, calls + 1, by rw [results_of_halted halted]; rfl⟩
      | some result =>
          cases result with
          | error d =>
              have halted := halted_of_error given
              exact ⟨[], some d, calls, by rw [results_of_halted halted]; rfl⟩
          | ok e =>
              obtain ⟨es, failure, more, rest⟩ := ih p.next.after
              exact ⟨e :: es, failure, more, by rw [rest]; rfl⟩

/-- A parser that gave something other than an expression has halted. -/
theorem halted_of_mem_results {p : Parser σ} {calls : Nat}
    (other : ∃ result ∈ p.results calls, ∀ e, result ≠ some (.ok e)) :
    (p.afterCalls calls).halted = true := by
  induction calls generalizing p with
  | zero =>
      obtain ⟨result, member, -⟩ := other
      cases member
  | succ calls ih =>
      rw [afterCalls]
      obtain ⟨result, member, other⟩ := other
      rcases List.mem_cons.mp member with rfl | later
      · exact halted_afterCalls (halted_after_next other) calls
      · exact ih ⟨result, later, other⟩

/-- The parser of a supply that counts its calls. -/
def counting (s : σ) : Parser (Counted σ) := ofSupply (Counted.ofSupply s)

/-- **A parser is lazy.** Behind a supply that counts its calls, and otherwise answers as the one
given, a parser gives what it gives behind that one.

- It gives expressions, then at most one error, and then nothing for ever.
- Once it gave an error or nothing, it asks for nothing any more.
- If the supply is fused, what was received so far is as `Received` says: after an expression the
  tokens of all expressions and one item more, if there is one; after an error the last item
  received is the fault or the token that the error is about, or all items were received; after
  nothing the last item received is the end of input, or all items were received. -/
theorem received_lazily (s : σ) :
    (∀ calls, (counting s).results calls = (ofSupply s).results calls) ∧
    (∀ calls, ∃ (es : List Expr) (failure : Option Diagnostic) (more : Nat),
      (ofSupply s).results calls = es.map (fun e => some (.ok e)) ++
        failure.toList.map (fun d => some (.error d)) ++ List.replicate more none) ∧
    (∀ calls more, (∃ result ∈ (ofSupply s).results calls, ∀ e, result ≠ some (.ok e)) →
      ((counting s).afterCalls (calls + more)).ahead.supply.asked =
        ((counting s).afterCalls calls).ahead.supply.asked) ∧
    (Supply.Fused s → ∀ calls, Received s ((ofSupply s).results calls)
      ((counting s).afterCalls calls).ahead.supply.received) := by
  have counted : ∀ calls, (counting s).results calls = (ofSupply s).results calls :=
    results_of_answers (Counted.answer_ofSupply s)
  refine ⟨counted, exists_results_eq _, ?_, ?_⟩
  · intro calls more other
    rw [← counted] at other
    rw [afterCalls_add, afterCalls_of_halted (halted_of_mem_results other)]
  · intro fused calls
    have none : Spelled [] := List.forall_mem_nil _
    have run := received_of_running (p := counting s) fused none ⟨rfl, rfl⟩ rfl .start calls
    rwa [counted] at run

/-- What is received of a literal, a parenthesis that was never opened, and a literal after it: the
last literal is never asked for. -/
theorem received_lazily_unopened :
    let s := Replay.ofItems ([.nilWord, .rightParen, .nilWord].map (.token <| .fixed · .origin))
    Supply.Fused s ∧
      (∀ calls, Received s ((ofSupply s).results calls)
        ((counting s).afterCalls calls).ahead.supply.received) ∧
      ∀ more, ((counting s).afterCalls (2 + more)).ahead.supply.asked = 2 := by
  intro s
  have fused : Supply.Fused s := (Replay.gives_ofItems _).fused
  have failed : ((ofSupply s).results 2).all (Option.any Except.isOk) = false := by
    decide +kernel
  obtain ⟨result, member, other⟩ := List.all_eq_false.mp failed
  have stops : ∀ e, result ≠ some (.ok e) := by
    rintro e rfl
    exact other rfl
  obtain ⟨-, -, silent, received⟩ := received_lazily s
  refine ⟨fused, received fused, fun more => ?_⟩
  rw [silent 2 more ⟨result, member, stops⟩]
  decide +kernel

end Parser

end LoxSyntax
