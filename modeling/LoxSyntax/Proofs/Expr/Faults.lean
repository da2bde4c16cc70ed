import Mathlib.Control.Monad.Basic
import LoxSyntax.Proofs.Expr.Parallel
import LoxSyntax.Proofs.Expr.Runs
import LoxSyntax.Proofs.Expr.Taking

/-! # Faults cut a parse
A fault among the items ends the parse, whatever comes after it. Looks treat it as if nothing came,
so every reading that stops there runs into the fault later, and gives it as it is; a reading that
fails before does so at one of the tokens before the fault, as it does where nothing follows them.

1. *Items with the same beginning*: readers over them are in step until the fault.
2. *The error* of a parse that runs into a fault. -/

namespace LoxSyntax

open Reading

variable {σ : Type} [Supply σ]

/-! ## (1) Items with the same beginning -/

/-- **Two lists with the same beginning**: the same tokens, and then a fault in the first one, after
which it goes on in some way, while the second goes on in another. -/
def SameUntil (fault : Diagnostic) (rest rest' : List Item) (items : List Item) (last : Span)
    (items' : List Item) (last' : Span) : Prop :=
  last' = last ∧ ∃ ts : List Token, items = ts.map .token ++ .fault fault :: rest ∧
    items' = ts.map .token ++ rest'

/-- Lists with the same beginning start alike, if the second has the fault too, or ends where the
first has it and the readers may part there. -/
theorem SameUntil.startAlike {fault : Diagnostic} {rest rest' items items' : List Item}
    {last last' : Span} {out : Diagnostic → Prop}
    (then' : (∃ zs, rest' = .fault fault :: zs) ∨ rest' = [] ∧ out fault)
    (same : SameUntil fault rest rest' items last items' last') :
    StartAlike id out (SameUntil fault rest rest') items last items' last' := by
  obtain ⟨rfl, ts, rfl, rfl⟩ := same
  cases ts with
  | cons t ts => exact .token (t := t) ⟨rfl, ts, rfl, rfl⟩
  | nil =>
      obtain ⟨zs, rfl⟩ | ⟨rfl, lost⟩ := then'
      · have starts : StartAlike id out (SameUntil fault rest (.fault fault :: zs))
            (.fault fault :: rest) last' (.fault (fault.mapSpan id) :: zs) last' := .fault
        rwa [fault.mapSpan_id] at starts
      · exact .part lost

/-- Parsers over lists with the same beginning. -/
theorem beside_ofSupply {τ : Type} [Supply τ] {fault : Diagnostic} {xs : List Token}
    {rest rest' : List Item} {s : σ} {s' : τ}
    (gives : Supply.Gives s (xs.map .token ++ .fault fault :: rest))
    (gives' : Supply.Gives s' (xs.map .token ++ rest')) :
    Parser.Beside (Ahead (SameUntil fault rest rest')) (Parser.ofSupply s) (Parser.ofSupply s') :=
  ⟨rfl, rfl, fun _ => ⟨_, _, Lookahead.holds_ofSupply gives, Lookahead.holds_ofSupply gives', rfl,
    xs, rfl, rfl⟩⟩

namespace Parser

/-! ## (2) The error -/

/-- Tokens that come first of items with a fault come before the fault. -/
theorem tokens_before_fault {xs ts : List Token} {e : Diagnostic} {ys rest : List Item}
    (split : xs.map .token ++ Item.fault e :: ys = ts.map .token ++ rest) :
    ∃ left, xs = ts ++ left ∧ rest = left.map .token ++ .fault e :: ys := by
  induction ts generalizing xs with
  | nil => exact ⟨xs, rfl, split.symm⟩
  | cons t ts ih =>
      cases xs with
      | nil => cases split
      | cons x xs =>
          obtain ⟨same, split⟩ := List.cons.inj split
          obtain ⟨left, rfl, rest⟩ := ih split
          exact ⟨left, by rw [Item.token.inj same]; rfl, rest⟩

/-- **A run over items with a fault** ends with an error: the fault, or a failure at a token before
it. -/
theorem Run.failure_of_fault {p : Parser σ} {xs : List Token} {e : Diagnostic} {ys : List Item}
    {readings : List (Expr × List Token)} {left : List Item} {failure : Option Diagnostic}
    (kinds : ∀ t ∈ xs, t.kind ≠ .endOfInput)
    (run : Run p (xs.map .token ++ .fault e :: ys) readings left failure) :
    ∃ d, failure = some d ∧ (d = e ∨ ∃ t ∈ xs, FailsAt t d) := by
  obtain ⟨after, rfl, rfl⟩ := tokens_before_fault run.split
  cases failure with
  | none =>
      -- What is left begins with a token or with the fault, and neither is an end.
      obtain ⟨ends, -⟩ := next_eq_none run.running run.last
      rw [run.ahead.given_peek] at ends
      cases after with
      | nil => cases ends
      | cons t after =>
          have kind : t.kind = .endOfInput := by simpa [isEnd, Reading.kindOf] using ends
          exact absurd kind (kinds t (List.mem_append_right _ List.mem_cons_self))
  | some d =>
      refine ⟨d, rfl, ?_⟩
      obtain ⟨ts, before, took, fails, -⟩ := took_of_next_error run.last
      obtain ⟨rest, split, holds⟩ := run.ahead.took took
      obtain ⟨others, rfl, rfl⟩ := tokens_before_fault split
      have next := holds.given_pull
      cases fails with
      | fault given =>
          cases others with
          | nil =>
              cases given.symm.trans next
              exact .inl rfl
          | cons t others => cases given.symm.trans next
      | @token t given fails =>
          cases others with
          | nil => cases given.symm.trans next
          | cons t' others =>
              cases given.symm.trans next
              exact .inr ⟨t, by simp, fails⟩
      | missing given fails => cases others <;> cases given.symm.trans next

/-- **Faults cut a parse.** Over tokens without an end of input and then a fault, a parser gives
expressions and one error, and then nothing for ever: the same ones whatever comes after the fault.
The error is the fault as it is, or a failure at one of the tokens; and it is the fault if a parser
over the tokens alone meets no failure at one of them. -/
theorem results_until_fault {xs : List Token} (kinds : ∀ t ∈ xs, t.kind ≠ .endOfInput)
    (fault : Diagnostic) :
    ∃ (es : List Expr) (d : Diagnostic),
      (∀ {σ : Type} [Supply σ] (s : σ) (ys : List Item),
        Supply.Gives s (xs.map .token ++ .fault fault :: ys) →
        ∀ more, (ofSupply s).results (es.length + (1 + more)) =
          outcomes es (some d) ++ List.replicate more none) ∧
      (d = fault ∨ ∃ t ∈ xs, FailsAt t d) ∧
      ∀ {σ : Type} [Supply σ] (s : σ), Supply.Gives s (xs.map .token) →
        (∀ calls d', some (.error d') ∈ (ofSupply s).results calls → ∀ t ∈ xs, ¬ FailsAt t d') →
        d = fault := by
  -- The run over nothing but the tokens and the fault is taken as the measure of all others.
  let p := ofSupply (Replay.ofItems (xs.map .token ++ [.fault fault]))
  have gives := Replay.gives_ofItems (xs.map .token ++ [.fault fault])
  have running : p.halted = false := rfl
  obtain ⟨readings, left, failure, run⟩ := exists_run (Lookahead.holds_ofSupply gives) running
  obtain ⟨d, rfl, cause⟩ := run.failure_of_fault kinds
  refine ⟨readings.map (·.1), d, ?_, cause, ?_⟩
  · intro σ _ s ys gives' more
    have step : InStep (Ahead (σ := Replay) (τ := σ) (SameUntil fault [] (.fault fault :: ys))) id
        fun _ => False := inStep_ahead (SameUntil.startAlike (.inl ⟨ys, rfl⟩))
    rw [(beside_ofSupply gives gives').results step _ fun _ _ => not_false, map_mapSpan_id,
      List.length_map, run.results_add]
  · intro σ _ s gives' clean
    by_cases same : d = fault
    · exact same
    -- A failure at a token is met before the fault, so a parser over the tokens alone meets it too.
    obtain ⟨t, member, fails⟩ := cause.resolve_left same
    have results := run.results_add 0
    rw [List.replicate_zero, List.append_nil] at results
    have stays : ∀ d', some (.error d') ∈ p.results (readings.length + (1 + 0)) → d' ≠ fault := by
      intro d' given
      rw [results] at given
      have last : d' = d := by simpa [outcomes] using given
      rwa [last]
    have step : InStep (Ahead (σ := Replay) (τ := σ) (SameUntil fault [] [])) id (· = fault) :=
      inStep_ahead (SameUntil.startAlike (.inr ⟨rfl, rfl⟩))
    rw [← List.append_nil (xs.map _)] at gives'
    have alone := (beside_ofSupply gives gives').results step _ stays
    rw [map_mapSpan_id, results] at alone
    have given : some (.error d) ∈ (ofSupply s).results (readings.length + (1 + 0)) := by
      rw [alone]
      simp [outcomes]
    exact absurd fails (clean _ d given t member)

/-- What comes of a character that starts no token, after `nil ( nil`: the first literal, and the
fault in the group, whatever comes later. -/
theorem results_until_fault_group :
    let xs : List Token := [.nilWord, .leftParen, .nilWord].map (.fixed · .origin)
    let fault : Diagnostic := .unexpectedChar '@' .origin
    (∀ t ∈ xs, t.kind ≠ .endOfInput) ∧
      ∀ {σ : Type} [Supply σ] (s : σ) (ys : List Item),
        Supply.Gives s (xs.map .token ++ .fault fault :: ys) →
        ∀ more, (ofSupply s).results (2 + more) =
          [some (.ok (.literal .nil)), some (.error fault)] ++ List.replicate more none := by
  intro xs fault
  have kinds : ∀ t ∈ xs, t.kind ≠ .endOfInput := by decide
  obtain ⟨es, d, results, -, -⟩ := results_until_fault kinds fault
  let p := ofSupply (Replay.ofItems (xs.map .token ++ [.fault fault]))
  have given : p.results 2 = [.literal .nil].map (fun e => some (.ok e)) ++ [some (.error fault)] ∧
      (p.afterCalls 2).halted = true := by decide +kernel
  -- The expressions and the error are those that come where nothing follows the fault.
  have whole := results _ [] (Replay.gives_ofItems (xs.map .token ++ [.fault fault])) 2
  rw [show es.length + (1 + 2) = 2 + (es.length + 1) by omega, Parser.results_add] at whole
  rw [given.1, results_of_halted given.2, outcomes, List.append_assoc, List.append_assoc] at whole
  obtain ⟨rfl, last⟩ := leading_unique whole (by simp) (by simp)
  obtain rfl : fault = d := by simpa using last
  refine ⟨kinds, fun s ys gives more => ?_⟩
  exact (Nat.add_assoc 1 1 more) ▸ results s ys gives more

end Parser

end LoxSyntax
