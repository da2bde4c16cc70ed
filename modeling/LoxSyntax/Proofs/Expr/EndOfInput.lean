import LoxSyntax.Proofs.Expr.Parallel

/-! # A missing end of input
A supply may stop without an end of input. Looks then see nothing, which stops a chain and a parse
as the end of input does, and a token that is asked for all the same is the end of input at the last
token taken. So a parser over finitely many items gives what it gives over the same items with that
end of input after them.

1. *Where items end*.
2. *Readers* over the two lists are in step.
3. *Parsers*. -/

namespace LoxSyntax

open Reading

/-! ## (1) Where items end -/

/-- The tokens that come before any fault. -/
def tokensBeforeFault : List Item → List Token
  | .token t :: items => t :: tokensBeforeFault items
  | _ => []

/-- **The place of the last token** before any fault, or a given place if there is none. -/
def lastPlace (start : Span) (items : List Item) : Span :=
  ((tokensBeforeFault items).getLast?.map (·.span)).getD start

/-- Items that begin with a token end where those after it do, from the token on. -/
theorem lastPlace_token (start : Span) (t : Token) (items : List Item) :
    lastPlace start (.token t :: items) = lastPlace t.span items := by
  rw [lastPlace, lastPlace, tokensBeforeFault, List.getLast?_cons]
  cases (tokensBeforeFault items).getLast? <;> rfl

/-! ## (2) Readers -/

/-- **Two lists ahead of which the first lacks the end of input**, each after a token that stood at
a span: the second one has it after all items of the first, where the last of those stood. Once it
was taken, nothing is left in either. -/
def LacksEnd (items : List Item) (last : Span) (items' : List Item) (last' : Span) : Prop :=
  last' = last ∧ (items' = items ++ [.token (.endOfInput (lastPlace last items))] ∨
    items = [] ∧ items' = [])

variable {σ τ : Type} [Supply σ] [Supply τ]

namespace Reading

/-- Where nothing is ahead, the end of input is taken at the last token. -/
theorem advance_nothing {r : Reader σ} (holds : r.ahead.Holds []) :
    ∃ r', advance r = .ok (.endOfInput r.last) r' ∧ r'.ahead.Holds [] ∧ r'.last = r.last := by
  have given := holds.given_pull
  unfold advance
  simp only [given, List.head?_nil]
  exact ⟨_, rfl, holds.pull, rfl⟩

/-- A fault that is ahead fails. -/
theorem advance_fault {r : Reader σ} {d : Diagnostic} {items : List Item}
    (holds : r.ahead.Holds (.fault d :: items)) : ∃ r', advance r = .error d r' := by
  have given := holds.given_pull
  unfold advance
  simp only [given, List.head?_cons]
  exact ⟨_, rfl⟩

/-- What is taken is the same with the end of input and without it. -/
theorem parallel_advance : Parallel (Ahead (σ := σ) (τ := τ) LacksEnd) id (fun _ => False)
    (fun t t' => t' = t.mapSpan id) advance advance := by
  rintro r r' ⟨items, items', holds, holds', last, added | ⟨rfl, rfl⟩⟩
  · cases items with
    | nil =>
        -- The one takes the end of input that the other makes up.
        rw [added] at holds'
        obtain ⟨r₁, taken, left, last₁⟩ := advance_nothing holds
        obtain ⟨r₁', taken', left', last₁'⟩ := advance_token holds'
        rw [taken]
        exact ⟨_, r₁', taken', rfl, [], [], left, left', last₁'.trans last₁.symm, .inr ⟨rfl, rfl⟩⟩
    | cons item items =>
        rw [added] at holds'
        cases item with
        | token t =>
            rw [lastPlace_token] at holds'
            obtain ⟨r₁, taken, left, last₁⟩ := advance_token holds
            obtain ⟨r₁', taken', left', last₁'⟩ := advance_token holds'
            rw [taken]
            exact ⟨t, r₁', taken', rfl, items, _, left, left', last₁'.trans last₁.symm,
              .inl (by rw [last₁]; rfl)⟩
        | fault d =>
            obtain ⟨r₁, lost⟩ := advance_fault holds
            obtain ⟨r₁', lost'⟩ := advance_fault holds'
            rw [lost]
            exact .inr ⟨r₁', by rw [lost', d.mapSpan_id]⟩
  · obtain ⟨r₁, taken, left, last₁⟩ := advance_nothing holds
    obtain ⟨r₁', taken', left', last₁'⟩ := advance_nothing holds'
    rw [taken]
    refine ⟨_, r₁', taken', congrArg Token.endOfInput last, [], [], left, left', ?_,
      .inr ⟨rfl, rfl⟩⟩
    rw [last₁', last, last₁]

end Reading

/-- The end of input is no operator and ends a parse, as nothing does. -/
theorem LacksEnd.starts {items items' : List Item} {last last' : Span}
    (lacks : LacksEnd items last items' last') :
    (∀ least, nextOperator least items' = nextOperator least items) ∧
      Parser.isEnd items'.head? = Parser.isEnd items.head? := by
  obtain ⟨-, rfl | ⟨rfl, rfl⟩⟩ := lacks
  · cases items with
    | nil => exact ⟨fun least => rfl, rfl⟩
    | cons item items => exact ⟨fun least => rfl, rfl⟩
  · exact ⟨fun least => rfl, rfl⟩

/-- **Readers with the end of input and without it are in step.** -/
theorem inStep_lacksEnd : InStep (Ahead (σ := σ) (τ := τ) LacksEnd) id fun _ => False where
  log related _ _ := related
  advance := parallel_advance
  peekOperator least := by
    rintro r r' ⟨items, items', holds, holds', lacks⟩
    obtain ⟨r₁, seen, ahead, last⟩ := peekOperator_eq holds least
    obtain ⟨r₁', seen', ahead', last'⟩ := peekOperator_eq holds' least
    rw [seen, seen', lacks.starts.1 least]
    exact ⟨_, r₁', rfl, rfl, items, items', ahead, ahead', by rw [last, last']; exact lacks⟩
  ends := by
    rintro r r' ⟨items, items', holds, holds', lacks⟩
    rw [holds.given_peek, holds'.given_peek]
    exact .inl lacks.starts.2.symm

/-! ## (3) Parsers -/

namespace Parser

/-- **A missing end of input changes nothing.** Over finitely many items, with nothing for ever
after them, a parser gives what it gives over the same items and an end of input after them, which
stands where the last token before any fault does, or at the origin if there is none. -/
theorem results_append_endOfInput {s : σ} {s' : τ} {items : List Item}
    (gives : Supply.Gives s items)
    (gives' : Supply.Gives s' (items ++ [.token (.endOfInput (lastPlace .origin items))]))
    (calls : Nat) : (ofSupply s').results calls = (ofSupply s).results calls := by
  have beside : Beside (Ahead LacksEnd) (ofSupply s) (ofSupply s') :=
    ⟨rfl, rfl, fun _ => ⟨items, _, Lookahead.holds_ofSupply gives,
      Lookahead.holds_ofSupply gives', rfl, .inl rfl⟩⟩
  rw [beside.results inStep_lacksEnd calls fun _ _ => not_false, map_mapSpan_id]

/-- A literal, and a group that is not closed on the next line: with an end of input there and
without one the error is that it is expected to be closed, at the place of the last token. -/
theorem results_append_endOfInput_unclosed :
    let items : List Item := [.token (.fixed .nilWord ⟨0, 3, 1⟩),
      .token (.fixed .leftParen ⟨4, 5, 1⟩), .token (.fixed .nilWord ⟨6, 9, 2⟩)]
    let ended := items ++ [.token (.endOfInput (lastPlace .origin items))]
    let results := (ofSupply (Replay.ofItems items)).results 3
    (ofSupply (Replay.ofItems ended)).results 3 = results ∧
      (results.map fun
        | some (.error d) => some d
        | _ => none) = [none, some (.expectedClosingParen "end" ⟨6, 9, 2⟩), none] := by
  intro items ended results
  refine ⟨results_append_endOfInput (Replay.gives_ofItems items) (Replay.gives_ofItems ended) 3, ?_⟩
  decide +kernel

end Parser

end LoxSyntax
