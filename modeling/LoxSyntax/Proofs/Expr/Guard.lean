import Mathlib.Algebra.Order.BigOperators.Group.List
import LoxSyntax.Proofs.Expr.Depth
import LoxSyntax.Proofs.Expr.Recursion

/-! # What the guard changes
A counter without a guard, over a finite list of items, comes to an end, and a counter with a guard
does the same as long as no charge is over the guard; at the first that is, it fails.

1. *Actions*: `Guarded` says this of one action, and is kept by actions one after the other.
2. *Readings* keep it, by induction on how many items are ahead.
3. *Calls*: what a parser gives is what it would give without a limit, up to the first charge over
the limit. A call that would give an expression gives it exactly when the need of the expression is
within the limit. -/

namespace LoxSyntax

namespace Counting

variable {σ α β : Type}

/-! ## (1) Actions -/

/-- The first of some charges that is over a limit. -/
def firstOver (limit : Nat) (charges : List Charge) : Option Charge :=
  charges.find? (limit < ·.level)

/-- **What an action with a guard does beside one without** that has made some charges: the same, if
none of them is over the limit, and otherwise it fails at the first that is. -/
def AgreesTo (limit : Nat) (charges : List Charge) (free : Except Diagnostic α × Counter σ)
    (guarded : Option (Except Diagnostic α × Counter σ)) : Prop :=
  match firstOver limit charges with
  | none => guarded = some free
  | some charge => ∃ c, guarded = some (.error (charge.tooDeep limit), c)

/-- **The guard changes nothing before it fails**: without it the action ends, after a success as
asked, and with it the action does the same up to the first charge over the limit. -/
inductive Guarded (limit : Nat) (x : Option Nat → Counting σ α) (c : Counter σ)
    (post : α → Reader σ → Prop) : Prop where
  /-- Without a guard the action succeeds. -/
  | ok {a : α} {c' : Counter σ} {charges : List Charge} (free : x none c = some (.ok a, c'))
    (charged : c'.charges = c.charges ++ charges)
    (agrees : AgreesTo limit charges (.ok a, c') (x (some limit) c)) (holds : post a c'.reader)
  /-- Without a guard the action fails. -/
  | error {d : Diagnostic} {c' : Counter σ} {charges : List Charge}
    (free : x none c = some (.error d, c')) (charged : c'.charges = c.charges ++ charges)
    (agrees : AgreesTo limit charges (.error d, c') (x (some limit) c))

/-- With no charge both do the same. -/
theorem agreesTo_nil {limit : Nat} {free : Except Diagnostic α × Counter σ}
    {guarded : Option (Except Diagnostic α × Counter σ)} :
    AgreesTo limit [] free guarded ↔ guarded = some free := Iff.rfl

section Guarded

variable {limit : Nat} {x y : Option Nat → Counting σ α} {c c₁ c₂ : Counter σ}
  {post post' : α → Reader σ → Prop} {charges : List Charge}

/-- What is done to the reader does not depend on the guard. -/
theorem guarded_read {x : Reading σ α} (holds : ∀ a r, x c.reader = .ok a r → post a r) :
    Guarded limit (fun _ => read x) c post := by
  cases done : x c.reader with
  | ok a r =>
      have did : read x c = some (.ok a, { c with reader := r }) := by rw [read, done]
      exact .ok did (List.append_nil _).symm (agreesTo_nil.mpr did) (holds a r done)
  | error d r =>
      have did : read x c = some (.error d, { c with reader := r }) := by rw [read, done]
      exact .error did (List.append_nil _).symm (agreesTo_nil.mpr did)

/-- A value is returned with any guard. -/
theorem guarded_pure {a : α} (holds : post a c.reader) : Guarded limit (fun _ => pure a) c post :=
  .ok rfl (List.append_nil _).symm (agreesTo_nil.mpr rfl) holds

/-- A failure is one with any guard. -/
theorem guarded_throw {d : Diagnostic} : Guarded limit (fun _ => throw d) c post :=
  .error rfl (List.append_nil _).symm (agreesTo_nil.mpr rfl)

/-- Levels that were taken are given back with any guard. -/
theorem guarded_leave {levels : Nat} {post : Unit → Reader σ → Prop}
    (taken : levels ≤ c.now.depth) (holds : post () c.reader) :
    Guarded limit (fun _ => leave levels) c post :=
  .ok (leave_of_le taken) (List.append_nil _).symm (agreesTo_nil.mpr (leave_of_le taken)) holds

/-- **The guard fails at a charge that is over the limit.** -/
theorem guarded_enter {t : Token} {post : Unit → Reader σ → Prop} (holds : post () c.reader) :
    Guarded limit (fun guard => enter guard t) c post := by
  refine .ok (enter_none t c) rfl ?_ holds
  rw [AgreesTo, firstOver, List.find?_singleton]
  by_cases beyond : limit < c.now.depth + 1
  · simp only [beyond, decide_true, if_true]
    exact ⟨_, enter_of_le t (Nat.le_of_lt_succ beyond)⟩
  · simp only [beyond, decide_false]
    exact enter_of_lt t (Nat.lt_of_succ_le (Nat.le_of_not_lt beyond))

/-- What does the same with what was done, and fails where that failed, agrees where that did. -/
theorem AgreesTo.imp {free : Except Diagnostic α × Counter σ}
    {free' : Except Diagnostic β × Counter σ}
    {guarded : Option (Except Diagnostic α × Counter σ)}
    {guarded' : Option (Except Diagnostic β × Counter σ)}
    (agrees : AgreesTo limit charges free guarded)
    (same : guarded = some free → guarded' = some free')
    (fails : ∀ d c, guarded = some (.error d, c) → ∃ c', guarded' = some (.error d, c')) :
    AgreesTo limit charges free' guarded' := by
  rw [AgreesTo] at agrees ⊢
  cases beyond : firstOver limit charges with
  | none =>
      rw [beyond] at agrees
      exact same agrees
  | some charge =>
      rw [beyond] at agrees
      obtain ⟨c, failed⟩ := agrees
      exact fails _ c failed

/-- What follows charges of which one is over the limit is not done. -/
theorem AgreesTo.bind {x : Counting σ α} {f : α → Counting σ β} {a : α}
    {before after : List Charge} {free : Except Diagnostic β × Counter σ}
    (first : AgreesTo limit before (.ok a, c₁) (x c))
    (second : AgreesTo limit after free (f a c₁)) :
    AgreesTo limit (before ++ after) free ((x >>= f) c) := by
  rw [AgreesTo, firstOver] at first ⊢
  rw [List.find?_append]
  cases beyond : before.find? (limit < ·.level) with
  | none =>
      rw [beyond] at first
      rw [bind_of_ok first]
      exact second
  | some charge =>
      rw [beyond] at first
      obtain ⟨c₂, failed⟩ := first
      exact ⟨c₂, bind_of_error failed f⟩

/-- What follows a failure is not done. -/
theorem AgreesTo.bind_error {x : Counting σ α} {d : Diagnostic}
    (first : AgreesTo limit charges (.error d, c₁) (x c)) (f : α → Counting σ β) :
    AgreesTo limit charges (.error d, c₁) ((x >>= f) c) :=
  first.imp (fun failed => bind_of_error failed f) fun _ c₂ failed => ⟨c₂, bind_of_error failed f⟩

/-- **Actions one after the other.** -/
theorem Guarded.bind {f : Option Nat → α → Counting σ β} {post' : β → Reader σ → Prop}
    (first : Guarded limit x c post)
    (second : ∀ a c₁, x none c = some (.ok a, c₁) → post a c₁.reader →
      Guarded limit (fun guard => f guard a) c₁ post') :
    Guarded limit (fun guard => x guard >>= f guard) c post' := by
  cases first with
  | error free charged agrees => exact .error (bind_of_error free _) charged (agrees.bind_error _)
  | @ok a c₁ before free charged agrees holds =>
      cases second a c₁ free holds with
      | ok free' charged' agrees' holds' =>
          refine .ok ((bind_of_ok free _).trans free') ?_ (agrees.bind agrees') holds'
          rw [charged', charged, List.append_assoc]
      | error free' charged' agrees' =>
          refine .error ((bind_of_ok free _).trans free') ?_ (agrees.bind agrees')
          rw [charged', charged, List.append_assoc]

/-- What does the same at a counter with the same charges is not changed there either. -/
theorem Guarded.congr (guarded : Guarded limit x c post) (same : ∀ guard, x guard c = y guard c₁)
    (charges : c.charges = c₁.charges) : Guarded limit y c₁ post := by
  cases guarded with
  | ok free charged agrees holds =>
      rw [same] at free agrees
      exact .ok free (charges ▸ charged) agrees holds
  | error free charged agrees =>
      rw [same] at free agrees
      exact .error free (charges ▸ charged) agrees

/-- What is finished agrees where it did before, if every failure can be finished. -/
theorem AgreesTo.finishing {x : Counting σ α} {result : Except Diagnostic α}
    (agrees : AgreesTo limit charges (result, c₁) (x c))
    {finish : Except Diagnostic α → Counter σ → Option (Counter σ)}
    (finished : finish result c₁ = some c₂)
    (fails : ∀ d c', x c = some (.error d, c') → ∃ c'', finish (.error d) c' = some c'') :
    AgreesTo limit charges (result, c₂) (finishing x finish c) := by
  refine agrees.imp (fun done => finishing_of_some done finished) fun d c' failed => ?_
  obtain ⟨c'', ended⟩ := fails d c' failed
  exact ⟨c'', finishing_of_some failed ended⟩

/-- **To finish changes no charge**, if it is possible after every result. -/
theorem Guarded.finishing (guarded : Guarded limit x c post)
    (finish : Except Diagnostic α → Counter σ → Option (Counter σ))
    (finishes : ∀ guard result c₁, x guard c = some (result, c₁) → ∃ c₂,
      finish result c₁ = some c₂ ∧ c₂.charges = c₁.charges ∧ c₂.reader = c₁.reader) :
    Guarded limit (fun guard => finishing (x guard) finish) c post := by
  have fails : ∀ d c', x (some limit) c = some (.error d, c') →
      ∃ c'', finish (.error d) c' = some c'' := by
    intro d c' failed
    obtain ⟨c'', ended, -⟩ := finishes _ _ _ failed
    exact ⟨c'', ended⟩
  cases guarded with
  | ok free charged agrees holds =>
      obtain ⟨c₂, finished, charges, reader⟩ := finishes _ _ _ free
      exact .ok (finishing_of_some free finished) (charges.trans charged)
        (agrees.finishing finished fails) (reader ▸ holds)
  | error free charged agrees =>
      obtain ⟨c₂, finished, charges, -⟩ := finishes _ _ _ free
      exact .error (finishing_of_some free finished) (charges.trans charged)
        (agrees.finishing finished fails)

/-- A visit is noted with any guard. -/
theorem Guarded.visit (guarded : Guarded limit x c post) (routine : Routine) :
    Guarded limit (fun guard => visit routine (x guard)) c post :=
  (guarded.finishing (fun result c' => some (c'.note routine c.now.depth result.isOk))
    fun _ _ _ _ => ⟨_, rfl, rfl, rfl⟩).congr (fun _ => rfl) rfl

/-- **Inside a routine** the guard does what it does there. -/
theorem Guarded.inside (guarded : Guarded limit x c.opening post) (routine : Routine) :
    Guarded limit (fun guard => inside routine (x guard)) c post := by
  have closed : Guarded limit (fun guard (c : Counter σ) =>
      Counting.finishing (x guard) (fun _ c' => some (c'.closing c.now.opened)) c.opening) c post :=
    (guarded.finishing (fun _ c' => some (c'.closing c.now.opened))
      fun _ _ _ _ => ⟨_, rfl, rfl, rfl⟩).congr (fun _ => rfl) rfl
  exact closed.visit routine

/-- A level that was taken is given back with any guard. -/
theorem Guarded.givingBack (guarded : Guarded limit x c post) {spare depth : Nat}
    (keeps : ∀ guard, Keeps guard spare (x guard) c (depth + 1)) :
    Guarded limit (fun guard => givingBack (x guard)) c post := by
  refine guarded.finishing _ fun guard result c₁ done => ?_
  have taken := Nat.le_trans (Nat.le_add_left 1 depth) (keeps guard result c₁ done).le
  exact ⟨_, Counter.leave_of_le taken, rfl, rfl⟩

/-- **What is done one level deeper.** -/
theorem Guarded.nested {t : Token} (guarded : Guarded limit x (c.charge t) post) {spare : Nat}
    (keeps : ∀ guard, Keeps guard spare (x guard) (c.charge t) (c.now.depth + 1)) :
    Guarded limit (fun guard => nested guard t (x guard)) c post := by
  have entered : Guarded limit (fun guard => enter guard t) c fun _ _ => True :=
    guarded_enter trivial
  refine Guarded.visit (entered.bind (f := fun guard _ => Counting.givingBack (x guard))
    fun _ c₁ charged _ => ?_) .nested
  cases charged
  exact guarded.givingBack keeps

/-- More can be asked of what less was asked of. -/
theorem Guarded.mono (guarded : Guarded limit x c post) (weaker : ∀ a r, post a r → post' a r) :
    Guarded limit x c post' := by
  cases guarded with
  | ok free charged agrees holds => exact .ok free charged agrees (weaker _ _ holds)
  | error free charged agrees => exact .error free charged agrees

/-- Without a guard there is a result. -/
theorem Guarded.exists_result (guarded : Guarded limit x c post) :
    ∃ result c₁, x none c = some (result, c₁) ∧ ∀ a, result = .ok a → post a c₁.reader := by
  cases guarded with
  | ok free charged agrees holds =>
      refine ⟨_, _, free, ?_⟩
      rintro a ⟨⟩
      exact holds
  | error free charged agrees =>
      refine ⟨_, _, free, ?_⟩
      rintro a ⟨⟩

/-- Where nothing was charged before, the guard fails at the first charge over the limit. -/
theorem Guarded.agreesTo (guarded : Guarded limit x c post) (none : c.charges = [])
    {result : Except Diagnostic α} (free : x .none c = some (result, c₁)) :
    AgreesTo limit c₁.charges (result, c₁) (x (some limit) c) := by
  cases guarded with
  | ok free' charged agrees holds =>
      cases free.symm.trans free'
      rwa [charged, none, List.nil_append]
  | error free' charged agrees =>
      cases free.symm.trans free'
      rwa [charged, none, List.nil_append]

end Guarded

/-! ## (2) Readings -/

variable [Supply σ]

/-- **Fewer than so many items are ahead.** -/
def FewerAhead (n : Nat) (r : Reader σ) : Prop :=
  ∃ items, r.ahead.Holds items ∧ items.length < n

/-- **The guard changes nothing in operands, sides and chains** over fewer than so many items, with
so much fuel; in a chain, if the levels of its links are taken. -/
structure GuardedParts (σ : Type) [Supply σ] (limit n fuel : Nat) : Prop where
  /-- Operands. -/
  operand : ∀ c : Counter σ, FewerAhead n c.reader →
    Guarded limit (fun guard => operand guard fuel) c fun _ => FewerAhead n
  /-- Sides. -/
  side : ∀ (least : Nat) (c : Counter σ), FewerAhead n c.reader →
    Guarded limit (fun guard => side guard fuel least) c fun _ => FewerAhead n
  /-- Chains. -/
  chain : ∀ (least links : Nat) (left : Expr) (c : Counter σ), FewerAhead n c.reader →
    links ≤ c.now.depth →
    Guarded limit (fun guard => chain guard fuel least links left) c fun _ => FewerAhead n

section Readings

variable {limit n fuel : Nat} {c : Counter σ} {r : Reader σ}

/-- Fewer items are not more. -/
theorem FewerAhead.succ (fewer : FewerAhead n r) : FewerAhead (n + 1) r := by
  obtain ⟨items, holds, lt⟩ := fewer
  exact ⟨items, holds, Nat.lt_succ_of_lt lt⟩

/-- Taking a token leaves fewer items, unless the token is the end of input. -/
theorem guarded_advance (fewer : FewerAhead (n + 1) c.reader) :
    Guarded limit (fun _ => read Reading.advance) c
      fun t r => t.kind ≠ .endOfInput → FewerAhead n r := by
  obtain ⟨items, holds, lt⟩ := fewer
  apply guarded_read
  intro t r taken kind
  obtain ⟨rest, rfl, holds'⟩ := Reading.holds_of_advance holds taken kind
  exact ⟨rest, holds', Nat.lt_of_succ_lt_succ lt⟩

/-- Closing a group leaves no more items. -/
theorem guarded_closeGroup (fewer : FewerAhead n c.reader) (inner : Expr) :
    Guarded limit (fun _ => read (Reading.closeGroup inner)) c fun _ => FewerAhead n := by
  obtain ⟨items, holds, lt⟩ := fewer
  apply guarded_read
  intro e r closed
  obtain ⟨t, r₁, taken, kind, rfl, ahead⟩ := Reading.closeGroup_eq_ok closed
  obtain ⟨rest, rfl, holds'⟩ := Reading.holds_of_advance holds taken (by rw [kind]; decide)
  exact ⟨rest, ahead ▸ holds', Nat.lt_of_succ_lt lt⟩

/-- A look at the next operator leaves all items, and an operator seen is a token that can be
taken. -/
theorem guarded_peekOperator (fewer : FewerAhead (n + 1) c.reader) (least : Nat) :
    Guarded limit (fun _ => read (Reading.peekOperator least)) c fun seen r =>
      FewerAhead (n + 1) r ∧ ∀ op ∈ seen, ∀ t r', Reading.advance r = .ok t r' →
        FewerAhead n r' := by
  obtain ⟨items, holds, lt⟩ := fewer
  obtain ⟨r', looked, holds', -⟩ := Reading.peekOperator_eq holds least
  apply guarded_read
  intro seen r same
  rw [looked] at same
  cases same
  refine ⟨⟨items, holds', lt⟩, ?_⟩
  intro op next t r same
  obtain ⟨t', rest, rfl, kind, -⟩ := Reading.nextOperator_eq_some_iff.mp next
  obtain ⟨r'', taken, ahead, -⟩ := Reading.advance_token holds'
  rw [taken] at same
  cases same
  exact ⟨rest, ahead, Nat.lt_of_succ_lt_succ lt⟩

/-- **An operand** takes an item, and what is inside has fewer. -/
theorem guarded_operand (parts : GuardedParts σ limit n fuel)
    (fewer : FewerAhead (n + 1) c.reader) :
    Guarded limit (fun guard => operand guard (fuel + 1)) c fun _ => FewerAhead n := by
  rw [funext fun guard => operand_succ guard fuel]
  refine Guarded.inside ((guarded_advance (c := c.opening) fewer).bind ?_) .operand
  intro t c₁ _ left
  cases opens : t.kind.opening? with
  | none => exact guarded_throw
  | some opening =>
      have kind : t.kind ≠ .endOfInput := by
        intro same
        rw [same] at opens
        cases opens
      have fewer : FewerAhead n (c₁.charge t).reader := left kind
      cases opening with
      | literal => exact guarded_pure (left kind)
      | group =>
          have inside := (parts.side 0 (c₁.charge t).opening fewer).bind
            (f := fun _ inner => read (Reading.closeGroup inner))
            fun inner c₂ _ fewer => guarded_closeGroup fewer inner
          exact (inside.inside .group).nested fun guard => keeps_group guard fuel _
      | unary op =>
          have inside : Guarded limit (fun guard => do
              let inner ← operand guard fuel
              return Expr.unary op inner) (c₁.charge t) fun _ => FewerAhead n :=
            (parts.operand (c₁.charge t) fewer).bind fun inner c₂ _ fewer => guarded_pure fewer
          exact inside.nested fun guard => ((keeps_routines guard fuel).1 _).map _

/-- **A side** is an operand, and a chain that has fewer items. -/
theorem guarded_side (less : GuardedParts σ limit n fuel)
    (same : GuardedParts σ limit n (fuel + 1)) (least : Nat)
    (fewer : FewerAhead (n + 1) c.reader) :
    Guarded limit (fun guard => side guard (fuel + 1) least) c fun _ => FewerAhead n := by
  refine Guarded.inside ((guarded_operand (c := c.opening) less fewer).bind ?_) .side
  intro left c₁ _ fewer
  exact same.chain least 0 left c₁ fewer (Nat.zero_le _)

/-- **A chain** ends, or takes an item and goes on with fewer. -/
theorem guarded_chain (parts : GuardedParts σ limit n fuel) (least links : Nat) (left : Expr)
    (fewer : FewerAhead (n + 1) c.reader) (taken : links ≤ c.now.depth) :
    Guarded limit (fun guard => chain guard (fuel + 1) least links left) c
      fun _ => FewerAhead (n + 1) := by
  rw [funext fun guard => chain_succ guard fuel least links left]
  apply (guarded_peekOperator fewer least).bind
  rintro seen c₁ looked ⟨fewer, advances⟩
  rw [← depth_of_read looked] at taken
  cases seen with
  | none => exact (guarded_leave taken fewer).bind fun _ c₂ _ fewer => guarded_pure fewer
  | some op =>
      have advanced : Guarded limit (fun _ => read Reading.advance) c₁ fun _ => FewerAhead n :=
        guarded_read (advances op rfl)
      apply advanced.bind
      intro t c₂ done fewer
      rw [← depth_of_read done] at taken
      have entered : Guarded limit (fun guard => enter guard t) c₂ fun _ => FewerAhead n :=
        guarded_enter fewer
      apply entered.bind
      intro _ c₃ charged fewer
      cases charged
      apply (parts.side _ _ fewer).bind
      intro right c₄ went fewer
      have depth : c₄.now.depth = c₂.now.depth + 1 := (keeps_side _ _ _ _).depth_eq went
      have rest := parts.chain least (links + 1) (.binary left op right) c₄ fewer
        (depth ▸ Nat.succ_le_succ taken)
      exact rest.mono fun _ _ => FewerAhead.succ

end Readings

/-- **The guard changes no reading before it fails**, with fuel for the items ahead. -/
theorem guarded_of_fewer (limit n fuel : Nat) (enough : n ≤ fuel) :
    GuardedParts σ limit n fuel := by
  induction n generalizing fuel with
  | zero =>
      -- There are never fewer items than none.
      have none : ∀ c : Counter σ, ¬ FewerAhead 0 c.reader := by
        rintro c ⟨items, holds, fewer⟩
        exact Nat.not_lt_zero _ fewer
      exact ⟨fun c fewer => absurd fewer (none c), fun least c fewer => absurd fewer (none c),
        fun least links left c fewer => absurd fewer (none c)⟩
  | succ n ih =>
      obtain ⟨fuel, rfl⟩ := Nat.exists_eq_add_one_of_ne_zero (Nat.ne_zero_of_lt enough)
      have less := ih fuel (Nat.le_of_succ_le_succ enough)
      have same := ih (fuel + 1) (Nat.le_of_succ_le enough)
      constructor
      · intro c fewer
        exact (guarded_operand less fewer).mono fun _ _ => FewerAhead.succ
      · intro least c fewer
        exact (guarded_side less same least fewer).mono fun _ _ => FewerAhead.succ
      · intro least links left c fewer taken
        exact guarded_chain less least links left fewer taken

/-- **The guard changes no expression before it fails**, with fuel for the items ahead: without it
there is a result, and with any limit the same up to the first charge over it. -/
theorem exists_side {r : Reader σ} {items : List Item} {fuel : Nat} (holds : r.ahead.Holds items)
    (enough : items.length < fuel) :
    ∃ result c, side none fuel 0 (.start r) = some (result, c) ∧
      (∀ limit, AgreesTo limit c.charges (result, c) (side (some limit) fuel 0 (.start r))) ∧
      ∀ e, result = .ok e → ∃ rest, c.reader.ahead.Holds rest ∧ rest.length ≤ items.length := by
  have guarded (limit : Nat) : Guarded limit (fun guard => side guard fuel 0) (.start r)
      fun _ => FewerAhead (items.length + 1) :=
    (guarded_of_fewer limit (items.length + 1) fuel enough).side 0 (.start r)
      ⟨items, holds, Nat.lt_succ_self _⟩
  obtain ⟨result, c, free, left⟩ := (guarded 0).exists_result
  refine ⟨result, c, free, fun limit => (guarded limit).agreesTo rfl free, ?_⟩
  intro e same
  obtain ⟨rest, holds', fewer⟩ := left e same
  exact ⟨rest, holds', Nat.le_of_lt_succ fewer⟩

/-! ## (3) Calls -/

/-- **What calls give with a guard**, told from what they do without one: the same, up to the first
charge over the limit; there the call fails, and the later ones give nothing. -/
def cutAt (limit : Nat) : List (Outcome σ) → List (Option (Except Diagnostic Expr))
  | [] => []
  | outcome :: outcomes =>
    match firstOver limit outcome.charges with
    | none => outcome.given :: cutAt limit outcomes
    | some charge =>
      some (.error (charge.tooDeep limit)) :: List.replicate outcomes.length none

omit [Supply σ] in
/-- A call with no charge over the limit is left as it is. -/
theorem cutAt_of_none {limit : Nat} {outcome : Outcome σ} (outcomes : List (Outcome σ))
    (within : firstOver limit outcome.charges = none) :
    cutAt limit (outcome :: outcomes) = outcome.given :: cutAt limit outcomes := by
  rw [cutAt, within]

omit [Supply σ] in
/-- A call with a charge over the limit fails there, and is the last to give anything. -/
theorem cutAt_of_some {limit : Nat} {outcome : Outcome σ} {charge : Charge}
    (outcomes : List (Outcome σ)) (beyond : firstOver limit outcome.charges = some charge) :
    cutAt limit (outcome :: outcomes) =
      some (.error (charge.tooDeep limit)) :: List.replicate outcomes.length none := by
  rw [cutAt, beyond]

/-- **What the parser does beside a call without a guard**: the same, if no charge of the call is
over the limit, and otherwise it gives the failure at the first that is. -/
def Follows (p : Parser σ) (outcome : Outcome σ) : Prop :=
  match firstOver p.limit outcome.charges with
  | none => p.next.given = outcome.given ∧ p.next.after = outcome.after
  | some charge => p.next.given = some (.error (charge.tooDeep p.limit))

/-- Where no charge is over the limit, the parser does what the call does. -/
theorem Follows.of_none {p : Parser σ} {outcome : Outcome σ} (follows : Follows p outcome)
    (within : firstOver p.limit outcome.charges = none) :
    p.next.given = outcome.given ∧ p.next.after = outcome.after := by
  rw [Follows, within] at follows
  exact follows

/-- Where a charge is over the limit, the parser fails at the first, and halts. -/
theorem Follows.of_some {p : Parser σ} {outcome : Outcome σ} {charge : Charge}
    (follows : Follows p outcome) (beyond : firstOver p.limit outcome.charges = some charge) :
    p.next.given = some (.error (charge.tooDeep p.limit)) ∧ p.next.after.halted = true := by
  rw [Follows, beyond] at follows
  exact ⟨follows, Parser.halted_after_next (by simp [follows])⟩

/-- What a call does with a guard at the limit, the parser does. -/
theorem next_of_call {p : Parser σ} {fuel : Nat} {outcome : Outcome σ}
    (called : call (some p.limit) fuel p = some outcome) :
    p.next.given = outcome.given ∧ p.next.after = outcome.after := by
  have enough : p.limit < fuel + p.limit + 1 := by omega
  obtain ⟨outcome', called', given, after⟩ := call_guarded enough
  rw [call_of_le (by omega) called] at called'
  cases called'
  exact ⟨given.symm, after.symm⟩

/-- **With a guard at the limit calls give what the parser gives.** -/
theorem calls_guarded {p : Parser σ} {fuel : Nat} (enough : p.limit < fuel) (more : Nat) :
    ∃ outcomes, calls (some p.limit) fuel more p = some outcomes ∧
      outcomes.map (·.given) = p.results more := by
  induction more generalizing p with
  | zero => exact ⟨[], rfl, rfl⟩
  | succ more ih =>
      obtain ⟨outcome, called, given, after⟩ := call_guarded enough
      have limit : outcome.after.limit = p.limit := by rw [after, Parser.limit_next]
      obtain ⟨outcomes, rest, others⟩ := ih (limit ▸ enough)
      rw [limit] at rest
      refine ⟨_, calls_succ.mpr ⟨_, outcomes, called, rest, rfl⟩, ?_⟩
      rw [List.map_cons, given, others, after, Parser.results]

/-- A call that makes no charge does not depend on the guard. -/
theorem follows_of_call {p : Parser σ} {fuel : Nat} {outcome : Outcome σ}
    (charges : outcome.charges = []) (called : call (some p.limit) fuel p = some outcome) :
    Follows p outcome := by
  rw [Follows, charges]
  exact next_of_call called

/-- The parser follows a call if its reading agrees with the one of the call. -/
theorem follows_of_agreesTo {p : Parser σ} {fuel : Nat} {result : Except Diagnostic Expr}
    {c : Counter σ} (running : p.halted = false)
    (begins : Parser.isEnd p.ahead.peek.given = false)
    (agrees : AgreesTo p.limit c.charges (result, c)
      (side (some p.limit) fuel 0 (.start p.reader))) :
    Follows p (.ofRead p result c) := by
  rw [AgreesTo] at agrees
  rw [Follows, Outcome.ofRead]
  dsimp only
  cases beyond : firstOver p.limit c.charges with
  | none =>
      rw [beyond] at agrees
      exact next_of_call (call_of_side running begins agrees)
  | some charge =>
      rw [beyond] at agrees
      obtain ⟨c, failed⟩ := agrees
      exact (next_of_call (call_of_side running begins failed)).1

/-- Fewer items than so many are ahead of a parser. -/
def HasFewer (fuel : Nat) (p : Parser σ) : Prop :=
  ∃ items, p.ahead.Holds items ∧ items.length < fuel

/-- **A call without a guard ends**, with fuel for the items ahead, and the parser follows it. -/
theorem exists_outcome {p : Parser σ} {fuel : Nat} (ahead : p.halted = false → HasFewer fuel p) :
    ∃ outcome, call none fuel p = some outcome ∧ Follows p outcome ∧
      (outcome.after.halted = false → HasFewer fuel outcome.after) := by
  by_cases halted : p.halted = true
  · have called : ∀ guard, call guard fuel p = some (.nothing p) := fun _ => call_of_halted halted
    exact ⟨_, called none, follows_of_call rfl (called _), ahead⟩
  have running : p.halted = false := by simpa using halted
  obtain ⟨items, holds, fewer⟩ := ahead running
  by_cases ends : Parser.isEnd p.ahead.peek.given = true
  · have called : ∀ guard, call guard fuel p =
        some (.nothing { p with ahead := p.ahead.peek.after, halted := true }) :=
      fun _ => call_of_isEnd running ends
    refine ⟨_, called none, follows_of_call rfl (called _), ?_⟩
    intro running'
    cases running'
  have begins : Parser.isEnd p.ahead.peek.given = false := by simpa using ends
  have reads : p.reader.ahead.Holds items := holds.peek
  obtain ⟨result, c, free, agrees, left⟩ := exists_side reads fewer
  refine ⟨_, call_of_side running begins free,
    follows_of_agreesTo running begins (agrees p.limit), ?_⟩
  intro running'
  cases result with
  | ok e =>
      obtain ⟨rest, holds', le⟩ := left e rfl
      exact ⟨rest, holds', Nat.lt_of_le_of_lt le fewer⟩
  | error d => cases running'

/-- A limit is high enough for charges if it is at least the sum of their levels. -/
theorem firstOver_eq_none {limit : Nat} {charges : List Charge}
    (high : (charges.map (·.level)).sum ≤ limit) : firstOver limit charges = none := by
  rw [firstOver, List.find?_eq_none]
  intro charge member
  have le : charge.level ≤ (charges.map (·.level)).sum :=
    List.le_sum_of_mem (List.mem_map_of_mem member)
  simpa using Nat.le_trans le high

/-- **Without a guard an expression is read as with a limit that is high enough**, with fuel for the
items ahead. -/
theorem tracks_unguarded {r : Reader σ} {items : List Item} {fuel : Nat}
    (holds : r.ahead.Holds items) (enough : items.length < fuel) (least : Nat) :
    ∃ limit, least ≤ limit ∧
      Tracks (Reading.expression limit limit) (side none fuel 0) (.start r) := by
  obtain ⟨result, c, free, agrees, -⟩ := exists_side holds enough
  let limit := least + (c.charges.map (·.level)).sum
  refine ⟨limit, Nat.le_add_right _ _, ?_⟩
  -- The limit is above all charges, so with it the reading does the same.
  have same := agrees limit
  rw [AgreesTo, firstOver_eq_none (Nat.le_add_left _ _)] at same
  have guarded := side_of_le (show fuel ≤ fuel + limit + 1 by omega) same
  exact (tracks_expression (by omega) r).congr (guarded.trans free.symm)

/-- **An expression that is read without a guard** is spelled by the first of the items ahead, its
precedences are in order, and no operator follows it. -/
theorem spells_of_side {r : Reader σ} {items : List Item} {fuel : Nat} {e : Expr} {c : Counter σ}
    (holds : r.ahead.Holds items) (enough : items.length < fuel)
    (counted : side none fuel 0 (.start r) = some (.ok e, c)) :
    ∃ ts rest, items = ts.map .token ++ rest ∧ e.Spells ts ∧ e.isShaped = true ∧
      Reading.nextOperator 0 rest = none := by
  obtain ⟨limit, -, tracks⟩ := tracks_unguarded holds enough 0
  obtain ⟨ts, rest, split, -, spells, shaped, ends⟩ :=
    Reading.spells_of_expression holds (tracks.read_of_ok counted)
  exact ⟨ts, rest, split, spells, shaped, ends⟩

/-- **Without a guard every expression is read** that the items ahead spell. -/
theorem call_of_spells {p : Parser σ} {fuel : Nat} {e : Expr} {ts : List Token}
    {rest : List Item} (running : p.halted = false)
    (holds : p.ahead.Holds (ts.map .token ++ rest)) (spells : e.Spells ts)
    (shaped : e.isShaped = true) (ends : Reading.nextOperator 0 rest = none)
    (enough : (ts.map Item.token ++ rest).length < fuel) :
    ∃ outcome, call none fuel p = some outcome ∧ outcome.given = some (.ok e) := by
  have begins := Parser.begins_of_spells holds spells
  -- The look at the first item leaves the spelling ahead.
  have holds' : p.reader.ahead.Holds (ts.map .token ++ rest) := holds.peek
  obtain ⟨limit, high, tracks⟩ := tracks_unguarded holds' enough e.need
  obtain ⟨r, read, -⟩ : ∃ r, Reading.expression limit limit p.reader = .ok e r ∧
      r.ahead.Holds rest := Reading.expression_of_spells holds' spells shaped ends high
  obtain ⟨c, counted⟩ := tracks.of_ok read
  exact ⟨_, call_of_side running begins counted, rfl⟩

/-- **What becomes of an expression that a call gives without a guard**: the parser gives it if its
need is within the limit, and otherwise fails at the first charge over it. -/
theorem next_of_call_ok {p : Parser σ} {fuel : Nat} {outcome : Outcome σ} {e : Expr}
    (ahead : HasFewer fuel p) (called : call none fuel p = some outcome)
    (given : outcome.given = some (.ok e)) :
    (e.need ≤ p.limit → p.next.given = some (.ok e)) ∧
      (p.limit < e.need → ∃ charge, firstOver p.limit outcome.charges = some charge ∧
        p.next.given = some (.error (charge.tooDeep p.limit))) := by
  obtain ⟨running, c, counted⟩ := counted_of_call called given
  obtain ⟨outcome', called', follows, -⟩ := exists_outcome fun _ => ahead
  rw [called] at called'
  cases called'
  obtain ⟨items, holds, fewer⟩ := ahead
  have reads : p.reader.ahead.Holds items := holds.peek
  obtain ⟨ts, rest, rfl, spells, shaped, ends⟩ := spells_of_side reads fewer counted
  constructor
  · intro enough
    exact (Parser.next_of_spells running holds spells shaped ends enough).1
  · intro lacks
    cases beyond : firstOver p.limit outcome.charges with
    | none =>
        have enough := Parser.need_le_of_next ((follows.of_none beyond).1.trans given)
        exact absurd enough (Nat.not_le_of_lt lacks)
    | some charge => exact ⟨charge, rfl, (follows.of_some beyond).1⟩

/-- **Calls without a guard**, with fuel for the items ahead: they end, what the parser gives is
what they give up to the first charge over the limit, and as long as it runs it stands where they
do. -/
theorem exists_outcomes {p : Parser σ} {fuel : Nat} (ahead : p.halted = false → HasFewer fuel p)
    (more : Nat) :
    ∃ outcomes, calls none fuel more p = some outcomes ∧ outcomes.length = more ∧
      p.results more = cutAt p.limit outcomes ∧
      ∀ k outcome, outcomes[k]? = some outcome → (p.afterCalls k).halted = false →
        call none fuel (p.afterCalls k) = some outcome ∧ HasFewer fuel (p.afterCalls k) := by
  induction more generalizing p with
  | zero => exact ⟨[], rfl, rfl, rfl, by simp⟩
  | succ more ih =>
      obtain ⟨outcome, called, follows, ahead'⟩ := exists_outcome ahead
      obtain ⟨outcomes, rest, length, results, stands⟩ := ih ahead'
      refine ⟨_, calls_succ.mpr ⟨outcome, outcomes, called, rest, rfl⟩,
        congrArg (· + 1) length, ?_, ?_⟩
      · rw [Parser.results]
        cases beyond : firstOver p.limit outcome.charges with
        | none =>
            obtain ⟨given, after⟩ := follows.of_none beyond
            have limit : outcome.after.limit = p.limit := by
              rw [← after, Parser.limit_next]
            rw [cutAt_of_none outcomes beyond, given, after, results, limit]
        | some charge =>
            obtain ⟨given, halted⟩ := follows.of_some beyond
            rw [cutAt_of_some outcomes beyond, given, Parser.results_of_halted halted, length]
      · intro k found at_k running
        cases k with
        | zero =>
            cases at_k
            exact ⟨called, ahead running⟩
        | succ k =>
            cases beyond : firstOver p.limit outcome.charges with
            | none =>
                rw [Parser.afterCalls, (follows.of_none beyond).2] at running ⊢
                exact stands k found at_k running
            | some charge =>
                -- A parser that has failed does not run any more.
                have halted := (follows.of_some beyond).2
                rw [Parser.afterCalls, Parser.halted_afterCalls halted] at running
                cases running

end Counting

namespace Parser

open Counting

variable [Supply σ]

/-- **The exact effect of the limit.** A parser whose readings count levels gives what the parser
gives, if its guard is at the limit. Without a guard, over a finite list of items, its calls end,
and the parser gives what they give up to the first charge over the limit; there it fails, at the
token that was charged, and gives nothing more. So of the expressions that are given without a guard
a parser that still runs gives those whose need is within the limit, and fails at the others. -/
theorem results_eq_cutAt {supply : σ} {items : List Item} (gives : Supply.Gives supply items)
    (more : Nat) :
    (∀ fuel, maxDepth < fuel → ∃ outcomes,
      calls (some maxDepth) fuel more (ofSupply supply) = some outcomes ∧
        outcomes.map (·.given) = (ofSupply supply).results more) ∧
    ∃ outcomes,
      (∀ fuel, items.length < fuel → calls none fuel more (ofSupply supply) = some outcomes) ∧
      outcomes.length = more ∧ (ofSupply supply).results more = cutAt maxDepth outcomes ∧
      ∀ k outcome e, outcomes[k]? = some outcome → outcome.given = some (.ok e) →
        ((ofSupply supply).afterCalls k).halted = false →
        (e.need ≤ maxDepth → ((ofSupply supply).afterCalls k).next.given = some (.ok e)) ∧
        (maxDepth < e.need → ∃ charge, firstOver maxDepth outcome.charges = some charge ∧
          ((ofSupply supply).afterCalls k).next.given =
            some (.error (charge.tooDeep maxDepth))) := by
  constructor
  · intro fuel deep
    exact calls_guarded (p := ofSupply supply) deep more
  have holds : (ofSupply supply).ahead.Holds items := Lookahead.holds_ofSupply gives
  have ahead : HasFewer (items.length + 1) (ofSupply supply) :=
    ⟨items, holds, Nat.lt_succ_self _⟩
  obtain ⟨outcomes, called, length, results, stands⟩ := exists_outcomes (fun _ => ahead) more
  refine ⟨outcomes, fun fuel enough => calls_of_le enough called, length, results, ?_⟩
  intro k outcome e found given running
  obtain ⟨called', ahead'⟩ := stands k outcome found running
  have limit : ((ofSupply supply).afterCalls k).limit = maxDepth := limit_afterCalls _ k
  rw [← limit]
  exact next_of_call_ok ahead' called' given

/-- Two hundred and fifty-six groups: without a guard the first call gives them, and it is cut at a
charge over the limit; nothing is left of the second. -/
theorem results_eq_cutAt_nested :
    let e : Expr := .nested 256
    let supply := Replay.ofItems (e.tokens.map .token)
    ∃ outcome outcomes charge,
      calls none (e.tokens.length + 1) 2 (ofSupply supply) = some (outcome :: outcomes) ∧
        outcome.given = some (.ok e) ∧ firstOver maxDepth outcome.charges = some charge ∧
        (ofSupply supply).results 2 = [some (.error (charge.tooDeep maxDepth)), none] := by
  intro e supply
  obtain ⟨-, outcomes, called, length, results, stands⟩ :=
    results_eq_cutAt (Replay.gives_ofItems (e.tokens.map .token)) 2
  have enough : (e.tokens.map Item.token).length < e.tokens.length + 1 := by
    rw [List.length_map]
    exact Nat.lt_succ_self _
  have enough' : (e.tokens.map Item.token ++ []).length < e.tokens.length + 1 := by
    rw [List.append_nil]
    exact enough
  obtain ⟨outcome, rest, first, others, rfl⟩ := calls_succ.mp (called _ enough)
  obtain ⟨shaped, -, needs, -⟩ := Expr.nested_measures 256
  obtain ⟨outcome', first', given⟩ :=
    call_of_spells rfl (holds_tokens e) e.spells_tokens shaped rfl enough'
  rw [first] at first'
  cases first'
  have lacks : maxDepth < e.need := by
    rw [needs]
    decide
  obtain ⟨-, cut⟩ := stands 0 outcome e rfl given rfl
  obtain ⟨charge, beyond, -⟩ := cut lacks
  refine ⟨outcome, rest, charge, called _ enough, given, beyond, ?_⟩
  rw [results, cutAt_of_some rest beyond, Nat.succ.inj length]
  rfl

end Parser

end LoxSyntax
