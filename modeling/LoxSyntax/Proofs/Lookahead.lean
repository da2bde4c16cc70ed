import LoxSyntax.Proofs.Supply

/-! # A place of lookahead is a queue
Whoever reads from behind a place of lookahead pulls items, peeks at the next one, and asks whether
there is one, in any order. The supply may be endless, and may give nothing and go on later. All the
same no item is lost, doubled or moved (`Lookahead.queue_faithful`).

1. *The same answers*: behind a supply that answers alike, a lookahead does the same.
2. *What was received* from a supply that counts its calls.
3. *Accesses* in any order.
4. *Queues*. -/

namespace LoxSyntax

variable {σ τ : Type} [Supply σ] [Supply τ]

/-! ## (1) The same answers -/

/-- Lookaheads with the **same answers**: they hold the same item, and their supplies answer alike
however often they are asked. -/
structure Lookahead.SameAnswers (ahead : Lookahead σ) (ahead' : Lookahead τ) : Prop where
  /-- They hold the same item, or none. -/
  held : ahead'.held = ahead.held
  /-- Their supplies answer alike. -/
  answers : ∀ calls, Supply.answer ahead'.supply calls = Supply.answer ahead.supply calls

namespace Lookahead.SameAnswers

variable {ahead : Lookahead σ} {ahead' : Lookahead τ}

/-- A look gives the same, and leaves the same answers. -/
theorem peek (same : SameAnswers ahead ahead') :
    ahead'.peek.given = ahead.peek.given ∧ SameAnswers ahead.peek.after ahead'.peek.after := by
  have held := same.held
  have first : (Supply.next ahead'.supply).given = _ := same.answers 0
  cases holds : ahead.held with
  | some item =>
      rw [holds] at held
      rw [peek_of_held holds, peek_of_held held]
      exact ⟨rfl, same⟩
  | none =>
      rw [holds] at held
      simp only [Lookahead.peek, holds, held]
      exact ⟨first, first, fun calls => same.answers (calls + 1)⟩

/-- A pull gives the same, and leaves the same answers. -/
theorem pull (same : SameAnswers ahead ahead') :
    ahead'.pull.given = ahead.pull.given ∧ SameAnswers ahead.pull.after ahead'.pull.after := by
  have held := same.held
  cases holds : ahead.held with
  | some item =>
      rw [holds] at held
      rw [pull_of_held holds, pull_of_held held]
      exact ⟨rfl, rfl, same.answers⟩
  | none =>
      rw [holds] at held
      simp only [Lookahead.pull, holds, held]
      exact ⟨same.answers 0, rfl, fun calls => same.answers (calls + 1)⟩

end Lookahead.SameAnswers

namespace Lookahead

/-! ## (2) What was received -/

/-- **A lookahead has received** some items and the one that it holds, from a supply that was asked
from the start. -/
structure HasReceived (s : σ) (items : List Item) (ahead : Lookahead (Counted σ)) : Prop where
  /-- The supply is the one asked. -/
  start : ahead.supply.start = s
  /-- What it gave are the items and the one held. -/
  received : ahead.supply.received = items ++ ahead.held.toList

section Received

variable {s : σ} {items : List Item} {ahead : Lookahead (Counted σ)}

/-- An item that is looked at is held. -/
theorem HasReceived.peek (has : HasReceived s items ahead) :
    HasReceived s items ahead.peek.after := by
  unfold Lookahead.peek
  split
  · exact has
  · next held =>
      refine ⟨has.start, ?_⟩
      rw [Counted.received_next, has.received, held, Option.toList_none, List.append_nil]

/-- After a pull nothing is held. -/
theorem held_pull (ahead : Lookahead σ) : ahead.pull.after.held = none := by
  unfold Lookahead.pull
  split <;> rfl

/-- An item that is pulled comes after the others. -/
theorem HasReceived.pull (has : HasReceived s items ahead) :
    HasReceived s (items ++ ahead.pull.given.toList) ahead.pull.after := by
  unfold Lookahead.pull
  split
  · next item held =>
      refine ⟨has.start, ?_⟩
      rw [has.received, held, Option.toList_none, List.append_nil]
  · next held =>
      refine ⟨has.start, ?_⟩
      rw [Counted.received_next, has.received, held, Option.toList_none, List.append_nil,
        List.append_nil]

end Received

/-! ## (3) Accesses -/

/-- An **access** to a lookahead. -/
inductive Access where
  /-- Take the next item. -/
  | pull
  /-- Look at the next item. -/
  | peek
  /-- Ask whether there is no next item. -/
  | exhausted
deriving DecidableEq, Repr

/-- The **reply** to an access. -/
inductive Reply where
  /-- The item taken, if there was one. -/
  | pulled (given : Option Item)
  /-- The item seen, if there was one. -/
  | seen (given : Option Item)
  /-- Whether there was none. -/
  | exhausted (nothing : Bool)
deriving DecidableEq

/-- The item taken by an access, if it took one. -/
def Reply.taken : Reply → List Item
  | pulled given => given.toList
  | _ => []

/-- Whether a reply says that there was no item. -/
def Reply.isNothing : Reply → Bool
  | pulled given => given.isNone
  | seen given => given.isNone
  | exhausted nothing => nothing

/-- What an access replies, and what the lookahead is afterwards. To ask whether there is an item is
to look at it. -/
def access (ahead : Lookahead σ) : Access → Reply × Lookahead σ
  | .pull => (.pulled ahead.pull.given, ahead.pull.after)
  | .peek => (.seen ahead.peek.given, ahead.peek.after)
  | .exhausted => (.exhausted ahead.isExhausted, ahead.peek.after)

/-- **What accesses one after the other reply**, and what the lookahead is after the last. -/
def accessAll (ahead : Lookahead σ) : List Access → List Reply × Lookahead σ
  | [] => ([], ahead)
  | access :: accesses =>
    let first := ahead.access access
    let later := first.2.accessAll accesses
    (first.1 :: later.1, later.2)

/-- An access replies the same where the answers are the same. -/
theorem SameAnswers.access {ahead : Lookahead σ} {ahead' : Lookahead τ}
    (same : SameAnswers ahead ahead') (access : Access) :
    (ahead'.access access).1 = (ahead.access access).1 ∧
      SameAnswers (ahead.access access).2 (ahead'.access access).2 := by
  obtain ⟨taken, left⟩ := same.pull
  obtain ⟨seen, kept⟩ := same.peek
  cases access with
  | pull => exact ⟨congrArg Reply.pulled taken, left⟩
  | peek => exact ⟨congrArg Reply.seen seen, kept⟩
  | exhausted =>
      exact ⟨congrArg (fun given : Option Item => Reply.exhausted given.isNone) seen, kept⟩

/-- **Accesses reply the same** where the answers are the same. -/
theorem SameAnswers.accessAll {ahead : Lookahead σ} {ahead' : Lookahead τ}
    (same : SameAnswers ahead ahead') (accesses : List Access) :
    (ahead'.accessAll accesses).1 = (ahead.accessAll accesses).1 ∧
      SameAnswers (ahead.accessAll accesses).2 (ahead'.accessAll accesses).2 := by
  induction accesses generalizing ahead ahead' with
  | nil => exact ⟨rfl, same⟩
  | cons access accesses ih =>
      obtain ⟨first, same⟩ := same.access access
      obtain ⟨later, same⟩ := ih same
      refine ⟨?_, same⟩
      rw [Lookahead.accessAll, Lookahead.accessAll, first, later]

/-- What an access takes comes after what was taken before. -/
theorem HasReceived.access {s : σ} {items : List Item} {ahead : Lookahead (Counted σ)}
    (has : HasReceived s items ahead) (access : Access) :
    HasReceived s (items ++ (ahead.access access).1.taken) (ahead.access access).2 := by
  have looked := has.peek
  rw [← List.append_nil items] at looked
  cases access with
  | pull => exact has.pull
  | peek => exact looked
  | exhausted => exact looked

/-- **What accesses take**, one after the other, with the item held, is what was received. -/
theorem HasReceived.accessAll {s : σ} {items : List Item} {ahead : Lookahead (Counted σ)}
    (has : HasReceived s items ahead) (accesses : List Access) :
    HasReceived s (items ++ (ahead.accessAll accesses).1.flatMap Reply.taken)
      (ahead.accessAll accesses).2 := by
  induction accesses generalizing items ahead with
  | nil =>
      rw [← List.append_nil items] at has
      exact has
  | cons access accesses ih =>
      have later := ih (has.access access)
      rw [List.append_assoc, ← List.flatMap_cons] at later
      exact later

/-- **A held item stays where it is** until it is pulled: looks see it, and change nothing. -/
theorem accessAll_of_held {ahead : Lookahead σ} {item : Item} (held : ahead.held = some item)
    {looks : List Access} (only : .pull ∉ looks) :
    (∀ reply ∈ (ahead.accessAll looks).1,
      reply = .seen (some item) ∨ reply = .exhausted false) ∧
      (ahead.accessAll looks).2 = ahead := by
  have look := peek_of_held held
  induction looks with
  | nil => exact ⟨List.forall_mem_nil _, rfl⟩
  | cons access looks ih =>
      obtain ⟨replies, same⟩ := ih fun later => only (List.mem_cons_of_mem _ later)
      cases access with
      | pull => exact absurd List.mem_cons_self only
      | peek =>
          rw [accessAll, Lookahead.access, look]
          exact ⟨List.forall_mem_cons.mpr ⟨.inl rfl, replies⟩, same⟩
      | exhausted =>
          rw [accessAll, Lookahead.access, isExhausted, look]
          exact ⟨List.forall_mem_cons.mpr ⟨.inr rfl, replies⟩, same⟩

/-- Where nothing is ahead, an access finds nothing, and nothing is ahead after it. -/
theorem Holds.access_nil {ahead : Lookahead σ} (holds : ahead.Holds []) (access : Access) :
    (ahead.access access).1.isNothing = true ∧ (ahead.access access).2.Holds [] := by
  have taken := congrArg Option.isNone holds.given_pull
  have seen := congrArg Option.isNone holds.given_peek
  cases access with
  | pull => exact ⟨taken, holds.pull⟩
  | peek => exact ⟨seen, holds.peek⟩
  | exhausted => exact ⟨seen, holds.peek⟩

/-- **Where nothing is ahead**, no access ever finds anything. -/
theorem Holds.accessAll_nil {ahead : Lookahead σ} (holds : ahead.Holds [])
    (accesses : List Access) :
    (∀ reply ∈ (ahead.accessAll accesses).1, reply.isNothing = true) ∧
      (ahead.accessAll accesses).2.Holds [] := by
  induction accesses generalizing ahead with
  | nil => exact ⟨List.forall_mem_nil _, holds⟩
  | cons access accesses ih =>
      obtain ⟨first, holds⟩ := holds.access_nil access
      obtain ⟨later, holds⟩ := ih holds
      exact ⟨List.forall_mem_cons.mpr ⟨first, later⟩, holds⟩

/-- A look at a fused supply leaves a fused supply; if it sees nothing, nothing is ahead. -/
theorem fused_peek {ahead : Lookahead σ} (fused : Supply.Fused ahead.supply) :
    Supply.Fused ahead.peek.after.supply ∧
      (ahead.peek.given = none → ahead.peek.after.Holds []) := by
  unfold Lookahead.peek
  split
  · exact ⟨fused, fun nothing => nomatch nothing⟩
  · exact ⟨fused.next, fun nothing =>
      ⟨[], fused.gives_nil nothing, by
        rw [List.append_nil]
        exact congrArg Option.toList nothing.symm⟩⟩

/-- A pull from a fused supply leaves a fused supply; if it takes nothing, nothing is ahead. -/
theorem fused_pull {ahead : Lookahead σ} (fused : Supply.Fused ahead.supply) :
    Supply.Fused ahead.pull.after.supply ∧
      (ahead.pull.given = none → ahead.pull.after.Holds []) := by
  unfold Lookahead.pull
  split
  · exact ⟨fused, fun nothing => nomatch nothing⟩
  · exact ⟨fused.next, fun nothing => ⟨[], fused.gives_nil nothing, rfl⟩⟩

/-- An access to a fused supply leaves a fused supply; if it finds nothing, nothing is ahead. -/
theorem fused_access {ahead : Lookahead σ} (fused : Supply.Fused ahead.supply) (access : Access) :
    Supply.Fused (ahead.access access).2.supply ∧
      ((ahead.access access).1.isNothing = true → (ahead.access access).2.Holds []) := by
  obtain ⟨left, none⟩ := fused_pull fused
  obtain ⟨kept, unseen⟩ := fused_peek fused
  cases access with
  | pull => exact ⟨left, fun nothing => none (Option.isNone_iff_eq_none.mp nothing)⟩
  | peek => exact ⟨kept, fun nothing => unseen (Option.isNone_iff_eq_none.mp nothing)⟩
  | exhausted => exact ⟨kept, fun nothing => unseen (Option.isNone_iff_eq_none.mp nothing)⟩

/-- **Once an access to a fused supply found nothing**, nothing is ahead. -/
theorem holds_nil_of_isNothing {ahead : Lookahead σ} (fused : Supply.Fused ahead.supply)
    {accesses : List Access}
    (found : ∃ reply ∈ (ahead.accessAll accesses).1, reply.isNothing = true) :
    (ahead.accessAll accesses).2.Holds [] := by
  induction accesses generalizing ahead with
  | nil =>
      obtain ⟨reply, member, -⟩ := found
      cases member
  | cons access accesses ih =>
      obtain ⟨fused', ended⟩ := fused_access fused access
      obtain ⟨reply, member, nothing⟩ := found
      rcases List.mem_cons.mp member with rfl | later
      · exact ((ended nothing).accessAll_nil accesses).2
      · exact ih fused' ⟨reply, later, nothing⟩

/-! ## (4) Queues -/

/-- **A place of lookahead is a queue.** Whatever the supply is, and however it is accessed:

- behind a supply that counts its calls and otherwise answers as the one given, the replies are the
  same, and what was received in those calls are the items taken, in order, and the item held;
- an item that a look sees is what every later look sees until a pull, and what that pull takes;
- there is said to be no item exactly where a look would see none;
- once a fused supply was found to have nothing, it has nothing for all later accesses. -/
theorem queue_faithful (s : σ) (accesses : List Access) :
    let run := (ofSupply s).accessAll accesses
    let counted := (ofSupply (Counted.ofSupply s)).accessAll accesses
    (counted.1 = run.1 ∧ counted.2.held = run.2.held ∧
      (List.range counted.2.supply.asked).filterMap (Supply.answer s) =
        run.1.flatMap Reply.taken ++ run.2.held.toList) ∧
    (∀ item, (run.2.access .peek).1 = .seen (some item) → ∀ looks, .pull ∉ looks →
      let looked := (run.2.access .peek).2.accessAll looks
      (∀ reply ∈ looked.1, reply = .seen (some item) ∨ reply = .exhausted false) ∧
        (looked.2.access .pull).1 = .pulled (some item)) ∧
    ((run.2.access .exhausted).1 = .exhausted true ↔ (run.2.access .peek).1 = .seen none) ∧
    (Supply.Fused s → .exhausted true ∈ run.1 →
      ∀ more, ∀ reply ∈ (run.2.accessAll more).1, reply.isNothing = true) := by
  intro run counted
  have same : SameAnswers (ofSupply s) (ofSupply (Counted.ofSupply s)) :=
    ⟨rfl, Counted.answer_ofSupply s⟩
  obtain ⟨replies, last⟩ := same.accessAll accesses
  have has : HasReceived s [] (ofSupply (Counted.ofSupply s)) := ⟨rfl, rfl⟩
  refine ⟨⟨replies, last.held, ?_⟩, ?_, ?_, ?_⟩
  · obtain ⟨start, received⟩ := has.accessAll accesses
    rw [Counted.received, start, List.nil_append, replies, last.held] at received
    exact received
  · intro item seen looks only looked
    have held : run.2.peek.after.held = some item :=
      (held_peek run.2).trans (Reply.seen.inj seen)
    obtain ⟨stays, unchanged⟩ := accessAll_of_held held only
    have pulled := congrArg Step.given (pull_of_held held)
    refine ⟨stays, ?_⟩
    change (((run.2.peek.after.accessAll looks).2).access .pull).1 = _
    rw [unchanged, access, pulled]
  · rw [access, access, isExhausted, Reply.exhausted.injEq, Reply.seen.injEq,
      Option.isNone_iff_eq_none]
  · intro fused ended more
    exact ((holds_nil_of_isNothing fused ⟨_, ended, rfl⟩).accessAll_nil more).1

/-- A supply that gives nothing at first and then an item, and one that has a single item: what is
looked at is not lost, and nothing comes after the end. -/
theorem queue_faithful_paused :
    let plus : Item := .token (.fixed .plus .origin)
    let paused : Replay := ⟨[none, some plus]⟩
    let run := (ofSupply paused).accessAll [.exhausted, .pull]
    let single := (ofSupply (Replay.ofItems [plus])).accessAll [.pull, .exhausted]
    run.1 = [.exhausted true, .pulled (some plus)] ∧
      (∀ reply ∈ (((ofSupply paused).accessAll [.exhausted]).2.access .peek).2.accessAll
        [.exhausted, .peek] |>.1, reply = .seen (some plus) ∨ reply = .exhausted false) ∧
      ∀ more, ∀ reply ∈ (single.2.accessAll more).1, reply.isNothing = true := by
  intro plus paused run single
  obtain ⟨-, looks, -, -⟩ := queue_faithful paused [.exhausted]
  obtain ⟨-, -, -, silent⟩ := queue_faithful (Replay.ofItems [plus]) [.pull, .exhausted]
  have ended : .exhausted true ∈ single.1 := List.mem_of_getElem? (i := 1) rfl
  exact ⟨rfl, (looks plus rfl [.exhausted, .peek] (by decide)).1,
    silent (Replay.gives_ofItems [plus]).fused ended⟩

end Lookahead

end LoxSyntax
