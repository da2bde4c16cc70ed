import LoxSyntax.Proofs.Lexical.Requests

/-! # Operations
Whoever holds a cursor can ask it for its next item, for all items that are left, and for its line,
in any order and as often as they like. What comes back is the scan of the source, from its start
and in order, up to some item; all of it once nothing is left; and from then on nothing
(`operations_give_scan`). Asking for the line does not count (`Cursor.operateAll_filter`). -/

namespace LoxSyntax

/-! ## (1) Operations -/

/-- An **operation** on a cursor. -/
inductive Operation where
  /-- A request for items. -/
  | ask (request : Request)
  /-- A look at the line. -/
  | line
deriving DecidableEq, Repr

/-- An **answer** to an operation. -/
inductive Answer where
  /-- The next item, if there is one. -/
  | item (next : Option Item)
  /-- All items that were left. -/
  | items (all : List Item)
  /-- The line. -/
  | line (line : Nat)
deriving DecidableEq, Repr

/-- The items in an answer. -/
def Answer.given : Answer → List Item
  | .item next => next.toList
  | .items all => all
  | .line _ => []

/-- Whether an answer is a line. -/
def Answer.isLine : Answer → Bool
  | .line _ => true
  | _ => false

/-- The answer to an operation when nothing is left, on the last line. -/
def Answer.spent (last : Nat) : Operation → Answer
  | .ask .next => .item none
  | .ask .all => .items []
  | .line => .line last

namespace Cursor

/-- What an operation answers, and what the cursor is afterwards. -/
def operate (c : Cursor) : Operation → Answer × Cursor
  | .ask .next => (.item c.next.given, c.next.after)
  | .ask .all => (.items (c.drain.1.map (·.2)), c.drain.2)
  | .line => (.line c.line, c)

/-- **What operations one after the other answer**, and what the cursor is after the last. -/
def operateAll (c : Cursor) : List Operation → List Answer × Cursor
  | [] => ([], c)
  | operation :: operations =>
    let answered := c.operate operation
    let later := answered.2.operateAll operations
    (answered.1 :: later.1, later.2)

/-- **A look at the line changes nothing.** Without the looks, the other operations are answered as
they were among them, and the cursor is the same after the last. -/
theorem operateAll_filter (c : Cursor) (operations : List Operation) :
    c.operateAll (operations.filter (· != .line)) =
      ((c.operateAll operations).1.filter (!·.isLine), (c.operateAll operations).2) := by
  induction operations generalizing c with
  | nil => rfl
  | cons operation operations ih =>
      cases operation with
      | line => exact ih c
      | ask request =>
          rw [List.filter_cons_of_pos rfl, operateAll, operateAll, ih]
          cases request <;> rfl

/-! ## (2) In the midst of a source -/

/-- **One operation**: what is given are the first of the items left. After a request for all, or
when no next item was given, nothing is left. -/
theorem Amid.operate {source : List UInt8} {given left : List Item} {c : Cursor}
    (amid : Amid source given left c) (operation : Operation) :
    ∃ later, left = (c.operate operation).1.given ++ later ∧
      Amid source (given ++ (c.operate operation).1.given) later (c.operate operation).2 ∧
      (operation = .ask .all ∨ (c.operate operation).1 = .item none → later = []) := by
  cases operation with
  | line =>
      rw [← List.append_nil given] at amid
      exact ⟨left, rfl, amid, by rintro (all | none) <;> contradiction⟩
  | ask request =>
      cases request with
      | next =>
          obtain ⟨item, amid⟩ := amid.next
          rw [← item] at amid
          refine ⟨left.tail, ?_, amid, ?_⟩
          · change left = c.next.given.toList ++ left.tail
            rw [item]
            cases left <;> rfl
          · rintro (all | none)
            · contradiction
            · rw [List.head?_eq_none_iff.mp (item.symm.trans (Answer.item.inj none))]
              rfl
      | all =>
          obtain ⟨items, amid⟩ := amid.drain
          rw [← items] at amid
          refine ⟨[], ?_, amid, fun _ => rfl⟩
          rw [List.append_nil]
          exact items.symm

/-- **Many operations**: what is given are the first of the items left. -/
theorem Amid.operateAll {source : List UInt8} {given left : List Item} {c : Cursor}
    (amid : Amid source given left c) (operations : List Operation) :
    ∃ later, left = (c.operateAll operations).1.flatMap Answer.given ++ later ∧
      Amid source (given ++ (c.operateAll operations).1.flatMap Answer.given) later
        (c.operateAll operations).2 ∧
      (.ask .all ∈ operations ∨ .item none ∈ (c.operateAll operations).1 → later = []) := by
  induction operations generalizing given left c with
  | nil =>
      rw [← List.append_nil given] at amid
      exact ⟨left, rfl, amid, by rintro (all | none) <;> contradiction⟩
  | cons operation operations ih =>
      obtain ⟨left₁, first, amid, none₁⟩ := amid.operate operation
      obtain ⟨later, second, amid, none₂⟩ := ih amid
      rw [List.append_assoc, ← List.flatMap_cons] at amid
      refine ⟨later, ?_, amid, ?_⟩
      · rw [first, second, ← List.append_assoc, ← List.flatMap_cons]
        rfl
      -- If this operation leaves nothing, the later ones have nothing to give.
      · have still : left₁ = [] → later = [] := by
          rintro rfl
          exact (List.append_eq_nil_iff.mp second.symm).2
        rintro (all | none)
        · rcases List.mem_cons.mp all with rfl | all
          · exact still (none₁ (.inl rfl))
          · exact none₂ (.inl all)
        · rcases List.mem_cons.mp none with none | none
          · exact still (none₁ (.inr none.symm))
          · exact none₂ (.inr none)

/-- **When nothing is left**, an operation gives no item, and the cursor stays what it is. -/
theorem Amid.operate_spent {source : List UInt8} {given : List Item} {c : Cursor}
    (amid : Amid source given [] c) (operation : Operation) :
    c.operate operation = (.spent (source.count Byte.newline + 1) operation, c) := by
  cases amid with
  | running split passed stop scans =>
      -- Items of bytes that are left have the end of input at least.
      generalize c.rest = rest at scans
      cases scans
  | ended ended line =>
      have next : c.next = ⟨[], none, c⟩ := by
        rw [Cursor.next, if_pos ended]
      have drain : c.drain = ([], c) := by
        rw [drain_of_none (by rw [next]), next]
      rcases operation with (_ | _) | _
      · rw [Cursor.operate, next]
        rfl
      · rw [Cursor.operate, drain]
        rfl
      · rw [Cursor.operate, line]
        rfl

/-- When nothing is left, no operation changes that. -/
theorem Amid.operateAll_spent {source : List UInt8} {given : List Item} {c : Cursor}
    (amid : Amid source given [] c) (operations : List Operation) :
    c.operateAll operations = (operations.map (.spent (source.count Byte.newline + 1)), c) := by
  induction operations with
  | nil => rfl
  | cons operation operations ih =>
      rw [Cursor.operateAll, amid.operate_spent, ih, List.map_cons]

end Cursor

/-! ## (3) Any operations -/

/-- **However a cursor is asked, it gives the same scan.** The items that any operations give are
the first of the scan. They are all of it once all were asked for, or there was no next one. They
then hold the end of input once, as the last, and no later operation gives an item. And the same
operations without looks at the line give the same answers. -/
theorem operations_give_scan (source : List UInt8) (operations : List Operation) :
    let run := (Cursor.start source).operateAll operations
    let items := run.1.flatMap Answer.given
    items <+: scan source ∧
      (.ask .all ∈ operations ∨ .item none ∈ run.1 → items = scan source) ∧
      (items = scan source →
        (∃ others last, items = others ++ [.token (.endOfInput last)] ∧
          ∀ t, .token t ∈ others → t.kind ≠ .endOfInput) ∧
        ∀ more, run.2.operateAll more =
          (more.map (.spent (source.count Byte.newline + 1)), run.2)) ∧
      (Cursor.start source).operateAll (operations.filter (· != .line)) =
        (run.1.filter (!·.isLine), run.2) := by
  intro run items
  obtain ⟨later, split, amid, none⟩ := (Cursor.amid_start source).operateAll operations
  refine ⟨⟨later, split.symm⟩, ?_, ?_, Cursor.operateAll_filter _ _⟩
  · intro complete
    rw [split, none complete, List.append_nil]
  · intro complete
    constructor
    · obtain ⟨others, _, last, eq, kinds, -⟩ := (scans_scan source).tiling
      exact ⟨others, last, complete.trans eq, kinds⟩
    · obtain rfl : later = [] := List.append_right_eq_self.mp (split.symm.trans complete.symm)
      exact amid.operateAll_spent

/-- Looks at the line among the requests, a request for all that is left, and two more after it. -/
theorem operations_give_scan_looked :
    let source : List UInt8 := [0x2B, Byte.newline, Byte.quote]
    let operations : List Operation := [.line, .ask .next, .line, .ask .all]
    let run := (Cursor.start source).operateAll operations
    let plus : Item := .token (.fixed .plus ⟨0, 1, 1⟩)
    let left : List Item :=
      [.fault (.unterminatedString ⟨2, 3, 2⟩), .token (.endOfInput ⟨3, 3, 2⟩)]
    run.1 = [.line 1, .item plus, .line 1, .items left] ∧
      .ask .all ∈ operations ∧ run.1.flatMap Answer.given = scan source ∧
      run.2.operateAll [.ask .next, .line, .ask .all] =
        ([.item none, .line 2, .items []], run.2) ∧
      (Cursor.start source).operateAll [.ask .next, .ask .all] =
        ([.item plus, .items left], run.2) := by
  intro source operations run plus left
  have answers : run.1 = [.line 1, .item plus, .line 1, .items left] := by
    decide +kernel
  have asked : .ask .all ∈ operations := by
    decide
  obtain ⟨-, whole, spent, silent⟩ := operations_give_scan source operations
  have complete := whole (.inl asked)
  refine ⟨answers, asked, complete, (spent complete).2 _, ?_⟩
  change (Cursor.start source).operateAll [.ask .next, .ask .all] =
    (run.1.filter _, run.2) at silent
  rw [silent, answers]
  rfl

end LoxSyntax
