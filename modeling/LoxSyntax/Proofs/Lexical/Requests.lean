import LoxSyntax.Proofs.Lexical.Tiling
import LoxSyntax.Proofs.Supply

/-! # Requests to a cursor
A cursor is asked for its items, one at a time or all that are left, in any order. However it is
asked, it stands in the midst of its source: what it has given and what it will give make up the
scan, and its place is where the last item it gave ends (`Cursor.Amid`). So its line is always right
(`lines_counted`), and for whoever asks one item at a time it is a finite supply
(`Cursor.gives_start`). -/

namespace LoxSyntax

/-! ## (1) Requests -/

/-- A **request** to a cursor. -/
inductive Request where
  /-- For the next item. -/
  | next
  /-- For all items that are left. -/
  | all
deriving DecidableEq, Repr

namespace Cursor

/-- What a cursor gives on a request, and what it is afterwards. -/
def ask (c : Cursor) : Request → List Item × Cursor
  | .next => (c.next.given.toList, c.next.after)
  | .all => (c.drain.1.map (·.2), c.drain.2)

/-- **What a cursor gives on requests** one after the other, and what it is after the last. -/
def answer (c : Cursor) : List Request → List Item × Cursor
  | [] => ([], c)
  | request :: requests =>
    let asked := c.ask request
    let later := asked.2.answer requests
    (asked.1 ++ later.1, later.2)

end Cursor

/-- **Where some items end**: after the last byte of the last one, and at the start of the source if
there is none. -/
def endOf (items : List Item) : Nat := (items.getLast?.bind Item.span?).elim 0 (·.stop)

/-- Items end where the last of them does. -/
theorem endOf_concat {item : Item} {span : Span} (place : item.span? = some span)
    (items : List Item) : endOf (items ++ [item]) = span.stop := by
  simp [endOf, place]

/-! ## (2) In the midst of a source -/

namespace Cursor

/-- **A cursor in the midst of a source**, which has given some items and has others left. -/
inductive Amid (source : List UInt8) (given left : List Item) (c : Cursor) : Prop where
  /-- The items left are those of the bytes after the last item given. -/
  | running {before : List UInt8} (split : source = before ++ c.rest) (passed : c.Passed before)
    (stop : endOf given = before.length) (scans : Scans before c.rest left)
  /-- The end of input was given, and nothing is left. -/
  | ended (ended : c.ended = true) (line : c.line = source.count Byte.newline + 1)
    (stop : endOf given = source.length) (none : left = [])

/-- At the start nothing is given and all items are left. -/
theorem amid_start (source : List UInt8) : Amid source [] (scan source) (start source) :=
  .running rfl (passed_start source) rfl (scans_scan source)

/-- The line of a cursor counts the newlines up to the end of the last item given. -/
theorem Amid.line {source : List UInt8} {given left : List Item} {c : Cursor}
    (amid : Amid source given left c) :
    c.line = 1 + (source.take (endOf given)).count Byte.newline := by
  rw [Nat.add_comm]
  cases amid with
  | running split passed stop scans => rw [passed.line, split, stop, List.take_left]
  | ended ended line stop none => rw [line, stop, List.take_length]

/-- **One item**: what is next is the first of the items left, and then it is the last one given. -/
theorem Amid.next {source : List UInt8} {given left : List Item} {c : Cursor}
    (amid : Amid source given left c) :
    c.next.given = left.head? ∧
      Amid source (given ++ left.head?.toList) left.tail c.next.after := by
  cases amid with
  | @running before split passed stop scans =>
      generalize left_bytes : c.rest = rest at split scans
      cases scans with
      | ended isGap =>
          obtain ⟨item, ended, line⟩ := next_of_end passed (left_bytes ▸ isGap)
          rw [left_bytes, ← split] at line
          rw [left_bytes] at item
          refine ⟨item, .ended ended line ?_ rfl⟩
          rw [List.head?_cons, Option.toList_some, endOf_concat rfl, split]
          exact Nat.add_zero _
      | @item _ gap bytes rest item items isGap bare lexes more =>
          obtain ⟨item, passed', after⟩ := next_of_item passed left_bytes isGap bare lexes
          refine ⟨item, .running ?_ passed' ?_ (after.symm ▸ more)⟩
          · rw [after, split, List.append_assoc, List.append_assoc]
          · rw [List.head?_cons, Option.toList_some, endOf_concat lexes.span?_eq]
            exact List.length_append.symm
  | ended ended line stop none =>
      have same : c.next = ⟨[], .none, c⟩ := by
        rw [Cursor.next, if_pos ended]
      rw [same, none]
      exact ⟨rfl, .ended ended line (by rw [← stop]; simp) rfl⟩

/-- **All that is left**: the items left, and then nothing is left. -/
theorem Amid.drain {source : List UInt8} {given left : List Item} {c : Cursor}
    (amid : Amid source given left c) :
    c.drain.1.map (·.2) = left ∧ Amid source (given ++ left) [] c.drain.2 := by
  induction left generalizing given c with
  | nil =>
      obtain ⟨none, amid⟩ := amid.next
      rw [drain_of_none none]
      exact ⟨rfl, amid⟩
  | cons item left ih =>
      obtain ⟨some, amid⟩ := amid.next
      obtain ⟨items, amid⟩ := ih amid
      rw [drain_of_some some, List.map_cons, items]
      refine ⟨rfl, ?_⟩
      rw [List.head?_cons, Option.toList_some, List.append_assoc] at amid
      exact amid

/-- **One request**: what is given are the first of the items left. -/
theorem Amid.ask {source : List UInt8} {given left : List Item} {c : Cursor}
    (amid : Amid source given left c) (request : Request) :
    ∃ later, left = (c.ask request).1 ++ later ∧
      Amid source (given ++ (c.ask request).1) later (c.ask request).2 := by
  cases request with
  | next =>
      obtain ⟨item, amid⟩ := amid.next
      rw [← item] at amid
      refine ⟨left.tail, ?_, amid⟩
      rw [Cursor.ask, item]
      cases left <;> rfl
  | all =>
      obtain ⟨items, amid⟩ := amid.drain
      rw [← items] at amid
      exact ⟨[], by rw [Cursor.ask, items, List.append_nil], amid⟩

/-- **Many requests**: what is given are the first of the items left. -/
theorem Amid.answer {source : List UInt8} {given left : List Item} {c : Cursor}
    (amid : Amid source given left c) (requests : List Request) :
    ∃ later, left = (c.answer requests).1 ++ later ∧
      Amid source (given ++ (c.answer requests).1) later (c.answer requests).2 := by
  induction requests generalizing given left c with
  | nil =>
      rw [← List.append_nil given] at amid
      exact ⟨left, rfl, amid⟩
  | cons request requests ih =>
      obtain ⟨left₁, first, amid⟩ := amid.ask request
      obtain ⟨later, second, amid⟩ := ih amid
      rw [List.append_assoc] at amid
      exact ⟨later, by rw [first, second, ← List.append_assoc]; rfl, amid⟩

/-! ## (3) A finite supply -/

/-- After some calls a cursor in the midst of its source has passed as many items. -/
theorem Amid.after {source : List UInt8} {given left : List Item} {c : Cursor}
    (amid : Amid source given left c) (calls : Nat) :
    ∃ given', Amid source given' (left.drop calls) (Supply.after calls c) := by
  induction calls generalizing given left c with
  | zero => exact ⟨given, amid⟩
  | succ calls ih =>
      obtain ⟨given', amid⟩ := ih amid.next.2
      rw [List.drop_tail] at amid
      exact ⟨given', amid⟩

/-- **A cursor is a finite supply** of the items of its source. -/
theorem gives_start (source : List UInt8) : Supply.Gives (start source) (scan source) := by
  intro calls
  obtain ⟨given, amid⟩ := (amid_start source).after calls
  rw [← List.head?_drop]
  exact amid.next.1

end Cursor

/-! ## (4) Lines -/

/-- Every item of some bytes that come after others has a place, and its line counts the newlines
before it. -/
theorem Scans.line {before rest : List UInt8} {items : List Item} (scans : Scans before rest items)
    {item : Item} (member : item ∈ items) :
    ∃ span, item.span? = some span ∧
      span.line = 1 + ((before ++ rest).take span.start).count Byte.newline := by
  -- What stands before an item is what was passed, and the gap.
  have counted : ∀ before bytes rest : List UInt8, (Span.after before bytes).line =
      1 + ((before ++ rest).take (Span.after before bytes).start).count Byte.newline := by
    intro before bytes rest
    rw [Nat.add_comm]
    simp only [Span.after, List.take_left]
  induction scans with
  | @ended before gap isGap =>
      cases List.mem_singleton.mp member
      have line := counted (before ++ gap) [] []
      rw [List.append_nil] at line
      exact ⟨_, rfl, line⟩
  | @item before gap bytes rest first items isGap bare lexes more ih =>
      rcases List.mem_cons.mp member with rfl | later
      · refine ⟨_, lexes.span?_eq, ?_⟩
        rw [← List.append_assoc]
        exact counted (before ++ gap) bytes (bytes ++ rest)
      · rw [← List.append_assoc, ← List.append_assoc]
        exact ih later

/-- **Lines are counted right everywhere.** Every item of a scan has a place, whose line is one more
than the number of newlines before it; and however a cursor was asked, its line is one more than the
number of newlines before the end of the last item it gave. -/
theorem lines_counted (source : List UInt8) :
    (∀ item ∈ scan source, ∃ span, item.span? = some span ∧
      span.line = 1 + (source.take span.start).count Byte.newline) ∧
    ∀ requests, let answered := (Cursor.start source).answer requests
      answered.2.line = 1 + (source.take (endOf answered.1)).count Byte.newline := by
  refine ⟨fun item member => (scans_scan source).line member, fun requests => ?_⟩
  obtain ⟨later, -, amid⟩ := (Cursor.amid_start source).answer requests
  exact amid.line

end LoxSyntax
