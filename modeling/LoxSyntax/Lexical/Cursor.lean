import LoxSyntax.Lexical.Layout
import LoxSyntax.Lexical.Lexeme
import LoxSyntax.Supply

/-! # Scanning
A cursor moves over a source and gives its items in order, with their places. Layout is passed over,
an item that is no token does not end the scan, and the last item is the token of the end of input,
once.

`Cursor.next` gives one item. `Cursor.drain` gives all that are left, each with the records logged
for it, and `scan` all items of a source. -/

namespace LoxSyntax

/-- A **cursor** over a source. -/
structure Cursor where
  /-- The bytes not yet passed. -/
  rest : List UInt8
  /-- How many bytes were passed. -/
  offset : Nat
  /-- The line the cursor is on. -/
  line : Nat
  /-- Whether the end of input was given. -/
  ended : Bool
deriving DecidableEq, Repr

namespace Cursor

/-- The cursor before the first byte. -/
def start (source : List UInt8) : Cursor := ⟨source, 0, 1, false⟩

/-- Pass over some bytes, which leaves the given rest. -/
def pass (c : Cursor) (bytes rest : List UInt8) : Cursor :=
  { c with
    rest := rest
    offset := c.offset + bytes.length
    line := c.line + bytes.count Byte.newline }

/-- What is logged about an item that is no token. -/
def complaint : Item → List Record
  | .token _ => []
  | .fault d => [.scanError d]

/-- **Give the next item**: pass over layout, then over the longest lexeme. Every byte that decides
something is logged before it is passed, and an item that is no token after it. -/
def next (c : Cursor) : Step Cursor Item :=
  if c.ended then ⟨[], none, c⟩
  else
    let layout := (Layout.split c.rest).1
    let passed := Layout.records c.line layout
    let here := c.pass (layout.flatMap Layout.bytes) (Layout.split c.rest).2
    match here.rest with
    | [] =>
      ⟨passed, some (.token (.endOfInput ⟨here.offset, here.offset, here.line⟩)),
        { here with ended := true }⟩
    | b :: bs =>
      let lexeme := (Lexeme.read b bs).1
      let there := here.pass lexeme.bytes (Lexeme.read b bs).2
      let item := lexeme.item ⟨here.offset, there.offset, here.line⟩
      ⟨passed ++ .dispatch here.line b :: complaint item, some item, there⟩

instance : Supply Cursor := ⟨next⟩

/-- How many bytes and ends of input are left to give. -/
def size (c : Cursor) : Nat := if c.ended then 0 else c.rest.length + 1

/-- A step that gives an item leaves less to give. -/
theorem size_next {c : Cursor} {item : Item} (h : c.next.given = some item) :
    c.next.after.size < c.size := by
  have hs := Layout.length_split c.rest
  unfold next at h ⊢
  split at h
  · cases h
  · next he =>
    simp only [he, if_false, Bool.false_eq_true]
    split
    · simp [size, he]
    · next b bs hr =>
      have hl := Lexeme.length_read b bs
      simp only [pass] at hr
      rw [hr, List.length_cons] at hs
      simp only [size, pass, he, if_false, Bool.false_eq_true]
      omega

/-- Give all that is left, after the items already given. -/
def drainOnto (given : Array (List Record × Item)) (c : Cursor) :
    List (List Record × Item) × Cursor :=
  match _next : c.next with
  | ⟨_, none, after⟩ => (given.toList, after)
  | ⟨records, some item, after⟩ => drainOnto (given.push (records, item)) after
termination_by c.size
decreasing_by
  have := size_next (show c.next.given = some item by rw [_next])
  rwa [_next] at this

/-- **Give all that is left**: the items with the records logged for each, and the cursor
afterwards. -/
def drain (c : Cursor) : List (List Record × Item) × Cursor := drainOnto #[] c

theorem drainOnto_eq (given : Array (List Record × Item)) (c : Cursor) :
    drainOnto given c = (given.toList ++ c.drain.1, c.drain.2) := by
  induction h : c.size using Nat.strongRecOn generalizing given c with
  | ind n ih =>
    unfold drain
    rw [drainOnto, drainOnto]
    split
    · simp
    · next records item after hn =>
      have hlt : after.size < n := by
        have := size_next (show c.next.given = some item by rw [hn])
        rw [hn] at this
        exact h ▸ this
      rw [ih _ hlt _ _ rfl, ih _ hlt (#[].push _) _ rfl]
      simp

/-- Where nothing is given, nothing is left. -/
theorem drain_of_none {c : Cursor} (h : c.next.given = none) : c.drain = ([], c.next.after) := by
  unfold drain
  rw [drainOnto]
  split
  · next hn => rw [hn]
  · next hn => rw [hn] at h; cases h

/-- Where an item is given, that item and what its step leaves are left. -/
theorem drain_of_some {c : Cursor} {item : Item} (h : c.next.given = some item) :
    c.drain = ((c.next.records, item) :: c.next.after.drain.1, c.next.after.drain.2) := by
  conv => lhs; unfold drain
  rw [drainOnto]
  split
  · next hn => rw [hn] at h; cases h
  · next hn =>
    rw [hn] at h
    obtain rfl := Option.some.inj h
    rw [drainOnto_eq, hn]
    simp

end Cursor

/-- **All items of a source**, in order. -/
def scan (source : List UInt8) : List Item := (Cursor.start source).drain.1.map (·.2)

end LoxSyntax
