import LoxSyntax.Lexical.Byte
import LoxSyntax.Record

/-! # Layout
What stands between the items of a source without being one: spaces, tabs, newlines and comments. A
comment ends before the newline that ends its line, and the newline is a piece of its own.

`Layout.split` takes the longest layout off the head of a byte list. Nothing is lost
(`Layout.bytes_split`), and what is left starts with no layout (`Layout.first?_split`). -/

namespace LoxSyntax

/-- A **piece of layout**. -/
inductive Layout where
  | space | tab | newline
  /-- Two slashes and the text after them. -/
  | comment (text : List UInt8)
deriving DecidableEq, Repr

namespace Layout

/-- The bytes of a piece. -/
def bytes : Layout → List UInt8
  | space => [Byte.space]
  | tab => [Byte.tab]
  | newline => [Byte.newline]
  | comment text => Byte.slash :: Byte.slash :: text

/-- The first byte of a piece. -/
def lead : Layout → UInt8
  | space => Byte.space
  | tab => Byte.tab
  | newline => Byte.newline
  | comment _ => Byte.slash

/-- Whether a byte goes on with a comment. -/
def runsOn (b : UInt8) : Bool := b != Byte.newline

/-- The piece at the head of a byte list, with the bytes after it. -/
def first? : List UInt8 → Option (Layout × List UInt8)
  | [] => none
  | b :: rest =>
    if b = Byte.space then some (space, rest)
    else if b = Byte.tab then some (tab, rest)
    else if b = Byte.newline then some (newline, rest)
    else if b = Byte.slash then
      match rest with
      | [] => none
      | c :: after =>
        if c = Byte.slash then some (comment (after.takeWhile runsOn), after.dropWhile runsOn)
        else none
    else none

/-- A piece and the bytes after it make up the list. -/
theorem bytes_first? {source rest : List UInt8} {piece : Layout}
    (h : first? source = some (piece, rest)) : piece.bytes ++ rest = source := by
  cases source with
  | nil => simp [first?] at h
  | cons b source =>
    simp only [first?] at h
    split at h
    · next hb => obtain ⟨rfl, rfl⟩ := Prod.mk.inj (Option.some.inj h); simp [bytes, hb]
    split at h
    · next hb => obtain ⟨rfl, rfl⟩ := Prod.mk.inj (Option.some.inj h); simp [bytes, hb]
    split at h
    · next hb => obtain ⟨rfl, rfl⟩ := Prod.mk.inj (Option.some.inj h); simp [bytes, hb]
    split at h
    · next hb =>
      cases source with
      | nil => simp at h
      | cons c after =>
        simp only at h
        split at h
        · next hc =>
          obtain ⟨rfl, rfl⟩ := Prod.mk.inj (Option.some.inj h)
          simp [bytes, hb, hc, List.takeWhile_append_dropWhile]
        · simp at h
    · simp at h

/-- A piece has at least one byte, its first. -/
theorem bytes_eq_cons (piece : Layout) : ∃ rest, piece.bytes = piece.lead :: rest := by
  cases piece <;> exact ⟨_, rfl⟩

/-- What follows a piece is shorter. -/
theorem length_first? {source rest : List UInt8} {piece : Layout}
    (h : first? source = some (piece, rest)) : rest.length < source.length := by
  obtain ⟨more, hm⟩ := piece.bytes_eq_cons
  have := congrArg List.length (bytes_first? h)
  simp only [hm, List.cons_append, List.length_cons, List.length_append] at this
  omega

/-- Take pieces off the head as long as there are any, the last one taken first in `taken`. -/
def splitOnto (taken : List Layout) (source : List UInt8) : List Layout × List UInt8 :=
  match _found : first? source with
  | none => (taken.reverse, source)
  | some (piece, rest) => splitOnto (piece :: taken) rest
termination_by source.length
decreasing_by exact length_first? _found

/-- **The layout at the head** of a byte list, as long as possible, with the bytes after it. -/
def split (source : List UInt8) : List Layout × List UInt8 := splitOnto [] source

theorem splitOnto_eq (taken : List Layout) (source : List UInt8) :
    splitOnto taken source = (taken.reverse ++ (split source).1, (split source).2) := by
  induction h : source.length using Nat.strongRecOn generalizing taken source with
  | ind n ih =>
    unfold split
    rw [splitOnto, splitOnto]
    split
    · simp
    · next piece rest hf =>
      have hlt : rest.length < n := h ▸ length_first? hf
      rw [ih _ hlt _ _ rfl, ih _ hlt [piece] _ rfl]
      simp

/-- Where no layout starts, there is none to take. -/
theorem split_of_none {source : List UInt8} (h : first? source = none) :
    split source = ([], source) := by
  unfold split
  rw [splitOnto]
  split
  · rfl
  · next hf => rw [h] at hf; cases hf

/-- Where a piece starts, the layout is that piece and the layout after it. -/
theorem split_of_some {source rest : List UInt8} {piece : Layout}
    (h : first? source = some (piece, rest)) :
    split source = (piece :: (split rest).1, (split rest).2) := by
  conv => lhs; unfold split
  rw [splitOnto]
  split
  · next hf => rw [h] at hf; cases hf
  · next hf =>
    rw [h] at hf
    obtain ⟨rfl, rfl⟩ := Prod.mk.inj (Option.some.inj hf)
    rw [splitOnto_eq]
    rfl

/-- **Nothing is lost**: the layout and the bytes after it make up the list. -/
theorem bytes_split (source : List UInt8) :
    (split source).1.flatMap bytes ++ (split source).2 = source := by
  induction h : source.length using Nat.strongRecOn generalizing source with
  | ind n ih =>
    cases hf : first? source with
    | none => simp [split_of_none hf]
    | some found =>
      obtain ⟨piece, rest⟩ := found
      have := ih _ (h ▸ length_first? hf) rest rfl
      rw [split_of_some hf, List.flatMap_cons, List.append_assoc, this, bytes_first? hf]

/-- **The layout is the longest**: no piece starts what is left. -/
theorem first?_split (source : List UInt8) : first? (split source).2 = none := by
  induction h : source.length using Nat.strongRecOn generalizing source with
  | ind n ih =>
    cases hf : first? source with
    | none => simpa [split_of_none hf] using hf
    | some found =>
      rw [split_of_some hf]
      exact ih _ (h ▸ length_first? hf) _ rfl

/-- What is left is no longer. -/
theorem length_split (source : List UInt8) : (split source).2.length ≤ source.length := by
  have := congrArg List.length (bytes_split source)
  rw [List.length_append] at this
  omega

/-! ## The log of layout -/

/-- Count the newlines of a piece into the line, and add the record of its first byte to those of
the pieces before it. -/
def note (seen : Nat × Array Record) (piece : Layout) : Nat × Array Record :=
  (seen.1 + piece.bytes.count Byte.newline, seen.2.push (.dispatch seen.1 piece.lead))

/-- **The records of layout** that starts on the given line: one for each piece, about its first
byte, with the line before a newline is counted. -/
def records (line : Nat) (pieces : List Layout) : List Record :=
  (pieces.foldl note (line, #[])).2.toList

theorem foldl_note (pieces : List Layout) (line : Nat) (seen : Array Record) :
    (pieces.foldl note (line, seen)).2.toList = seen.toList ++ records line pieces := by
  unfold records
  induction pieces generalizing line seen with
  | nil => simp
  | cons piece pieces ih =>
    simp only [List.foldl_cons, note]
    rw [ih _ (seen.push _), ih _ (#[].push _)]
    simp

@[simp] theorem records_nil (line : Nat) : records line [] = [] := rfl

theorem records_cons (line : Nat) (piece : Layout) (pieces : List Layout) :
    records line (piece :: pieces) =
      .dispatch line piece.lead :: records (line + piece.bytes.count Byte.newline) pieces := by
  conv => lhs; unfold records
  rw [List.foldl_cons, note, foldl_note]
  simp

end Layout

end LoxSyntax
