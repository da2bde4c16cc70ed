/-! # Spans
Where a token or a diagnostic stands in its source. -/

namespace LoxSyntax

/-- A **span**: byte offsets, the second one exclusive, and the line the first byte is on, lines
being counted from one. -/
structure Span where
  /-- The offset of the first byte. -/
  start : Nat
  /-- The offset after the last byte. -/
  stop : Nat
  /-- The line of the first byte. -/
  line : Nat
deriving DecidableEq, Repr

/-- The empty span before the first byte of a source. -/
def Span.origin : Span := ⟨0, 0, 1⟩

end LoxSyntax
