import LoxSyntax.Proofs.Lexical.Insertion

/-! # Sources joined by a newline
A newline after a source ends its last item and its last comment, unless a quote is not closed. So
where none is, the items of a source and a newline and another source are those of the first, but
for its end of input, and those of the second in their places (`scan_append_newline`). -/

namespace LoxSyntax

/-- A run of bytes of a class does not go on over a byte that is not of the class. -/
theorem takeWhile_append_cons_prefix {p : UInt8 → Bool} {b : UInt8} (other : p b = false)
    (front back : List UInt8) : (front ++ b :: back).takeWhile p <+: front := by
  rw [List.takeWhile_append, List.takeWhile_cons_of_neg (by simp [other]), List.append_nil]
  split
  · exact List.prefix_refl front
  · exact List.takeWhile_prefix p

/-- **A newline and more may be put at the end** of the bytes after an item, if it is no quote that
is not closed. -/
theorem replaces_append_newline {item : Item} (closed : item.isUnclosed = false)
    (rest more : List UInt8) : Replaces item rest (rest ++ Byte.newline :: more) where
  head b first := by
    cases rest with
    | nil =>
        cases first
        exact .inr ⟨closed, .inr (.inr (.inl rfl))⟩
    | cons c rest => exact .inl first
  multibyte := takeWhile_append_cons_prefix (by decide) rest more
  quote unclosed := by
    rw [closed] at unclosed
    cases unclosed

/-- A gap at the end of a source, with a newline after it, is layout. -/
theorem IsGap.isLayout_newline {gap : List UInt8} (isGap : IsGap [] gap) :
    IsLayout (gap ++ [Byte.newline]) := by
  induction isGap with
  | nil => exact .blank (.inr (.inr rfl)) .nil
  | blank blank more ih => exact .blank blank ih
  | @comment text gap line ends more ih =>
      cases gap with
      | nil =>
          rw [List.append_nil]
          exact .comment line .nil
      | cons b gap =>
          obtain rfl : b = Byte.newline := ends b rfl
          -- The newline is no comment, so it is the first blank of the layout after the comment.
          cases ih with
          | blank blank more =>
              have whole := IsLayout.comment line more
              simpa using whole

/-- Layout may be put in front of a row of items. -/
theorem Scans.append_layout {before w rest : List UInt8} {items : List Item} (layout : IsLayout w)
    (scans : Scans (before ++ w) rest items) : Scans before (w ++ rest) items := by
  generalize start : before ++ w = passed at scans
  cases scans with
  | ended isGap =>
      have whole : Scans before (w ++ rest) _ := .ended (layout.isGap_append isGap)
      rw [← List.append_assoc, start] at whole
      exact whole
  | @item _ gap bytes rest item items isGap bare lexes more =>
      subst start
      rw [← List.append_assoc]
      rw [List.append_assoc before w gap] at lexes more
      exact .item (layout.isGap_append isGap) bare lexes more

/-- **The items of bytes that are joined** by a newline: those of the first but for the end of
input, and those of the second. -/
theorem Scans.append_newline {before rest : List UInt8} {items : List Item}
    (scans : Scans before rest items) {first : List Item} {last : Item}
    (split : items = first ++ [last]) (closed : ∀ item ∈ first, item.isUnclosed = false)
    {more : List UInt8} {second : List Item}
    (scans' : Scans (before ++ (rest ++ [Byte.newline])) more second) :
    Scans before (rest ++ Byte.newline :: more) (first ++ second) := by
  induction scans generalizing first with
  | @ended before gap isGap =>
      obtain ⟨rfl, -⟩ := List.append_inj' (show [] ++ [_] = first ++ [last] from split) rfl
      have whole := scans'.append_layout isGap.isLayout_newline
      simpa using whole
  | @item before gap bytes rest item items isGap bare lexes more' ih =>
      cases first with
      | nil =>
          -- Items are left after the first one, so that is not the last.
          obtain ⟨-, rfl⟩ := List.cons.inj split
          cases more'
      | cons found first =>
          obtain ⟨rfl, rfl⟩ := List.cons.inj split
          obtain ⟨here, others⟩ := List.forall_mem_cons.mp closed
          have replaces := replaces_append_newline here rest more
          have isGap' : IsGap (bytes ++ (rest ++ Byte.newline :: more)) gap := by
            obtain ⟨b, bytes, rfl⟩ := List.exists_cons_of_ne_nil lexes.bytes_ne_nil
            exact isGap.of_head? fun c first => first
          have whole := Scans.item isGap' (bare.replace lexes replaces) (lexes.replace replaces)
            (ih rfl others (by simpa using scans'))
          simpa using whole

/-- **The scan of two sources joined by a newline.** Where the first source has no quote that is not
closed, its items but for the end of input come first, and then those of the second source, further
on by the bytes and the lines before it. -/
theorem scan_append_newline {source : List UInt8} {items : List Item} {last : Item}
    (split : scan source = items ++ [last]) (closed : ∀ item ∈ items, item.isUnclosed = false)
    (more : List UInt8) :
    scan (source ++ Byte.newline :: more) = items ++ (scan more).map
      (.mapSpan (.shift (source.length + 1) (source.count Byte.newline + 1))) := by
  obtain ⟨second, scans'⟩ := exists_scans ([] ++ (source ++ [Byte.newline])) more
  rw [scan_of_scans ((scans_scan source).append_newline split closed scans'), scans'.eq_shift]
  simp

end LoxSyntax
