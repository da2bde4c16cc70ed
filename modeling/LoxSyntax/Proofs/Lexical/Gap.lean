import LoxSyntax.Lexical.Layout

/-! # Gaps between items
What stands between the items of a source is told here without reading it: a **gap** is made of
blanks and comments, each comment up to the end of its line, and bytes are **bare** where no gap can
go on. `split_eq_iff` says that taking the layout off a source is the only way to cut it into a gap
and bare bytes. -/

namespace LoxSyntax

/-! ## (1) Runs -/

/-- A run of bytes of a class **stops** before some bytes: there are none, or the first is not of
the class. -/
def Stops (p : UInt8 → Bool) (rest : List UInt8) : Prop := ∀ b ∈ rest.head?, p b = false

/-- **The longest run** of a class is the only one that stops. -/
theorem takeWhile_eq_iff (p : UInt8 → Bool) (source : List UInt8) {run rest : List UInt8} :
    source.takeWhile p = run ∧ source.dropWhile p = rest ↔
      source = run ++ rest ∧ (∀ b ∈ run, p b = true) ∧ Stops p rest := by
  constructor
  · rintro ⟨rfl, rfl⟩
    refine ⟨List.takeWhile_append_dropWhile.symm, List.all_eq_true.mp List.all_takeWhile, ?_⟩
    intro b first
    have stops := List.head?_dropWhile_not p source
    rw [Option.mem_def.mp first] at stops
    simpa using stops
  · rintro ⟨rfl, all, stops⟩
    rw [List.takeWhile_append_of_pos all, List.dropWhile_append_of_pos all]
    cases rest with
    | nil => simp
    | cons b rest =>
        have other := stops b rfl
        simp [other]

/-- Bytes of a class without the newline hold none. -/
theorem count_newline_of_forall {p : UInt8 → Bool} {bytes : List UInt8}
    (all : ∀ b ∈ bytes, p b = true) (other : p Byte.newline = false) :
    bytes.count Byte.newline = 0 := by
  rw [List.count_eq_zero]
  intro member
  rw [all _ member] at other
  cases other

/-! ## (2) Gaps -/

/-- **A gap** before some bytes. -/
inductive IsGap (rest : List UInt8) : List UInt8 → Prop where
  /-- No byte at all. -/
  | nil : IsGap rest []
  /-- A space, a tab or a newline, and a gap. -/
  | blank {b : UInt8} {gap : List UInt8}
    (blank : b = Byte.space ∨ b = Byte.tab ∨ b = Byte.newline) (more : IsGap rest gap) :
    IsGap rest (b :: gap)
  /-- A comment up to just before a newline or up to the end of the source, and a gap. -/
  | comment {text gap : List UInt8} (line : Byte.newline ∉ text)
    (ends : ∀ b ∈ (gap ++ rest).head?, b = Byte.newline) (more : IsGap rest gap) :
    IsGap rest (Byte.slash :: Byte.slash :: (text ++ gap))

/-- **Bare bytes**: they start with neither a blank nor a comment. -/
structure IsBare (source : List UInt8) : Prop where
  /-- The first byte is no space, no tab and no newline. -/
  blank : ∀ b ∈ source.head?, b ≠ Byte.space ∧ b ≠ Byte.tab ∧ b ≠ Byte.newline
  /-- The first two bytes are not both slashes. -/
  comment : ¬ [Byte.slash, Byte.slash] <+: source

/-- The first of some bare bytes are bare. -/
theorem IsBare.of_append {bytes more : List UInt8} (bare : IsBare (bytes ++ more)) :
    IsBare bytes where
  blank b first := by
    obtain ⟨rest, rfl⟩ := List.head?_eq_some_iff.mp first
    exact bare.blank b rfl
  comment starts := bare.comment (starts.trans (List.prefix_append bytes more))

/-- A gap depends on the first byte after it only, and on none at the end. -/
theorem IsGap.of_head? {gap rest rest' : List UInt8} (isGap : IsGap rest gap)
    (same : ∀ b ∈ rest'.head?, b ∈ rest.head?) : IsGap rest' gap := by
  induction isGap with
  | nil => exact .nil
  | blank blank more ih => exact .blank blank ih
  | @comment text gap line ends more ih =>
      refine .comment line ?_ ih
      cases gap with
      | nil => exact fun b first => ends b (same b first)
      | cons c gap => exact ends

namespace Layout

/-! ## (3) The layout at the head -/

/-- Whether a piece may end before some bytes: a comment has no newline inside and one after it. -/
def EndsBefore (rest : List UInt8) : Layout → Prop
  | comment text => Byte.newline ∉ text ∧ ∀ b ∈ rest.head?, b = Byte.newline
  | _ => True

/-- A comment at the head takes the longest run of bytes that are no newline. -/
theorem first?_comment {source text rest : List UInt8} :
    first? (Byte.slash :: Byte.slash :: source) = some (comment text, rest) ↔
      source = text ++ rest ∧ (comment text).EndsBefore rest := by
  have runs : first? (Byte.slash :: Byte.slash :: source) =
      some (comment (source.takeWhile runsOn), source.dropWhile runsOn) := rfl
  have line : (∀ b ∈ text, runsOn b = true) ↔ Byte.newline ∉ text := by
    simp only [runsOn, bne_iff_ne]
    exact List.forall_mem_ne'
  have ends : Stops runsOn rest ↔ ∀ b ∈ rest.head?, b = Byte.newline := by
    simp [Stops, runsOn]
  rw [runs, Option.some.injEq, Prod.mk.injEq, comment.injEq, takeWhile_eq_iff, line,
    ends]
  rfl

/-- **The piece at the head** is the one that the bytes start with. -/
theorem first?_eq_some_iff {source rest : List UInt8} {piece : Layout} :
    first? source = some (piece, rest) ↔ source = piece.bytes ++ rest ∧ piece.EndsBefore rest := by
  constructor
  · intro found
    have split := (bytes_first? found).symm
    refine ⟨split, ?_⟩
    cases piece with
    | comment text =>
        rw [split] at found
        exact (first?_comment.mp found).2
    | _ => trivial
  · rintro ⟨rfl, ends⟩
    cases piece with
    | comment text => exact first?_comment.mpr ⟨rfl, ends⟩
    | _ => rfl

/-- Bytes are bare where no piece is at the head. -/
theorem isBare_iff {source : List UInt8} : IsBare source ↔ first? source = none := by
  constructor
  · intro bare
    rw [Option.eq_none_iff_forall_ne_some]
    rintro ⟨piece, rest⟩ found
    have split := (first?_eq_some_iff.mp found).1
    cases piece with
    | comment text => exact bare.comment ⟨text ++ rest, split.symm⟩
    | space => exact (bare.blank Byte.space (by rw [split]; rfl)).1 rfl
    | tab => exact (bare.blank Byte.tab (by rw [split]; rfl)).2.1 rfl
    | newline => exact (bare.blank Byte.newline (by rw [split]; rfl)).2.2 rfl
  · intro none
    constructor
    · intro b first
      obtain ⟨rest, rfl⟩ := List.head?_eq_some_iff.mp first
      refine ⟨?_, ?_, ?_⟩
      all_goals
        rintro rfl
        cases none
    · rintro ⟨rest, rfl⟩
      cases none

/-- A piece at the head and a gap after it are a gap. -/
theorem isGap_append {piece : Layout} {gap rest : List UInt8}
    (ends : piece.EndsBefore (gap ++ rest)) (more : IsGap rest gap) :
    IsGap rest (piece.bytes ++ gap) := by
  cases piece with
  | space => exact .blank (.inl rfl) more
  | tab => exact .blank (.inr (.inl rfl)) more
  | newline => exact .blank (.inr (.inr rfl)) more
  | comment text => exact .comment ends.1 ends.2 more

/-- The layout at the head is a gap before the bytes after it. -/
theorem isGap_split (source : List UInt8) :
    IsGap (split source).2 ((split source).1.flatMap bytes) := by
  induction h : source.length using Nat.strongRecOn generalizing source with
  | ind n ih =>
    cases found : first? source with
    | none =>
        rw [split_of_none found]
        exact .nil
    | some at_head =>
        obtain ⟨piece, rest⟩ := at_head
        have more := ih _ (h ▸ length_first? found) rest rfl
        rw [split_of_some found, List.flatMap_cons]
        apply isGap_append _ more
        rw [bytes_split]
        exact (first?_eq_some_iff.mp found).2

/-- A gap before bare bytes is taken off them. -/
theorem split_of_isGap {gap rest : List UInt8} (isGap : IsGap rest gap) (bare : IsBare rest) :
    (split (gap ++ rest)).2 = rest := by
  have taken : ∀ (piece : Layout) {gap : List UInt8}, piece.EndsBefore (gap ++ rest) →
      (split (gap ++ rest)).2 = rest → (split (piece.bytes ++ gap ++ rest)).2 = rest := by
    intro piece gap ends same
    have found := first?_eq_some_iff.mpr ⟨List.append_assoc piece.bytes gap rest, ends⟩
    rw [split_of_some found]
    exact same
  induction isGap with
  | nil => rw [List.nil_append, split_of_none (isBare_iff.mp bare)]
  | @blank b gap blank more ih =>
      rcases blank with rfl | rfl | rfl
      · exact taken space trivial ih
      · exact taken tab trivial ih
      · exact taken newline trivial ih
  | @comment text gap line ends more ih =>
      exact taken (comment text) ⟨line, ends⟩ ih

/-- The layout taken off a gap before bare bytes is that gap. -/
theorem bytes_split_of_isGap {gap rest : List UInt8} (isGap : IsGap rest gap)
    (bare : IsBare rest) : (split (gap ++ rest)).1.flatMap bytes = gap := by
  have whole := bytes_split (gap ++ rest)
  rw [split_of_isGap isGap bare] at whole
  exact List.append_cancel_right whole

/-- **A source is cut in one way** into a gap and bare bytes. -/
theorem split_eq_iff {gap rest : List UInt8} :
    (split (gap ++ rest)).2 = rest ↔ IsGap rest gap ∧ IsBare rest := by
  constructor
  · intro same
    have whole := bytes_split (gap ++ rest)
    have bare := isBare_iff.mpr (first?_split (gap ++ rest))
    have isGap := isGap_split (gap ++ rest)
    rw [same] at whole bare isGap
    rw [List.append_cancel_right whole] at isGap
    exact ⟨isGap, bare⟩
  · rintro ⟨isGap, bare⟩
    exact split_of_isGap isGap bare

end Layout

end LoxSyntax
