import LoxSyntax.Proofs.Lexical.Scan

/-! # Items tile their source
The spans of the items of a scan cover a source without overlap: what they leave out are gaps, and
spans and gaps in turn give the source back. `Tiling` says so of the spans from an offset on, and
the grammar keeps it item by item. -/

namespace LoxSyntax

/-! ## (1) Tilings -/

/-- The place of an item. -/
def Item.span? : Item → Option Span
  | token t => some t.span
  | fault d => d.span?

/-- Each span with the offset where the one before it ended. -/
def seams : Nat → List Span → List (Nat × Span)
  | _, [] => []
  | offset, span :: spans => (offset, span) :: seams span.stop spans

/-- **A tiling** of a source from an offset on: some spans, and the empty one at the end. -/
structure Tiling (source : List UInt8) (offset : Nat) (spans : List Span) (last : Span) :
    Prop where
  /-- Every span but the last has a byte of the source. -/
  inside : ∀ span ∈ spans, span.start < span.stop ∧ span.stop ≤ source.length
  /-- The last one is empty, at the end of the source. -/
  ended : last.start = source.length ∧ last.stop = source.length
  /-- No span starts before the one before it ended. -/
  ordered : ∀ seam ∈ seams offset (spans ++ [last]), seam.1 ≤ seam.2.start
  /-- What stands between spans is a gap. -/
  gaps : ∀ seam ∈ seams offset (spans ++ [last]),
    IsGap (source.drop seam.2.start) (source.extract seam.1 seam.2.start)
  /-- The gaps and the spans, in turn, are the bytes from the offset on. -/
  rebuilt : (seams offset (spans ++ [last])).flatMap (fun seam =>
    source.extract seam.1 seam.2.start ++ source.extract seam.2.start seam.2.stop) =
      source.drop offset

/-- A gap and some bytes after others, cut out of the source by the place of the bytes. -/
theorem cut_after {source before gap bytes rest : List UInt8}
    (split : source = before ++ (gap ++ (bytes ++ rest))) :
    let place := Span.after (before ++ gap) bytes
    before.length ≤ place.start ∧ source.extract before.length place.start = gap ∧
      source.drop place.start = bytes ++ rest ∧
      source.extract place.start place.stop = bytes := by
  intro place
  have regroup : source = before ++ gap ++ (bytes ++ rest) := by
    rw [split, List.append_assoc]
  have start : place.start = (Span.after before gap).stop := List.length_append
  refine ⟨?_, ?_, ?_, ?_⟩
  · rw [start]
    exact Nat.le_add_right _ _
  · rw [start, split]
    exact Span.extract_after before gap (bytes ++ rest)
  · rw [regroup]
    exact List.drop_left
  · rw [regroup]
    exact Span.extract_after (before ++ gap) bytes rest

/-- A gap up to the end of the source, and the last span. -/
theorem tiling_ended {before gap : List UInt8} (isGap : IsGap [] gap) :
    Tiling (before ++ gap) before.length [] (.after (before ++ gap) []) := by
  have split : before ++ gap = before ++ (gap ++ ([] ++ [])) := by
    rw [List.append_nil, List.append_nil]
  obtain ⟨le, isCut, drop, empty⟩ := cut_after split
  refine ⟨by simp, ⟨rfl, rfl⟩, ?_, ?_, ?_⟩
  · intro seam member
    cases List.mem_singleton.mp member
    exact le
  · intro seam member
    cases List.mem_singleton.mp member
    rw [isCut, drop]
    exact isGap
  · rw [List.nil_append, seams, seams, List.flatMap_singleton, isCut, empty, List.append_nil,
      List.drop_left]

/-- A gap and a span in front of a tiling. -/
theorem Tiling.cons {before gap bytes rest : List UInt8} {spans : List Span} {last : Span}
    (isGap : IsGap (bytes ++ rest) gap) (written : bytes ≠ [])
    (tiling : Tiling (before ++ (gap ++ (bytes ++ rest))) (before ++ gap ++ bytes).length spans
      last) :
    Tiling (before ++ (gap ++ (bytes ++ rest))) before.length
      (.after (before ++ gap) bytes :: spans) last := by
  obtain ⟨le, isCut, drop, whole⟩ := cut_after (Eq.refl (before ++ (gap ++ (bytes ++ rest))))
  have stop : (Span.after (before ++ gap) bytes).stop = (before ++ gap ++ bytes).length :=
    List.length_append.symm
  rw [← stop] at tiling
  refine ⟨?_, tiling.ended, ?_, ?_, ?_⟩
  · refine List.forall_mem_cons.mpr ⟨⟨?_, ?_⟩, tiling.inside⟩
    · exact Nat.lt_add_of_pos_right (List.length_pos_iff.mpr written)
    · rw [stop]
      simp only [List.length_append]
      omega
  · exact List.forall_mem_cons.mpr ⟨le, tiling.ordered⟩
  · refine List.forall_mem_cons.mpr ⟨?_, tiling.gaps⟩
    rw [isCut, drop]
    exact isGap
  · have left : (before ++ (gap ++ (bytes ++ rest))).drop (Span.after (before ++ gap) bytes).stop =
        rest := by
      rw [stop, ← List.append_assoc, ← List.append_assoc, List.drop_left]
    rw [List.cons_append, seams, List.flatMap_cons, tiling.rebuilt, isCut, whole, left,
      List.drop_left, List.append_assoc]

/-! ## (2) Items -/

/-- An item of the grammar is written with at least one byte. -/
theorem Lexes.bytes_ne_nil {span : Span} {bytes rest : List UInt8} {item : Item}
    (lexes : Lexes span bytes rest item) : bytes ≠ [] := by
  obtain ⟨b, bs, lexeme, split, found, -⟩ := Lexeme.read_of_lexes lexes
  have shorter := Lexeme.length_read b bs
  rw [found] at shorter
  rintro rfl
  rw [List.nil_append] at split
  rw [split] at shorter
  exact absurd shorter (Nat.not_succ_le_self _)

/-- A source has at most one item for each byte, and the end of input. -/
theorem Scans.length_le {before rest : List UInt8} {items : List Item}
    (scans : Scans before rest items) : items.length ≤ rest.length + 1 := by
  induction scans with
  | ended isGap => exact Nat.le_add_left 1 _
  | item isGap bare lexes more ih =>
      have written := List.length_pos_iff.mpr lexes.bytes_ne_nil
      rw [List.length_cons, List.length_append, List.length_append]
      omega

/-- An item of the grammar stands where it is written. -/
theorem Lexes.span?_eq {span : Span} {bytes rest : List UInt8} {item : Item}
    (lexes : Lexes span bytes rest item) : item.span? = some span := by
  cases lexes <;> rfl

/-- No item of the grammar is the end of input. -/
theorem Lexes.kind_ne_endOfInput {span : Span} {bytes rest : List UInt8} {t : Token}
    (lexes : Lexes span bytes rest (.token t)) : t.kind ≠ .endOfInput := by
  intro same
  have text : t.kind.text? = some "" := by rw [same]; rfl
  obtain ⟨-, written, -⟩ := lexes.text text
  exact lexes.bytes_ne_nil written.symm

/-- **The items of a source tile it.** -/
theorem Scans.tiling {before rest : List UInt8} {items : List Item}
    (scans : Scans before rest items) :
    ∃ others spans last, items = others ++ [.token (.endOfInput last)] ∧
      (∀ t, .token t ∈ others → t.kind ≠ .endOfInput) ∧
      others.map Item.span? = spans.map some ∧
      Tiling (before ++ rest) before.length spans last := by
  induction scans with
  | ended isGap => exact ⟨[], [], _, rfl, by simp, rfl, tiling_ended isGap⟩
  | @item before gap bytes rest item items isGap bare lexes more ih =>
      obtain ⟨others, spans, last, rfl, kinds, places, tiling⟩ := ih
      refine ⟨item :: others, .after (before ++ gap) bytes :: spans, last, rfl, ?_, ?_, ?_⟩
      · intro t member
        rcases List.mem_cons.mp member with rfl | later
        · exact lexes.kind_ne_endOfInput
        · exact kinds t later
      · rw [List.map_cons, List.map_cons, lexes.span?_eq, places]
      · rw [List.append_assoc, List.append_assoc] at tiling
        exact tiling.cons isGap lexes.bytes_ne_nil

/-- **No byte is lost or read twice.** The items of a scan are those before the end of input, which
comes last and once. Each has a place, the places tile the source, and so the gaps and the items, in
turn, give it back. -/
theorem scan_tiling (source : List UInt8) :
    ∃ items spans last, scan source = items ++ [.token (.endOfInput last)] ∧
      (∀ t, .token t ∈ items → t.kind ≠ .endOfInput) ∧
      items.map Item.span? = spans.map some ∧ Tiling source 0 spans last :=
  (scans_scan source).tiling

end LoxSyntax
