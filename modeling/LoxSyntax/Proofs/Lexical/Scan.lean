import LoxSyntax.Lexical.Cursor
import LoxSyntax.Proofs.Lexical.Grammar

/-! # The items of a source
A source is a row of items with gaps between them, and a gap before the end of input. `Scans` says
which rows of items a source has, by the grammar alone; `scan_eq_iff` says that it has one, the one
that a cursor gives. -/

namespace LoxSyntax

/-! ## (1) Rows of items -/

/-- **The place** of some bytes that come after others. -/
def Span.after (before bytes : List UInt8) : Span where
  start := before.length
  stop := before.length + bytes.length
  line := before.count Byte.newline + 1

/-- **The items of some bytes** that come after others: each stands after a gap, where the bytes are
bare, and is an item of the grammar; the last is the end of input. -/
inductive Scans : List UInt8 → List UInt8 → List Item → Prop where
  /-- A gap up to the end, and the end of input. -/
  | ended {before gap : List UInt8} (isGap : IsGap [] gap) :
    Scans before gap [.token (.endOfInput (.after (before ++ gap) []))]
  /-- A gap, an item, and the items after it. -/
  | item {before gap bytes rest : List UInt8} {item : Item} {items : List Item}
    (isGap : IsGap (bytes ++ rest) gap) (bare : IsBare (bytes ++ rest))
    (lexes : Lexes (.after (before ++ gap) bytes) bytes rest item)
    (more : Scans (before ++ gap ++ bytes) rest items) :
    Scans before (gap ++ (bytes ++ rest)) (item :: items)

/-- No bytes at all are bare. -/
theorem isBare_nil : IsBare [] := Layout.isBare_iff.mpr rfl

/-- **Every source is a row of items.** -/
theorem exists_scans (before rest : List UInt8) : ∃ items, Scans before rest items := by
  induction h : rest.length using Nat.strongRecOn generalizing before rest with
  | ind n ih =>
    have isGap := Layout.isGap_split rest
    have bare := Layout.isBare_iff.mpr (Layout.first?_split rest)
    have whole := Layout.bytes_split rest
    generalize (Layout.split rest).1.flatMap Layout.bytes = gap at isGap whole
    cases left : (Layout.split rest).2 with
    | nil =>
        rw [left] at isGap whole
        rw [List.append_nil] at whole
        rw [← whole]
        exact ⟨_, .ended isGap⟩
    | cons b bs =>
        rw [left] at isGap bare whole
        have split := Lexeme.bytes_read b bs
        have shorter := Lexeme.length_read b bs
        have lexes := Lexeme.isLexed_read bare
        rw [← split] at isGap bare whole
        have lt : (Lexeme.read b bs).2.length < n := by
          have length := congrArg List.length whole
          have length' := congrArg List.length split
          simp only [List.length_append, List.length_cons] at length length'
          omega
        obtain ⟨items, more⟩ := ih _ lt (before ++ gap ++ (Lexeme.read b bs).1.bytes) _ rfl
        rw [← whole]
        exact ⟨_, .item isGap bare (lexes _) more⟩

/-! ## (2) Cursors -/

namespace Cursor

/-- **A cursor that has passed some bytes**, and has not given the end of input. -/
structure Passed (c : Cursor) (before : List UInt8) : Prop where
  /-- It counts the bytes. -/
  offset : c.offset = before.length
  /-- It counts the newlines among them, from line one on. -/
  line : c.line = before.count Byte.newline + 1
  /-- The end of input is still to come. -/
  running : c.ended = false

/-- Passing over more bytes. -/
theorem Passed.pass {c : Cursor} {before : List UInt8} (passed : c.Passed before)
    (bytes rest : List UInt8) : (c.pass bytes rest).Passed (before ++ bytes) where
  offset := by rw [Cursor.pass, passed.offset, List.length_append]
  line := by
    rw [Cursor.pass, passed.line, List.count_append, Nat.add_right_comm]
  running := passed.running

/-- The place of the bytes that a cursor passes over next. -/
theorem Passed.place {c : Cursor} {before : List UInt8} (passed : c.Passed before)
    (bytes rest : List UInt8) :
    (⟨c.offset, (c.pass bytes rest).offset, c.line⟩ : Span) = .after before bytes := by
  rw [Cursor.pass, passed.offset, passed.line]
  rfl

/-- After a gap up to the end a cursor gives the end of input, and has passed the gap. -/
theorem next_of_end {c : Cursor} {before : List UInt8} (passed : c.Passed before)
    (isGap : IsGap [] c.rest) :
    c.next.given = some (.token (.endOfInput (.after (before ++ c.rest) []))) ∧
      c.next.after.ended = true ∧
      c.next.after.line = (before ++ c.rest).count Byte.newline + 1 := by
  have left := Layout.split_of_isGap isGap isBare_nil
  have taken := Layout.bytes_split_of_isGap isGap isBare_nil
  rw [List.append_nil] at left taken
  have passed' := passed.pass c.rest []
  unfold next
  rw [if_neg (by simp [passed.running])]
  dsimp only
  rw [left, taken, ← passed'.place [] []]
  exact ⟨rfl, rfl, passed'.line⟩

/-- What a cursor gives after a gap that does not go up to the end. -/
theorem next_of_split {c : Cursor} {gap : List UInt8} {b : UInt8} {bs : List UInt8}
    (running : c.ended = false) (left : (Layout.split c.rest).2 = b :: bs)
    (taken : (Layout.split c.rest).1.flatMap Layout.bytes = gap) :
    let here := c.pass gap (b :: bs)
    let there := here.pass (Lexeme.read b bs).1.bytes (Lexeme.read b bs).2
    c.next.given = some ((Lexeme.read b bs).1.item ⟨here.offset, there.offset, here.line⟩) ∧
      c.next.after = there := by
  unfold next
  rw [if_neg (by simp [running])]
  dsimp only
  rw [left, taken]
  exact ⟨rfl, rfl⟩

/-- After a gap a cursor gives the item that the bare bytes start with, and passes over it. -/
theorem next_of_item {c : Cursor} {before gap bytes rest : List UInt8} {item : Item}
    (passed : c.Passed before) (split : c.rest = gap ++ (bytes ++ rest))
    (isGap : IsGap (bytes ++ rest) gap) (bare : IsBare (bytes ++ rest))
    (lexes : Lexes (.after (before ++ gap) bytes) bytes rest item) :
    c.next.given = some item ∧ c.next.after.Passed (before ++ gap ++ bytes) ∧
      c.next.after.rest = rest := by
  have left := Layout.split_of_isGap isGap bare
  have taken := Layout.bytes_split_of_isGap isGap bare
  rw [← split] at left taken
  have passed' := passed.pass gap (bytes ++ rest)
  have place := passed'.place bytes rest
  cases starts : bytes ++ rest with
  | nil =>
      obtain ⟨b, bs, -, starts', -⟩ := Lexeme.read_of_lexes lexes
      rw [starts] at starts'
      cases starts'
  | cons b bs =>
      rw [starts] at bare left passed' place
      obtain ⟨written, after, same⟩ := (Lexeme.lexes_iff bare starts).mp lexes
      obtain ⟨given, there⟩ := next_of_split passed.running left taken
      rw [written, after] at given there
      rw [place, same] at given
      rw [there]
      exact ⟨given, passed'.pass bytes rest, rfl⟩

/-- **A cursor gives the items of the bytes that are left.** -/
theorem drain_of_scans {before rest : List UInt8} {items : List Item}
    (scans : Scans before rest items) {c : Cursor} (passed : c.Passed before)
    (left : c.rest = rest) : c.drain.1.map (·.2) = items := by
  induction scans generalizing c with
  | ended isGap =>
      subst left
      obtain ⟨given, ended, -⟩ := next_of_end passed isGap
      have last : c.next.after.next.given = none := by
        rw [next, if_pos ended]
      rw [drain_of_some given, drain_of_none last]
      rfl
  | item isGap bare lexes more ih =>
      obtain ⟨given, passed', left'⟩ := next_of_item passed left isGap bare lexes
      rw [drain_of_some given, List.map_cons, ih passed' left']

end Cursor

/-! ## (3) Scans -/

/-- A cursor at the start has passed nothing. -/
theorem Cursor.passed_start (source : List UInt8) : (Cursor.start source).Passed [] :=
  ⟨rfl, rfl, rfl⟩

/-- A token of a kind whose tokens have the same text is written with that text. -/
theorem Lexes.text {span : Span} {bytes rest : List UInt8} {t : Token} {text : String}
    (lexes : Lexes span bytes rest (.token t)) (same : t.kind.text? = some text) :
    t.lexeme = text ∧ Utf8.encode text = bytes ∧ t.span = span := by
  have fixed : ∀ {k : Kind}, (Token.fixed k span).kind.text? = some text → k.text = text := by
    intro k same
    exact congrArg (Option.getD · "") same
  cases lexes with
  | mark listed => exact ⟨fixed same, by rw [← fixed same], rfl⟩
  | joined listed => exact ⟨fixed same, by rw [← fixed same], rfl⟩
  | alone listed alone => exact ⟨fixed same, by rw [← fixed same], rfl⟩
  | slash alone => exact ⟨fixed same, by rw [← fixed same]; rfl, rfl⟩
  | reserved starts runs stops listed text => exact ⟨fixed same, by rw [← text, ← fixed same], rfl⟩
  | number digit runs stops => cases same
  | identifier starts runs stops other => cases same
  | string inside => cases same

/-- The bytes at a place are those that it is the place of. -/
theorem Span.extract_after (before bytes rest : List UInt8) :
    (before ++ (bytes ++ rest)).extract (Span.after before bytes).start
      (Span.after before bytes).stop = bytes := by
  simp [Span.after, List.extract_eq_take_drop]

/-- A place stops where the bytes up to it end. -/
theorem Span.stop_after (before bytes : List UInt8) :
    (Span.after before bytes).stop = (before ++ bytes).length :=
  List.length_append.symm

/-- Tokens whose text is fixed are written with it where they stand. -/
theorem Scans.text {before rest : List UInt8} {items : List Item} (scans : Scans before rest items)
    {t : Token} {text : String} (member : .token t ∈ items) (same : t.kind.text? = some text) :
    t.lexeme = text ∧ Utf8.encode text = (before ++ rest).extract t.span.start t.span.stop := by
  induction scans with
  | @ended before gap isGap =>
      cases List.mem_singleton.mp member
      cases same
      refine ⟨rfl, ?_⟩
      have nothing := Span.extract_after (before ++ gap) [] []
      rw [List.append_nil, List.append_nil] at nothing
      exact nothing.symm
  | @item before gap bytes rest item items isGap bare lexes more ih =>
      rcases List.mem_cons.mp member with rfl | later
      · obtain ⟨lexeme, written, place⟩ := lexes.text same
        refine ⟨lexeme, ?_⟩
        rw [written, place, ← List.append_assoc before gap, Span.extract_after]
      · obtain ⟨lexeme, written⟩ := ih later
        rw [List.append_assoc, List.append_assoc] at written
        exact ⟨lexeme, written⟩

/-- **Every item but the end of input stands amid the bytes**: after some of them, on its own, and
before those of the later items. -/
theorem Scans.exists_split {before rest : List UInt8} {items : List Item}
    (scans : Scans before rest items) {first later : List Item} {item : Item}
    (split : items = first ++ item :: later) :
    (item = .token (.endOfInput (.after (before ++ rest) [])) ∧ later = []) ∨
      ∃ front bytes back, rest = front ++ (bytes ++ back) ∧ IsBare (bytes ++ back) ∧
        Lexes (.after (before ++ front) bytes) bytes back item ∧
        Scans (before ++ front ++ bytes) back later := by
  induction scans generalizing first with
  | ended isGap =>
      cases first with
      | nil =>
          cases split
          exact .inl ⟨rfl, rfl⟩
      | cons other first => simp at split
  | @item before gap bytes rest other items isGap bare lexes more ih =>
      cases first with
      | nil =>
          cases split
          exact .inr ⟨gap, bytes, rest, rfl, bare, lexes, more⟩
      | cons other first =>
          have regroup : ∀ front,
              before ++ gap ++ bytes ++ front = before ++ (gap ++ (bytes ++ front)) := by
            intro front
            rw [List.append_assoc, List.append_assoc]
          rcases ih (List.cons.inj split).2 with
            last | ⟨front, bytes', back, rfl, bare', lexes', more'⟩
          · rw [regroup] at last
            exact .inl last
          · rw [regroup] at lexes' more'
            exact .inr ⟨gap ++ (bytes ++ front), bytes', back, by simp, bare', lexes', more'⟩

/-- **Every item is the end of input or one of the grammar**, amid the bytes. -/
theorem Scans.exists_amid {before rest : List UInt8} {items : List Item}
    (scans : Scans before rest items) {item : Item} (member : item ∈ items) :
    item = .token (.endOfInput (.after (before ++ rest) [])) ∨
      ∃ front bytes back, rest = front ++ (bytes ++ back) ∧ IsBare (bytes ++ back) ∧
        Lexes (.after (before ++ front) bytes) bytes back item := by
  obtain ⟨first, later, split⟩ := List.append_of_mem member
  rcases scans.exists_split split with ⟨last, -⟩ | ⟨front, bytes, back, whole, bare, lexes, -⟩
  · exact .inl last
  · exact .inr ⟨front, bytes, back, whole, bare, lexes⟩

/-- Every item is the end of input, or one of the grammar that bare bytes start with. -/
theorem Scans.exists_lexes {before rest : List UInt8} {items : List Item}
    (scans : Scans before rest items) {item : Item} (member : item ∈ items) :
    (∃ span, item = .token (.endOfInput span)) ∨
      ∃ span bytes more, IsBare (bytes ++ more) ∧ Lexes span bytes more item := by
  rcases scans.exists_amid member with last | ⟨front, bytes, back, -, bare, lexes⟩
  · exact .inl ⟨_, last⟩
  · exact .inr ⟨_, bytes, back, bare, lexes⟩

/-- A row of items that a source has is what a scan gives. -/
theorem scan_of_scans {source : List UInt8} {items : List Item} (scans : Scans [] source items) :
    scan source = items :=
  Cursor.drain_of_scans scans (Cursor.passed_start source) rfl

/-- What a scan gives is a row of items that the source has. -/
theorem scans_scan (source : List UInt8) : Scans [] source (scan source) := by
  obtain ⟨items, scans⟩ := exists_scans [] source
  rw [scan_of_scans scans]
  exact scans

/-- **A source is scanned by the grammar of its items.** The items that a scan gives are the only
ones of which the source is a row, by the longest gaps and the longest items; and tokens whose text
is fixed by their kind carry it, and are written with it. -/
theorem scan_eq_iff (source : List UInt8) :
    (∀ items, scan source = items ↔ Scans [] source items) ∧
      ∀ t text, .token t ∈ scan source → t.kind.text? = some text →
        t.lexeme = text ∧ Utf8.encode text = source.extract t.span.start t.span.stop := by
  refine ⟨fun items => ⟨?_, scan_of_scans⟩, ?_⟩
  · rintro rfl
    exact scans_scan source
  · intro t text member fixed
    exact (scans_scan source).text member fixed

/-- The items of `<=`: an equals sign joins the operator before it, and the token carries both. -/
theorem scan_eq_iff_lessEqual :
    scan [0x3C, 0x3D] =
      [.token (.fixed .lessEqual ⟨0, 2, 1⟩), .token (.endOfInput ⟨2, 2, 1⟩)] ∧
      (Token.fixed .lessEqual ⟨0, 2, 1⟩).lexeme = "<=" ∧
        Utf8.encode "<=" = [0x3C, 0x3D].extract 0 2 := by
  obtain ⟨scans_iff, carries⟩ := scan_eq_iff [0x3C, 0x3D]
  have bare : IsBare ([0x3C, 0x3D] ++ []) := Layout.isBare_iff.mpr (by decide)
  have lexes : Lexes ⟨0, 2, 1⟩ [0x3C, 0x3D] [] (.token (.fixed .lessEqual ⟨0, 2, 1⟩)) := by
    have written : Utf8.encode Kind.lessEqual.text = [0x3C, 0x3D] := by decide +kernel
    have listed : (Kind.less, Kind.lessEqual) ∈ Kind.doublables := by decide
    rw [← written]
    exact .joined listed
  have scanned := (scans_iff _).mpr (.item .nil bare lexes (.ended .nil))
  refine ⟨scanned, carries (.fixed .lessEqual ⟨0, 2, 1⟩) "<=" ?_ rfl⟩
  rw [scanned]
  exact List.mem_cons_self

end LoxSyntax
