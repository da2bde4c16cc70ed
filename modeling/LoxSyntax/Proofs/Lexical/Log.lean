import LoxSyntax.Proofs.Lexical.Positions

/-! # The log of a scan
Which bytes of a source a scan logs is told here by their offsets alone. In the gap before an item
these are the blanks that are not inside a comment, and the first slash of every comment; then comes
the first byte of the item, if it has one. A fault is logged once more, by its report. Nothing else
is logged: not the rest of an item, and not the text of a comment.

1. *Offsets* that are traced.
2. *Pieces of layout*: of each the first byte is traced, and no other.
3. *Scans*: the log of one item, and of all. -/

namespace LoxSyntax

/-! ## (1) Offsets -/

/-- A blank stands at an offset. -/
def BlankAt (source : List UInt8) (p : Nat) : Prop :=
  source[p]? = some Byte.space ∨ source[p]? = some Byte.tab ∨ source[p]? = some Byte.newline

/-- Two slashes stand at an offset. -/
def SlashesAt (source : List UInt8) (p : Nat) : Prop :=
  source[p]? = some Byte.slash ∧ source[p + 1]? = some Byte.slash

/-- **An offset inside a comment**: two slashes stand before it in the gap that begins at `gap`, and
no newline from them on up to the offset. -/
def InComment (source : List UInt8) (gap p : Nat) : Prop :=
  ∃ s < p, gap ≤ s ∧ SlashesAt source s ∧ ∀ i ≤ p, s ≤ i → source[i]? ≠ some Byte.newline

/-- **An offset that is traced** in the gap that begins at `gap`: a blank or the first slash of a
comment, not inside a comment. -/
def IsTraced (source : List UInt8) (gap p : Nat) : Prop :=
  (BlankAt source p ∨ SlashesAt source p) ∧ ¬ InComment source gap p

section

variable (source : List UInt8) (gap p : Nat)

instance : Decidable (BlankAt source p) :=
  inferInstanceAs (Decidable (_ ∨ _ ∨ _))

instance : Decidable (SlashesAt source p) :=
  inferInstanceAs (Decidable (_ ∧ _))

instance : Decidable (InComment source gap p) :=
  inferInstanceAs (Decidable (∃ s < p, gap ≤ s ∧ SlashesAt source s ∧
    ∀ i ≤ p, s ≤ i → source[i]? ≠ some Byte.newline))

instance : Decidable (IsTraced source gap p) :=
  inferInstanceAs (Decidable (_ ∧ ¬ _))

/-- **The trace of an offset**: the byte that stands there, and the line, one more than the number
of newlines before it. -/
def traceAt : Record :=
  .dispatch (1 + (source.take p).count Byte.newline) (source.getD p 0)

/-- **The traces of a gap**, in the order of the offsets. -/
def gapTraces (stop : Nat) : List Record :=
  ((List.range' gap (stop - gap)).filter fun p => decide (IsTraced source gap p)).map
    (traceAt source)

end

/-- A byte stands at an offset that is traced. -/
theorem IsTraced.lt {source : List UInt8} {gap p : Nat} (traced : IsTraced source gap p) :
    p < source.length := by
  obtain ⟨(space | tab | newline) | slashes, -⟩ := traced
  · exact (List.getElem?_eq_some_iff.mp space).1
  · exact (List.getElem?_eq_some_iff.mp tab).1
  · exact (List.getElem?_eq_some_iff.mp newline).1
  · exact (List.getElem?_eq_some_iff.mp slashes.1).1

/-- The trace of an offset names the byte that stands there. -/
theorem traceAt_eq_dispatch {source : List UInt8} {p : Nat} {b : UInt8}
    (byte : source[p]? = some b) :
    traceAt source p = .dispatch (1 + (source.take p).count Byte.newline) b := by
  rw [traceAt, List.getD_eq_getElem?_getD, byte]
  rfl

/-! ## (2) Pieces of layout -/

section Piece

variable {source rest : List UInt8} {piece : Layout} {q : Nat}

/-- The bytes from an offset on, by their offsets. -/
theorem getElem?_of_drop {bytes : List UInt8} (left : source.drop q = bytes) (i : Nat) :
    source[q + i]? = bytes[i]? := by
  rw [← left, List.getElem?_drop]

variable (left : source.drop q = piece.bytes ++ rest)

include left

/-- A piece starts with its first byte. -/
theorem getElem?_lead : source[q]? = some piece.lead := by
  obtain ⟨more, bytes⟩ := piece.bytes_eq_cons
  rw [← Nat.add_zero q, getElem?_of_drop left, bytes]
  rfl

/-- Two slashes within a piece make it a comment. -/
theorem exists_comment {s : Nat} (slashes : SlashesAt source s) (from_start : q ≤ s)
    (within : s < q + piece.bytes.length) : ∃ text, piece = .comment text := by
  have lead := getElem?_lead left
  cases piece with
  | comment text => exact ⟨text, rfl⟩
  | _ =>
      obtain rfl : s = q := Nat.le_antisymm (Nat.le_of_lt_succ within) from_start
      rw [slashes.1] at lead
      cases lead

/-- The first byte of a piece is traced. -/
theorem isTraced_lead : IsTraced source q q := by
  have lead := getElem?_lead left
  constructor
  · cases piece with
    | space => exact .inl (.inl lead)
    | tab => exact .inl (.inr (.inl lead))
    | newline => exact .inl (.inr (.inr lead))
    | comment text => exact .inr ⟨lead, getElem?_of_drop left 1⟩
  · rintro ⟨s, before, after, -⟩
    omega

variable (ends : piece.EndsBefore rest)

include ends

/-- No other byte of a piece is traced: only a comment has more, and they are inside it. -/
theorem not_isTraced_inside {p : Nat} (after : q < p) (within : p < q + piece.bytes.length) :
    ¬ IsTraced source q p := by
  cases piece with
  | comment text =>
      rintro ⟨-, outside⟩
      refine outside ⟨q, after, Nat.le_refl q,
        ⟨getElem?_of_drop left 0, getElem?_of_drop left 1⟩, fun i upTo from_start newline => ?_⟩
      obtain ⟨j, rfl⟩ := Nat.exists_eq_add_of_le from_start
      rw [getElem?_of_drop left, List.getElem?_append_left (by omega)] at newline
      have member := List.mem_of_getElem? newline
      simp only [Layout.bytes, List.mem_cons] at member
      rcases member with slash | slash | inside
      · cases slash
      · cases slash
      · exact ends.1 inside
  | _ => exact absurd within (Nat.not_lt.mpr after)

/-- After a piece the gap may as well begin there: a comment before it has ended. -/
theorem isTraced_iff_after {p : Nat} (after : q + piece.bytes.length ≤ p) :
    IsTraced source q p ↔ IsTraced source (q + piece.bytes.length) p := by
  constructor
  · rintro ⟨standing, outside⟩
    refine ⟨standing, fun ⟨s, before, later, slashes, line⟩ => ?_⟩
    exact outside ⟨s, before, Nat.le_trans (Nat.le_add_right ..) later, slashes, line⟩
  · intro traced
    refine ⟨traced.1, fun ⟨s, before, later, slashes, line⟩ => ?_⟩
    by_cases within : s < q + piece.bytes.length
    · obtain ⟨text, rfl⟩ := exists_comment left slashes later within
      -- What comes after a comment is a newline, and `p` is not before it.
      have byte := getElem?_of_drop left (Layout.comment text).bytes.length
      rw [List.getElem?_append_right (Nat.le_refl _), Nat.sub_self,
        ← List.head?_eq_getElem?] at byte
      have lt := Nat.lt_of_le_of_lt after traced.lt
      rw [List.getElem?_eq_getElem lt] at byte
      have newline := ends.2 _ byte.symm
      refine line _ after (Nat.le_of_lt within) ?_
      rw [List.getElem?_eq_getElem lt, newline]
    · exact traced.2 ⟨s, before, Nat.not_lt.mp within, slashes, line⟩

/-- **The traces of a gap that begins with a piece** are that of its first byte, and those of the
gap after it. -/
theorem gapTraces_of_piece {stop : Nat} (after : q + piece.bytes.length ≤ stop) :
    gapTraces source q stop =
      traceAt source q :: gapTraces source (q + piece.bytes.length) stop := by
  obtain ⟨more, size⟩ : ∃ more, piece.bytes.length = more + 1 := by
    obtain ⟨more, bytes⟩ := piece.bytes_eq_cons
    exact ⟨more.length, by rw [bytes, List.length_cons]⟩
  have parts : List.range' q (stop - q) = q :: (List.range' (q + 1) more ++
      List.range' (q + piece.bytes.length) (stop - (q + piece.bytes.length))) := by
    rw [show stop - q = more + (stop - (q + piece.bytes.length)) + 1 by omega, List.range'_succ,
      ← List.range'_append_1, size, Nat.add_assoc q 1 more, Nat.add_comm 1 more]
  have inside : (List.range' (q + 1) more).filter
      (fun p => decide (IsTraced source q p)) = [] := by
    rw [List.filter_eq_nil_iff]
    intro p member
    obtain ⟨low, high⟩ := List.mem_range'_1.mp member
    rw [decide_eq_true_iff]
    exact not_isTraced_inside left ends low (by omega)
  rw [gapTraces, parts, List.filter_cons, if_pos (decide_eq_true (isTraced_lead left)),
    List.filter_append, inside, List.nil_append, List.map_cons, gapTraces]
  congr 2
  refine List.filter_congr fun p member => ?_
  obtain ⟨low, -⟩ := List.mem_range'_1.mp member
  exact decide_eq_decide.mpr (isTraced_iff_after left ends low)

/-- The third slash and the space after it are inside the comment, the newline that ends it is not.
-/
example : gapTraces [0x20, 0x2F, 0x2F, 0x2F, 0x20, 0x0A, 0x09, 0x31] 0 7 =
    [.dispatch 1 0x20, .dispatch 1 0x2F, .dispatch 1 0x0A, .dispatch 2 0x09] := by
  decide

end Piece

/-! ## (3) Scans -/

/-- Whether an item is the end of input. -/
def Item.isEnd : Item → Bool
  | token t => t.kind == .endOfInput
  | fault _ => false

/-- **What is logged for an item** after a gap: the traces of the gap, the trace of its first byte
if it has one, and its report if it is a fault. -/
def itemRecords (source : List UInt8) (gap : Nat) (item : Item) : List Record :=
  match item.span? with
  | none => []
  | some span =>
    gapTraces source gap span.start ++
      (if item.isEnd then [] else [traceAt source span.start]) ++
        match item with
        | .fault d => [.scanError d]
        | .token _ => []

/-- **The records of an item** that has a place are those up to its first byte, and what a cursor
adds about it. -/
theorem itemRecords_of_span {source : List UInt8} {gap : Nat} {item : Item} {span : Span}
    (place : item.span? = some span) :
    itemRecords source gap item = gapTraces source gap span.start ++
      (if item.isEnd then [] else [traceAt source span.start]) ++ Cursor.complaint item := by
  rw [itemRecords.eq_def, place]
  cases item with
  | token t => rfl
  | fault d => rfl

/-- **The log of some items**, each with the records of its own; a gap begins where the item before
it ends. -/
def logFrom (source : List UInt8) : Nat → List Item → List (List Record × Item)
  | _, [] => []
  | gap, item :: items =>
    (itemRecords source gap item, item) ::
      logFrom source (item.span?.elim gap (·.stop)) items

/-- An item of the grammar is not the end of input. -/
theorem Lexes.isEnd_eq {span : Span} {bytes rest : List UInt8} {item : Item}
    (lexes : Lexes span bytes rest item) : item.isEnd = false := by
  cases item with
  | fault d => rfl
  | token t => exact beq_eq_false_iff_ne.mpr lexes.kind_ne_endOfInput

/-- No traces are those of a gap without bytes. -/
theorem gapTraces_self (source : List UInt8) (gap : Nat) : gapTraces source gap gap = [] := by
  rw [gapTraces, Nat.sub_self]
  rfl

namespace Cursor

variable {source before : List UInt8} {c : Cursor}

/-- The trace of the byte before which a cursor stands. -/
theorem Passed.traceAt_eq (passed : c.Passed before) (split : source = before ++ c.rest) {b : UInt8}
    (first : source[c.offset]? = some b) : traceAt source c.offset = .dispatch c.line b := by
  rw [traceAt_eq_dispatch first, passed.line, split, passed.offset, List.take_left, Nat.add_comm]

/-- **What a cursor logs for the next item**: the traces of the gap before it, and the records of
its own. -/
theorem Passed.exists_logged (passed : c.Passed before) (split : source = before ++ c.rest) :
    ∃ item span, c.next.given = some item ∧ item.span? = some span ∧ c.offset ≤ span.start ∧
      c.next.records = itemRecords source c.offset item := by
  induction size : c.rest.length using Nat.strongRecOn generalizing c before with
  | ind n ih =>
    have left : source.drop c.offset = c.rest := by
      rw [passed.offset, split, List.drop_left]
    cases found : Layout.first? c.rest with
    | some at_head =>
        -- A piece of layout is passed over, and the gap may as well begin after it.
        obtain ⟨piece, rest⟩ := at_head
        obtain ⟨bytes, ends⟩ := Layout.first?_eq_some_iff.mp found
        have passed' := passed.pass piece.bytes rest
        have split' : source = before ++ piece.bytes ++ (c.pass piece.bytes rest).rest := by
          rw [split, bytes, ← List.append_assoc]
          rfl
        obtain ⟨item, span, given, place, start, records⟩ :=
          ih _ (size ▸ Layout.length_first? found) passed' split' rfl
        have offset : (c.pass piece.bytes rest).offset = c.offset + piece.bytes.length := rfl
        rw [offset] at start records
        rw [bytes] at left
        have first := passed.traceAt_eq split (getElem?_lead left)
        refine ⟨item, span, ?_, place, by omega, ?_⟩
        · rw [next_of_layout passed.running found]
          exact given
        · rw [next_of_layout passed.running found]
          change Record.dispatch c.line piece.lead :: _ = _
          rw [records, itemRecords_of_span place, itemRecords_of_span place,
            gapTraces_of_piece left ends start, first]
          rfl
    | none =>
        -- Here the gap has ended, and has no more bytes to log.
        cases bytes : c.rest with
        | nil =>
            rw [next_of_nil passed.running bytes]
            refine ⟨_, _, rfl, rfl, Nat.le_refl _, ?_⟩
            change [] = gapTraces source c.offset c.offset ++ [] ++ []
            rw [gapTraces_self]
            rfl
        | cons b bs =>
            rw [bytes] at found left
            have bare := Layout.isBare_iff.mpr found
            rw [next_of_bare passed.running bytes found]
            have byte : source[c.offset]? = some b := getElem?_of_drop left 0
            have lexes := Lexeme.isLexed_read bare
              ⟨c.offset, (c.pass (Lexeme.read b bs).1.bytes (Lexeme.read b bs).2).offset, c.line⟩
            refine ⟨_, _, rfl, lexes.span?_eq, Nat.le_refl _, ?_⟩
            rw [itemRecords_of_span lexes.span?_eq, gapTraces_self, lexes.isEnd_eq,
              if_neg Bool.false_ne_true, passed.traceAt_eq split byte]
            rfl

/-- **What a cursor logs for all items left.** -/
theorem Amid.drain_eq {given left : List Item} (amid : Amid source given left c) :
    c.drain.1 = logFrom source (endOf given) left := by
  induction left generalizing given c with
  | nil => rw [drain_of_none amid.next.1]; rfl
  | cons item left ih =>
      obtain ⟨some, later⟩ := amid.next
      rw [drain_of_some some, ih later]
      cases amid with
      | ended ended line stop none => cases none
      | @running before split passed stop scans =>
        obtain ⟨item', span, given', place, -, records⟩ := passed.exists_logged split
        rw [some] at given'
        cases given'
        rw [records, passed.offset, ← stop, logFrom, place, List.head?_cons, Option.toList_some,
          endOf_concat place]
        rfl

/-- Where nothing is left, nothing is given or logged. -/
theorem Amid.next_of_nil {given : List Item} (amid : Amid source given [] c) :
    c.next = ⟨[], none, c⟩ := by
  cases amid with
  | running split passed stop scans =>
      generalize c.rest = rest at scans
      cases scans
  | ended ended line stop none => rw [Cursor.next, if_pos ended]

end Cursor

/-- Every item of a scan but the end of input has a first byte. -/
theorem start_lt_of_mem_scan {source : List UInt8} {item : Item} {span : Span}
    (member : item ∈ scan source) (place : item.span? = some span) (other : item.isEnd = false) :
    span.start < source.length := by
  rcases (scans_scan source).exists_amid member with rfl | ⟨front, bytes, back, split, -, lexes⟩
  · cases other
  · rw [lexes.span?_eq] at place
    cases place
    have size := List.length_pos_iff.mpr lexes.bytes_ne_nil
    rw [split]
    simp only [Span.after, List.nil_append, List.length_append]
    omega

/-- **What a record of an item is about**: a byte of the source, or the fault that the item is. -/
theorem mem_itemRecords {source : List UInt8} {gap : Nat} {item : Item} {record : Record}
    (member : item ∈ scan source) (logged : record ∈ itemRecords source gap item) :
    (∃ p < source.length, record = traceAt source p) ∨
      ∃ d, item = .fault d ∧ record = .scanError d := by
  cases place : item.span? with
  | none =>
      rw [itemRecords.eq_def, place] at logged
      cases logged
  | some span =>
      rw [itemRecords_of_span place] at logged
      simp only [List.mem_append] at logged
      rcases logged with (traced | own) | complaint
      · obtain ⟨p, inside, rfl⟩ := List.mem_map.mp traced
        have traced := of_decide_eq_true (List.mem_filter.mp inside).2
        exact .inl ⟨p, traced.lt, rfl⟩
      · cases other : item.isEnd with
        | true =>
            rw [other] at own
            cases own
        | false =>
            rw [other] at own
            exact .inl ⟨span.start, start_lt_of_mem_scan member place other,
              List.mem_singleton.mp own⟩
      · cases item with
        | token t => cases complaint
        | fault d => exact .inr ⟨d, rfl, List.mem_singleton.mp complaint⟩

/-- A record in the log of some items is one of an item among them. -/
theorem exists_mem_itemRecords {source : List UInt8} {gap : Nat} {items : List Item}
    {record : Record} (logged : record ∈ (logFrom source gap items).flatMap (·.1)) :
    ∃ item ∈ items, ∃ start, record ∈ itemRecords source start item := by
  induction items generalizing gap with
  | nil => cases logged
  | cons item items ih =>
      rw [logFrom, List.flatMap_cons] at logged
      rcases List.mem_append.mp logged with first | later
      · exact ⟨item, List.mem_cons_self, gap, first⟩
      · obtain ⟨other, member, start, record⟩ := ih later
        exact ⟨other, List.mem_cons_of_mem _ member, start, record⟩

/-- **The log of a scan matches the scan.** Item by item, the records of a whole scan are these:

- a trace for each blank in the gap before the item that is not inside a comment, and for the first
  slash of each comment in it, by offset;
- a trace for the first byte of the item, if it is not the end of input;
- the report of the item, if it is a fault.

After the end of input nothing is logged. Every record is a trace, of a byte of the source and with
the line that counts the newlines before it, or is for debugging, with the report of a fault of the
scan. -/
theorem log_of_scan (source : List UInt8) :
    (Cursor.start source).drain.1 = logFrom source 0 (scan source) ∧
      (Cursor.start source).drain.2.next = ⟨[], none, (Cursor.start source).drain.2⟩ ∧
      ∀ record ∈ (Cursor.start source).drain.1.flatMap (·.1),
        (record.level = .trace ∧ ∃ p b, source[p]? = some b ∧
          record = .dispatch (1 + (source.take p).count Byte.newline) b) ∨
        (record.level = .debug ∧ ∃ d, .fault d ∈ scan source ∧ record = .scanError d ∧
          record.message = "scan error: " ++ d.report) := by
  have amid := Cursor.amid_start source
  have log : (Cursor.start source).drain.1 = logFrom source 0 (scan source) := amid.drain_eq
  refine ⟨log, amid.drain.2.next_of_nil, fun record logged => ?_⟩
  rw [log] at logged
  obtain ⟨item, member, gap, logged⟩ := exists_mem_itemRecords logged
  rcases mem_itemRecords member logged with ⟨p, within, rfl⟩ | ⟨d, rfl, rfl⟩
  · have byte := List.getElem?_eq_getElem within
    exact .inl ⟨rfl, p, source[p], byte, traceAt_eq_dispatch byte⟩
  · exact .inr ⟨rfl, d, member, rfl, rfl⟩

/-- A blank, a comment and its newline, then two faults: a character that starts no token, and a
quote that nothing closes. The newline after that is in the gap before the end of input. -/
theorem log_of_scan_faults :
    let source := [0x20, 0x2F, 0x2F, 0x20, 0x78, 0x0A, 0x40, 0x22, 0x61, 0x0A]
    let stray : Diagnostic := .unexpectedChar '@' ⟨6, 7, 2⟩
    let unclosed : Diagnostic := .unterminatedString ⟨7, 9, 2⟩
    let log := [
      ([.dispatch 1 0x20, .dispatch 1 0x2F, .dispatch 1 0x0A, .dispatch 2 0x40, .scanError stray],
        .fault stray),
      ([.dispatch 2 0x22, .scanError unclosed], .fault unclosed),
      ([.dispatch 2 0x0A], .token (.endOfInput ⟨10, 10, 3⟩))]
    (Cursor.start source).drain.1 = log ∧ (log.flatMap (·.1)).map Record.text = [
      "TRACE line 1: dispatching ' '",
      "TRACE line 1: dispatching '/'",
      "TRACE line 1: dispatching '\\n'",
      "TRACE line 2: dispatching '@'",
      "DEBUG scan error: [line 2] Error: Unexpected character: @",
      "TRACE line 2: dispatching '\"'",
      "DEBUG scan error: [line 2] Error: Unterminated string.",
      "TRACE line 2: dispatching '\\n'"] := by
  intro source stray unclosed log
  have spec : logFrom source 0 (scan source) = log := by decide +kernel
  exact ⟨(log_of_scan source).1.trans spec, by decide +kernel⟩

end LoxSyntax
