import LoxSyntax.Proofs.Lexical.Tiling

/-! # Cuts between items
A source can be cut where one of its items starts or ends: the items before the cut are those of the
bytes before it, and the items after it are those of the bytes after it, moved to their places
(`scan_take_drop`). So a scan carries nothing over from item to item but the place.

1. *Moving items*: the places of items depend on the bytes before them only by their number and by
the number of newlines among them.
2. *What may follow an item*: an item depends on the bytes after it only so far that they must not
go on with it.
3. *Cuts*: where a row of items can be cut. -/

namespace LoxSyntax

/-! ## (1) Moving items -/

/-- A span further on in a source, by so many bytes and so many lines. -/
def Span.shift (bytes lines : Nat) (span : Span) : Span :=
  ⟨span.start + bytes, span.stop + bytes, span.line + lines⟩

/-- A diagnostic about another place, if it is about a place in a source. -/
def Diagnostic.mapSpan (f : Span → Span) : Diagnostic → Diagnostic
  | unexpectedChar shown span => unexpectedChar shown (f span)
  | unterminatedString span => unterminatedString (f span)
  | expectedExpression found span => expectedExpression found (f span)
  | expectedClosingParen found span => expectedClosingParen found (f span)
  | tooDeep found limit span => tooDeep found limit (f span)
  | unreadable path reason => unreadable path reason

/-- **An item at another place.** -/
def Item.mapSpan (f : Span → Span) : Item → Item
  | token t => token { t with span := f t.span }
  | fault d => fault (d.mapSpan f)

/-- What is wrong is put into the same words in every place. -/
@[simp] theorem Diagnostic.message_mapSpan (f : Span → Span) (d : Diagnostic) :
    (d.mapSpan f).message = d.message := by
  cases d <;> rfl

/-- The place of an item that was moved. -/
theorem Item.mapSpan_mapSpan (f g : Span → Span) (item : Item) :
    (item.mapSpan f).mapSpan g = item.mapSpan (g ∘ f) := by
  cases item with
  | token t => rfl
  | fault d => cases d <;> rfl

/-- An item of the grammar is one at every place. -/
theorem Lexes.mapSpan {span : Span} {bytes rest : List UInt8} {item : Item}
    (lexes : Lexes span bytes rest item) (f : Span → Span) :
    Lexes (f span) bytes rest (item.mapSpan f) := by
  cases lexes with
  | mark listed => exact .mark listed
  | joined listed => exact .joined listed
  | alone listed alone => exact .alone listed alone
  | slash alone => exact .slash alone
  | number digit runs stops => exact .number digit runs stops
  | reserved starts runs stops listed text => exact .reserved starts runs stops listed text
  | identifier starts runs stops other => exact .identifier starts runs stops other
  | string inside => exact .string inside
  | unterminated unclosed line ends => exact .unterminated unclosed line ends
  | character other => exact .character other
  | byte other broken => exact .byte other broken

/-- The place of some bytes is further on by all that is put in front. -/
theorem Span.after_append (front before bytes : List UInt8) :
    Span.after (front ++ before) bytes =
      (Span.after before bytes).shift front.length (front.count Byte.newline) := by
  simp only [Span.after, Span.shift, List.length_append, List.count_append, Span.mk.injEq]
  omega

/-- Items that come after more bytes are the same items, moved. -/
theorem Scans.shift {before rest : List UInt8} {items : List Item}
    (scans : Scans before rest items) (front : List UInt8) :
    Scans (front ++ before) rest
      (items.map (.mapSpan (.shift front.length (front.count Byte.newline)))) := by
  induction scans with
  | @ended before gap isGap =>
      have last : Scans (front ++ before) gap _ := .ended isGap
      rw [List.append_assoc, Span.after_append] at last
      exact last
  | @item before gap bytes rest item items isGap bare lexes more ih =>
      have moved := lexes.mapSpan (.shift front.length (front.count Byte.newline))
      rw [← Span.after_append, ← List.append_assoc] at moved
      refine .item isGap bare moved ?_
      simp only [List.append_assoc] at ih ⊢
      exact ih

/-- Bytes that come after others have one row of items. -/
theorem Scans.unique {before rest : List UInt8} {items others : List Item}
    (scans : Scans before rest items) (scans' : Scans before rest others) : items = others := by
  have passed : Cursor.Passed ⟨rest, before.length, before.count Byte.newline + 1, false⟩ before :=
    ⟨rfl, rfl, rfl⟩
  rw [← Cursor.drain_of_scans scans passed rfl, ← Cursor.drain_of_scans scans' passed rfl]

/-- **Items that come after other bytes** are those of the scan of their own bytes, moved. -/
theorem Scans.eq_shift {before rest : List UInt8} {items : List Item}
    (scans : Scans before rest items) :
    items = (scan rest).map
      (.mapSpan (.shift before.length (before.count Byte.newline))) := by
  have moved := (scans_scan rest).shift before
  rw [List.append_nil] at moved
  exact scans.unique moved

/-! ## (2) What may follow an item -/

/-- A byte that is no character of its own in UTF-8. -/
def Byte.isMultibyte (b : UInt8) : Bool := 0x80 ≤ b.toNat

/-- All bytes of a character but the first are beyond ASCII. -/
theorem Utf8.isMultibyte_of_mem_tail (c : Char) :
    ∀ b ∈ (String.utf8EncodeChar c).tail, Byte.isMultibyte b = true := by
  intro b member
  have continues : ∀ n, Byte.isMultibyte (UInt8.ofNat (n % 64 + 0x80)) = true := by
    intro n
    rw [Byte.isMultibyte, toNat_byte (by omega)]
    exact decide_eq_true (by omega)
  rcases encodeChar_cases c with ⟨-, e⟩ | ⟨-, -, e⟩ | ⟨-, -, e⟩ | ⟨-, -, e⟩ <;>
    rw [e, List.tail_cons] at member <;>
    simp only [List.mem_cons, List.not_mem_nil, or_false] at member
  · rw [member]
    exact continues _
  · rcases member with rfl | rfl <;> exact continues _
  · rcases member with rfl | rfl | rfl <;> exact continues _

/-- Whether an item is a quote that no later one closes. -/
def Item.isUnclosed : Item → Bool
  | fault (.unterminatedString _) => true
  | _ => false

/-- Whether an item is a slash. -/
def Item.isSlash : Item → Bool
  | token t => t.kind == .slash
  | _ => false

/-- **A byte that ends an item**, whatever the item ended before until now: a blank or a slash, but
not a slash after a slash, and nothing but a newline ends a quote that is not closed. -/
def Item.EndsBefore (item : Item) (b : UInt8) : Prop :=
  item.isUnclosed = false ∧ (b = Byte.space ∨ b = Byte.tab ∨ b = Byte.newline ∨
    b = Byte.slash ∧ item.isSlash = false)

/-- **Bytes that may stand after an item** in place of others. -/
structure Replaces (item : Item) (rest rest' : List UInt8) : Prop where
  /-- They start as the others do, or with a byte that ends the item. -/
  head : ∀ b ∈ rest'.head?, b ∈ rest.head? ∨ item.EndsBefore b
  /-- They go on with no character that the others do not go on with. -/
  multibyte : rest'.takeWhile Byte.isMultibyte <+: rest
  /-- They close no quote that the others do not close. -/
  quote : item.isUnclosed = true → Byte.quote ∉ rest → Byte.quote ∉ rest'

/-- A run that stops before some bytes stops before those that replace them, if no blank and no
slash goes on with it. -/
theorem Replaces.stops {item : Item} {rest rest' : List UInt8} (replaces : Replaces item rest rest')
    {p : UInt8 → Bool} (stops : Stops p rest)
    (apart : ∀ b, item.EndsBefore b → p b = false) : Stops p rest' := by
  intro b first
  rcases replaces.head b first with same | ends
  · exact stops b same
  · exact apart b ends

/-- A byte that does not come next does not come next in what replaces it either, unless it ends the
item. -/
theorem Replaces.head?_ne {item : Item} {rest rest' : List UInt8}
    (replaces : Replaces item rest rest') {b : UInt8} (other : rest.head? ≠ some b)
    (apart : ¬ item.EndsBefore b) : rest'.head? ≠ some b := by
  intro first
  rcases replaces.head b first with same | ends
  · exact other same
  · exact apart ends

/-- A byte that ends an item goes on with no numeral and no word. -/
theorem Item.EndsBefore.isPart {item : Item} {b : UInt8} (ends : item.EndsBefore b) :
    Byte.isNumeralPart b = false ∧ Byte.isWordPart b = false ∧ b ≠ Byte.equals := by
  rcases ends.2 with rfl | rfl | rfl | ⟨rfl, -⟩ <;> decide

/-- **An item stays as it is** before bytes that replace those after it. -/
theorem Lexes.replace {span : Span} {bytes rest rest' : List UInt8} {item : Item}
    (lexes : Lexes span bytes rest item) (replaces : Replaces item rest rest') :
    Lexes span bytes rest' item := by
  cases lexes with
  | mark listed => exact .mark listed
  | joined listed => exact .joined listed
  | alone listed alone =>
      exact .alone listed (replaces.head?_ne alone fun ends => ends.isPart.2.2 rfl)
  | slash alone =>
      refine .slash (replaces.head?_ne alone ?_)
      rintro ⟨-, blank | blank | blank | ⟨-, other⟩⟩
      · cases blank
      · cases blank
      · cases blank
      · cases other
  | number digit runs stops =>
      exact .number digit runs (replaces.stops stops fun b ends => ends.isPart.1)
  | reserved starts runs stops listed text =>
      exact .reserved starts runs (replaces.stops stops fun b ends => ends.isPart.2.1) listed text
  | identifier starts runs stops other =>
      exact .identifier starts runs (replaces.stops stops fun b ends => ends.isPart.2.1) other
  | string inside => exact .string inside
  | @unterminated content rest unclosed line ends =>
      rw [List.mem_append, not_or] at unclosed
      refine .unterminated ?_ line ?_
      · rw [List.mem_append, not_or]
        exact ⟨unclosed.1, replaces.quote rfl unclosed.2⟩
      · intro b first
        rcases replaces.head b first with same | ⟨closed, -⟩
        · exact ends b same
        · cases closed
  | character other => exact .character other
  | @byte b rest other broken =>
      refine .byte other ?_
      intro c more split
      have tail := Utf8.isMultibyte_of_mem_tail c
      cases bytes : String.utf8EncodeChar c with
      | nil =>
          have lost := Utf8.first?_encodeChar c []
          rw [bytes] at lost
          cases lost
      | cons b' continues =>
          -- The bytes of the character after the first one are a part of the run beyond ASCII.
          rw [bytes] at split
          rw [bytes, List.tail_cons] at tail
          rw [List.cons_append, List.cons.injEq] at split
          obtain ⟨rfl, split⟩ := split
          have run : continues <+: rest'.takeWhile Byte.isMultibyte := by
            rw [split, List.takeWhile_append_of_pos tail]
            exact List.prefix_append _ _
          obtain ⟨more', split'⟩ := run.trans replaces.multibyte
          exact broken c more' (by rw [bytes, ← split']; rfl)

/-- Nothing more than the first bytes after an item is needed after it. -/
theorem replaces_append (item : Item) (front back : List UInt8) :
    Replaces item (front ++ back) front where
  head b first := by
    obtain ⟨rest, rfl⟩ := List.head?_eq_some_iff.mp first
    exact .inl rfl
  multibyte := (List.takeWhile_prefix _).trans (List.prefix_append front back)
  quote _ none inside := none (List.mem_append_left back inside)

/-! ## (3) Cuts -/

/-- **A cut** of the bytes after others, and of their items. -/
inductive Cut : (before front back : List UInt8) → (first second : List Item) → Prop where
  /-- In front of everything. -/
  | here {before back : List UInt8} {second : List Item} (scans : Scans before back second) :
    Cut before [] back [] second
  /-- After a gap, in front of what it stands before. -/
  | gap {before gap back : List UInt8} {second : List Item} (isGap : IsGap back gap)
    (bare : IsBare back) (scans : Scans (before ++ gap) back second) :
    Cut before gap back [] second
  /-- Among the bytes after an item. -/
  | item {before gap bytes front back : List UInt8} {item : Item} {first second : List Item}
    (isGap : IsGap (bytes ++ (front ++ back)) gap) (bare : IsBare (bytes ++ (front ++ back)))
    (lexes : Lexes (.after (before ++ gap) bytes) bytes (front ++ back) item)
    (more : Cut (before ++ gap ++ bytes) front back first second) :
    Cut before (gap ++ (bytes ++ front)) back (item :: first) second

/-- **An edge** of some items: an offset where one of them starts or ends. -/
def IsEdge (items : List Item) (p : Nat) : Prop :=
  ∃ item ∈ items, ∃ span, item.span? = some span ∧ (p = span.start ∨ p = span.stop)

/-- **Bytes can be cut at every edge** of their items. -/
theorem Scans.exists_cut {before rest : List UInt8} {items : List Item}
    (scans : Scans before rest items) {p : Nat} (edge : IsEdge items p) :
    ∃ front back first second, rest = front ++ back ∧ p = before.length + front.length ∧
      items = first ++ second ∧ Cut before front back first second := by
  induction scans with
  | @ended before gap isGap =>
      obtain ⟨item, member, span, place, at_edge⟩ := edge
      cases List.mem_singleton.mp member
      cases place
      refine ⟨gap, [], [], _, (List.append_nil gap).symm, ?_, rfl, .gap isGap isBare_nil ?_⟩
      · rw [← List.length_append]
        exact at_edge.elim id id
      · have last : Scans (before ++ gap) [] _ := .ended .nil
        rw [List.append_nil] at last
        exact last
  | @item before gap bytes rest item items isGap bare lexes more ih =>
      obtain ⟨found, member, span, place, at_edge⟩ := edge
      rcases List.mem_cons.mp member with rfl | later
      · rw [lexes.span?_eq, Option.some.injEq] at place
        subst place
        rcases at_edge with start | stop
        · -- At its start: in front of the item.
          refine ⟨gap, bytes ++ rest, [], _, rfl, ?_, rfl, .gap isGap bare ?_⟩
          · rw [start, Span.after, List.length_append]
          · have lexes' := lexes
            rw [← List.append_nil (before ++ gap)] at lexes'
            refine .item .nil bare lexes' ?_
            rw [List.append_nil]
            exact more
        · -- At its end: in front of what comes after it.
          refine ⟨gap ++ (bytes ++ []), rest, [found], items, by simp, ?_, rfl,
            .item isGap bare lexes (.here more)⟩
          rw [stop, Span.after]
          simp only [List.length_append, List.length_nil]
          omega
      · obtain ⟨front, back, first, second, rfl, rfl, rfl, cut⟩ :=
          ih ⟨found, later, span, place, at_edge⟩
        refine ⟨gap ++ (bytes ++ front), back, item :: first, second, by simp, ?_, rfl,
          .item isGap bare lexes cut⟩
        simp only [List.length_append]
        omega

/-- What comes after a cut is a row of items. -/
theorem Cut.second {before front back : List UInt8} {first second : List Item}
    (cut : Cut before front back first second) : Scans (before ++ front) back second := by
  induction cut with
  | here scans =>
      rw [List.append_nil]
      exact scans
  | gap isGap bare scans => exact scans
  | item isGap bare lexes more ih =>
      simp only [List.append_assoc] at ih ⊢
      exact ih

/-- **What comes before a cut** is a row of items of its own, with an end of input. -/
theorem Cut.first {before front back : List UInt8} {first second : List Item}
    (cut : Cut before front back first second) :
    Scans before front (first ++ [.token (.endOfInput (.after (before ++ front) []))]) := by
  induction cut with
  | here scans => exact .ended .nil
  | gap isGap bare scans => exact .ended (isGap.of_head? fun b first => by cases first)
  | @item before gap bytes front back item first second isGap bare lexes more ih =>
      rw [← List.append_assoc] at isGap bare
      have isGap' : IsGap (bytes ++ front) gap := by
        apply isGap.of_head?
        intro b first
        obtain ⟨rest, starts⟩ := List.head?_eq_some_iff.mp first
        rw [starts]
        rfl
      have scans := Scans.item isGap' bare.of_append (lexes.replace (replaces_append item front back))
        ih
      simp only [List.append_assoc, List.cons_append] at scans ⊢
      exact scans

/-- **A scan splits at the edges of its items.** The items before an edge are those of the bytes
before it but the end of input, and the items after it are those of the bytes after it, further on
by the bytes and the lines before the edge. -/
theorem scan_take_drop {source : List UInt8} {p : Nat} (edge : IsEdge (scan source) p) :
    ∃ items last, scan (source.take p) = items ++ [.token (.endOfInput last)] ∧
      scan source = items ++ (scan (source.drop p)).map
        (.mapSpan (.shift p ((source.take p).count Byte.newline))) := by
  obtain ⟨front, back, first, second, split, place, items, cut⟩ :=
    (scans_scan source).exists_cut edge
  rw [List.length_nil, Nat.zero_add] at place
  rw [split, place, List.take_left, List.drop_left]
  refine ⟨first, _, scan_of_scans cut.first, ?_⟩
  rw [← split, items, cut.second.eq_shift, List.nil_append]

/-- The source of a quote that is not closed and a slash on the next line, cut before the slash. -/
theorem scan_take_drop_unclosed :
    let source : List UInt8 := [Byte.quote, Byte.newline, Byte.slash]
    IsEdge (scan source) 2 ∧
      ∃ items last, scan (source.take 2) = items ++ [.token (.endOfInput last)] ∧
        scan source = items ++ (scan (source.drop 2)).map
          (.mapSpan (.shift 2 ((source.take 2).count Byte.newline))) := by
  intro source
  have items : scan source = [.fault (.unterminatedString ⟨0, 1, 1⟩),
      .token (.fixed .slash ⟨2, 3, 2⟩), .token (.endOfInput ⟨3, 3, 2⟩)] := by
    decide +kernel
  have edge : IsEdge (scan source) 2 := by
    rw [items]
    exact ⟨_, List.mem_cons_of_mem _ List.mem_cons_self, _, rfl, .inl rfl⟩
  exact ⟨edge, scan_take_drop edge⟩

end LoxSyntax
