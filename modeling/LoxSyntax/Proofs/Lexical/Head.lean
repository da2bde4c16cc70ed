import LoxSyntax.Proofs.Lexical.Requests
import LoxSyntax.Proofs.Text.Decoding

/-! # Heads
A cursor carries the bytes that are left. A **head** stands at a position of a source instead, and
cuts the bytes that it needs out of the source. A slice out of bounds is no result, and neither is a
search for an item that takes more rounds than the source has bytes, and one. So a head has results
at all only if every slice is within the source and every round makes progress.

What is no layout is read as the cursor reads it (`Head.reads_lexeme`), and every slice cut for that
is in range.

1. *Heads*: the state, and what is read at its position.
2. *Lexemes and items*, each by a search for its end.
3. *Searches* find the ends of runs.
4. *Lexemes* are those that the cursor reads. -/

namespace LoxSyntax

/-! ## (1) Heads -/

/-- A **slice** that was cut, and where the head stood then. -/
structure Slice where
  /-- Where the item began. -/
  start : Nat
  /-- The position. -/
  pos : Nat
  /-- The first byte of the slice. -/
  low : Nat
  /-- The byte after its last. -/
  high : Nat
deriving DecidableEq

/-- **A slice in range**: the item began before the position or at it, and that and the slice are
within so many bytes. -/
structure Slice.InRange (length : Nat) (slice : Slice) : Prop where
  /-- The item began before the position or at it. -/
  start : slice.start ≤ slice.pos
  /-- The position is within the bytes. -/
  pos : slice.pos ≤ length
  /-- The slice begins before its end or at it. -/
  low : slice.low ≤ slice.high
  /-- The slice is within the bytes. -/
  high : slice.high ≤ length

/-- A **head** over a source. -/
structure Head where
  /-- The bytes of the source. -/
  source : List UInt8
  /-- The position of the next byte. -/
  pos : Nat
  /-- Where the item begins. -/
  start : Nat
  /-- The line of the next byte. -/
  line : Nat
  /-- The line on which the item begins. -/
  startLine : Nat
  /-- Whether the end of input was given. -/
  ended : Bool
  /-- The slices cut for the last item, in order. -/
  slices : List Slice
  /-- The records logged for the last item, in order. -/
  records : List Record
  /-- How many rounds the search for the last item took. -/
  rounds : Nat

namespace Head

/-- A head before the first byte. -/
def atStart (source : List UInt8) : Head := ⟨source, 0, 0, 1, 1, false, [], [], 0⟩

/-- The next byte. -/
def peek (h : Head) : Option UInt8 := h.source[h.pos]?

/-- Note a slice. -/
def noted (low high : Nat) (h : Head) : Head :=
  { h with slices := h.slices ++ [⟨h.start, h.pos, low, high⟩] }

@[simp] theorem pos_noted (low high : Nat) (h : Head) : (h.noted low high).pos = h.pos := rfl

/-- **Cut a slice.** There is no result where it is out of bounds. -/
def slice (low high : Nat) (h : Head) : Option (List UInt8 × Head) :=
  if low ≤ high ∧ high ≤ h.source.length then
    some (h.source.extract low high, h.noted low high)
  else none

/-- The place from the start of the item up to the position. -/
def span (h : Head) : Span := ⟨h.start, h.pos, h.startLine⟩

/-- The text from the start of the item up to the position. -/
def text (h : Head) : Option (String × Head) := do
  let (bytes, h) ← h.slice h.start h.pos
  return (Utf8.decode bytes, h)

/-- A token up to the position. -/
def token (kind : Kind) (value : Value) (h : Head) : Option (Item × Head) := do
  let (text, h) ← h.text
  return (.token ⟨kind, text, some value, h.span⟩, h)

/-! ## (2) Lexemes and items -/

/-- Where a run of bytes of a class ends that goes on at a position. -/
def runEnd (p : UInt8 → Bool) (source : List UInt8) (pos : Nat) : Nat :=
  match _found : source[pos]? with
  | some b => if p b then runEnd p source (pos + 1) else pos
  | none => pos
termination_by source.length - pos
decreasing_by
  have inside := (List.getElem?_eq_some_iff.mp _found).1
  omega

/-- Move to the end of a run of bytes of a class. -/
def run (p : UInt8 → Bool) (h : Head) : Head := { h with pos := runEnd p h.source h.pos }

/-- Move to the end of the line, before the newline. -/
def skipLine (h : Head) : Option Head := do
  let (bytes, h) ← h.slice h.pos h.source.length
  match bytes.findIdx? (· == Byte.newline) with
  | some offset => return { h with pos := h.pos + offset }
  | none => return { h with pos := h.source.length }

/-- Read a numeral, of which the first digit was passed. -/
def numeral (h : Head) : Option (Item × Head) := do
  let (text, h) ← (h.run Byte.isNumeralPart).text
  h.token .number (.number (numeralValue text.toList))

/-- Read a word, of which the first letter was passed. -/
def word (h : Head) : Option (Item × Head) := do
  let (text, h) ← (h.run Byte.isWordPart).text
  match Kind.word? text with
  | some kind => return (.token (.fixed kind h.span), h)
  | none => h.token .identifier (.string text)

/-- Read a quoted text, of which the quote was passed. -/
def quoted (h : Head) : Option (Item × Head) := do
  let (bytes, h) ← h.slice h.pos h.source.length
  match bytes.findIdx? (· == Byte.quote) with
  | none =>
    let h ← h.skipLine
    return (.fault (.unterminatedString h.span), h)
  | some length =>
    let (content, h) ← h.slice h.pos (h.pos + length)
    { h with
      line := h.line + content.count Byte.newline
      pos := h.pos + length + 1 }.token .string (.string (Utf8.decode content))

/-- Read an operator that an equals sign may follow, which was passed itself. -/
def doublable (single double : Kind) (h : Head) : Option (Item × Head) :=
  if h.peek = some Byte.equals then
    let h := { h with pos := h.pos + 1 }
    some (.token (.fixed double h.span), h)
  else some (.token (.fixed single h.span), h)

/-- How many bytes the sequence of a character has that a byte leads. -/
def width (lead : UInt8) : Nat :=
  let n := lead.toNat
  if n < 0xC0 then 1
  else if n < 0xE0 then 2
  else if n < 0xF0 then 3
  else if n < 0xF8 then 4
  else 1

/-- The first character of a text, if some bytes encode one. -/
def character? (bytes : List UInt8) : Option Char :=
  let text := Utf8.decode bytes
  if Utf8.encode text = bytes then text.toList.head? else none

/-- Read what starts no token, of which the first byte was passed: a character, or that byte. -/
def stray (lead : UInt8) (h : Head) : Option (Item × Head) := do
  let stop := min (h.start + width lead) h.source.length
  let (bytes, h) ← h.slice h.start stop
  match character? bytes with
  | some c =>
    let h := { h with pos := stop }
    return (.fault (.unexpectedChar c h.span), h)
  | none => return (.fault (.unexpectedChar Utf8.replacement h.span), h)

/-- Read what is no layout, of which the first byte was passed. -/
def lexeme (b : UInt8) (h : Head) : Option (Item × Head) :=
  if b = Byte.slash then some (.token (.fixed .slash h.span), h)
  else if b = Byte.quote then h.quoted
  else if Byte.isDigit b then h.numeral
  else if Byte.isWordStart b then h.word
  else
    match Kind.mark? b with
    | some kind => some (.token (.fixed kind h.span), h)
    | none =>
      match Kind.doublable? b with
      | some (single, double) => h.doublable single double
      | none => h.stray b

/-- Begin a round: the item begins at the position. -/
def beginning (h : Head) : Head :=
  { h with rounds := h.rounds + 1, start := h.pos, startLine := h.line }

/-- Pass the first byte of a round, and log it. -/
def dispatched (b : UInt8) (h : Head) : Head :=
  { h.beginning with pos := h.pos + 1, records := h.records ++ [.dispatch h.line b] }

/-- **Search for an item** in so many rounds. There is no result where they are not enough. -/
def search : Nat → Head → Option (Item × Head)
  | 0, _ => none
  | left + 1, h =>
    match h.peek with
    | none => some (.token (.endOfInput h.beginning.span), { h.beginning with ended := true })
    | some b =>
      let h := h.dispatched b
      if b = Byte.newline then search left { h with line := h.line + 1 }
      else if b = Byte.space ∨ b = Byte.tab then search left h
      else if b = Byte.slash ∧ h.peek = some Byte.slash then h.skipLine.bind (search left)
      else h.lexeme b

/-- Begin a call, for which nothing was noted yet. -/
def cleared (h : Head) : Head := { h with slices := [], records := [], rounds := 0 }

/-- **Give the next item**, if the end of input was not given, in at most one round more than the
source has bytes. -/
def next (h : Head) : Option (Option Item × Head) :=
  if h.ended then some (none, h.cleared)
  else do
    let (item, h) ← h.cleared.search (h.source.length + 1)
    return (some item, { h with records := h.records ++ Cursor.complaint item })

/-- What so many calls leave. -/
def afterCalls : Nat → Head → Option Head
  | 0, h => some h
  | calls + 1, h => do
    let (_, h) ← h.next
    afterCalls calls h

/-! ## (3) Searches -/

/-- A run of bytes of a class ends after its longest run. -/
theorem runEnd_eq (p : UInt8 → Bool) (source : List UInt8) (pos : Nat) :
    runEnd p source pos = pos + ((source.drop pos).takeWhile p).length := by
  fun_induction runEnd p source pos with
  | case1 pos b found goesOn ih =>
      obtain ⟨inside, rfl⟩ := List.getElem?_eq_some_iff.mp found
      rw [ih, List.drop_eq_getElem_cons inside, List.takeWhile_cons_of_pos goesOn,
        List.length_cons]
      omega
  | case2 pos b found stops =>
      obtain ⟨inside, rfl⟩ := List.getElem?_eq_some_iff.mp found
      rw [List.drop_eq_getElem_cons inside, List.takeWhile_cons_of_neg stops]
      rfl
  | case3 pos none =>
      rw [List.drop_eq_nil_of_le (List.getElem?_eq_none_iff.mp none)]
      rfl

/-- **A byte is searched for** among others: there is none, or the first one is found. -/
theorem findIdx?_cases (b : UInt8) (bytes : List UInt8) :
    (bytes.findIdx? (· == b) = none ∧ b ∉ bytes) ∨
      ∃ front back, bytes = front ++ b :: back ∧ b ∉ front ∧
        bytes.findIdx? (· == b) = some front.length := by
  induction bytes with
  | nil => exact .inl ⟨rfl, List.not_mem_nil⟩
  | cons c bytes ih =>
      by_cases same : c = b
      · exact .inr ⟨[], bytes, by rw [same]; rfl, List.not_mem_nil,
          by simp [List.findIdx?_cons, same]⟩
      · have other : ∀ front, b ∉ front → b ∉ c :: front := by
          intro front none
          simp [none, Ne.symm same]
        rcases ih with ⟨none, absent⟩ | ⟨front, back, split, absent, found⟩
        · exact .inl ⟨by simp [List.findIdx?_cons, same, none], other _ absent⟩
        · exact .inr ⟨c :: front, back, by rw [split]; rfl, other _ absent,
            by simp [List.findIdx?_cons, same, found]⟩

/-- A run of other bytes than one goes up to that one, or to the end. -/
theorem takeWhile_bne {b : UInt8} {bytes front back : List UInt8} (split : bytes = front ++ back)
    (absent : b ∉ front) (stop : ∀ c ∈ back.head?, c = b) :
    bytes.takeWhile (· != b) = front := by
  have other : ∀ c ∈ front, (c != b) = true := fun c member =>
    bne_iff_ne.mpr fun same => absent (same ▸ member)
  have stops : Stops (· != b) back := fun c first => bne_eq_false_iff_eq.mpr (stop c first)
  exact ((takeWhile_eq_iff (· != b) bytes).mpr ⟨split, other, stops⟩).1

variable {h : Head}

/-- A slice within the source is cut. -/
theorem slice_of_le {low high : Nat} (le : low ≤ high) (within : high ≤ h.source.length) :
    h.slice low high = some (h.source.extract low high, h.noted low high) :=
  if_pos ⟨le, within⟩

/-- What is left of the source is a slice up to its end. -/
theorem slice_left (within : h.pos ≤ h.source.length) :
    h.slice h.pos h.source.length =
      some (h.source.drop h.pos, h.noted h.pos h.source.length) := by
  rw [slice_of_le within (Nat.le_refl _), List.extract_eq_take_drop,
    List.take_of_length_le (Nat.le_of_eq List.length_drop)]

/-- **A head skips the rest of a line.** -/
theorem skipLine_eq (within : h.pos ≤ h.source.length) :
    h.skipLine = some { h.noted h.pos h.source.length with
      pos := h.pos + ((h.source.drop h.pos).takeWhile (· != Byte.newline)).length } := by
  rw [skipLine, slice_left within]
  change (match (h.source.drop h.pos).findIdx? _ with | some offset => _ | none => _) = _
  rcases findIdx?_cases Byte.newline (h.source.drop h.pos) with
    ⟨none, absent⟩ | ⟨front, back, split, absent, found⟩
  · have whole := takeWhile_bne (List.append_nil _).symm absent (by simp)
    rw [none, whole, List.length_drop, Nat.add_sub_cancel' within]
    rfl
  · have whole := takeWhile_bne split absent (by simp)
    rw [found, whole]
    rfl

/-! ## (4) Lexemes -/

/-- The slices cut for the last item are in range. -/
def Sound (h : Head) : Prop := ∀ slice ∈ h.slices, slice.InRange h.source.length

/-- **What stays as it is while an item is read**: all but the position and the line. Slices are cut
in range. -/
structure Kept (h h' : Head) : Prop where
  /-- The source stays. -/
  source : h'.source = h.source
  /-- The item begins where it did. -/
  start : h'.start = h.start
  /-- The item begins on the line on which it did. -/
  startLine : h'.startLine = h.startLine
  /-- The end of input is not given. -/
  ended : h'.ended = h.ended
  /-- Nothing is logged. -/
  records : h'.records = h.records
  /-- No round is taken. -/
  rounds : h'.rounds = h.rounds
  /-- Slices are cut in range. -/
  sound : h.Sound → h'.Sound

/-- A head that does nothing. -/
theorem Kept.refl (h : Head) : Kept h h := ⟨rfl, rfl, rfl, rfl, rfl, rfl, id⟩

/-- One thing is done after the other. -/
theorem Kept.trans {h h₁ h₂ : Head} (first : Kept h h₁) (second : Kept h₁ h₂) : Kept h h₂ where
  source := second.source.trans first.source
  start := second.start.trans first.start
  startLine := second.startLine.trans first.startLine
  ended := second.ended.trans first.ended
  records := second.records.trans first.records
  rounds := second.rounds.trans first.rounds
  sound := second.sound ∘ first.sound

/-- The position and the line may change. -/
theorem kept_move (h : Head) (pos line : Nat) : Kept h { h with pos := pos, line := line } :=
  ⟨rfl, rfl, rfl, rfl, rfl, rfl, id⟩

/-- A slice in range may be cut. -/
theorem kept_noted {low high : Nat}
    (inRange : Slice.InRange h.source.length ⟨h.start, h.pos, low, high⟩) :
    Kept h (h.noted low high) :=
  ⟨rfl, rfl, rfl, rfl, rfl, rfl, fun sound =>
    List.forall_mem_append.mpr ⟨sound, List.forall_mem_singleton.mpr inRange⟩⟩

/-- **A head in the midst of an item**, of which it has passed some bytes, with others after them.
-/
structure Amid (h : Head) (bytes rest : List UInt8) : Prop where
  /-- What the source holds from the start of the item on. -/
  left : h.source.drop h.start = bytes ++ rest
  /-- The position is after the bytes passed. -/
  pos : h.pos = h.start + bytes.length
  /-- The position is within the source. -/
  within : h.pos ≤ h.source.length

section Amid

variable {bytes more rest : List UInt8}

/-- What is left of the source. -/
theorem Amid.drop (amid : h.Amid bytes rest) : h.source.drop h.pos = rest := by
  rw [amid.pos, ← List.drop_drop, amid.left, List.drop_left]

/-- The length of what is left. -/
theorem Amid.length (amid : h.Amid bytes rest) : h.source.length = h.pos + rest.length := by
  have length := congrArg List.length amid.drop
  rw [List.length_drop] at length
  have within := amid.within
  omega

/-- More bytes are passed. -/
theorem Amid.move (amid : h.Amid bytes (more ++ rest)) (line : Nat) :
    Amid { h with pos := h.pos + more.length, line := line } (bytes ++ more) rest where
  left := by rw [amid.left, List.append_assoc]
  pos := by
    rw [List.length_append, ← Nat.add_assoc, ← amid.pos]
  within := by
    have length := amid.length
    rw [List.length_append] at length
    change h.pos + more.length ≤ h.source.length
    omega

/-- A run of bytes of a class is passed. -/
theorem Amid.run (amid : h.Amid bytes rest) (p : UInt8 → Bool) :
    (h.run p).Amid (bytes ++ rest.takeWhile p) (rest.dropWhile p) := by
  have ends := runEnd_eq p h.source h.pos
  rw [amid.drop] at ends
  rw [Head.run, ends]
  rw [← List.takeWhile_append_dropWhile (p := p) (l := rest)] at amid
  exact amid.move h.line

/-- A slice changes nothing else. -/
theorem Amid.noted (amid : h.Amid bytes rest) (low high : Nat) :
    (h.noted low high).Amid bytes rest :=
  ⟨amid.left, amid.pos, amid.within⟩

/-- The item began before the position or at it. -/
theorem Amid.start_le (amid : h.Amid bytes rest) : h.start ≤ h.pos := by
  rw [amid.pos]
  exact Nat.le_add_right _ _

/-- A slice within the source is in range. -/
theorem Amid.kept_noted (amid : h.Amid bytes rest) {low high : Nat} (le : low ≤ high)
    (within : high ≤ h.source.length) : Kept h (h.noted low high) :=
  Head.kept_noted ⟨amid.start_le, amid.within, le, within⟩

/-- The slice of what is left is in range. -/
theorem Amid.kept_left (amid : h.Amid bytes rest) : Kept h (h.noted h.pos h.source.length) :=
  amid.kept_noted amid.within (Nat.le_refl _)

/-- Bytes that come next are a slice, which is in range. -/
theorem Amid.slice_ahead (amid : h.Amid bytes (more ++ rest)) :
    h.slice h.pos (h.pos + more.length) = some (more, h.noted h.pos (h.pos + more.length)) ∧
      Kept h (h.noted h.pos (h.pos + more.length)) := by
  have within : h.pos + more.length ≤ h.source.length := by
    have length := amid.length
    rw [List.length_append] at length
    omega
  refine ⟨?_, amid.kept_noted (Nat.le_add_right _ _) within⟩
  rw [slice_of_le (Nat.le_add_right _ _) within, List.extract_eq_take_drop, amid.drop,
    Nat.add_sub_cancel_left, List.take_left]

/-- The slice from the start of the item up to the position is in range. -/
theorem Amid.kept_text (amid : h.Amid bytes rest) : Kept h (h.noted h.start h.pos) :=
  amid.kept_noted amid.start_le amid.within

/-- **The text passed** is the text of the bytes passed. -/
theorem Amid.text_eq (amid : h.Amid bytes rest) :
    h.text = some (Utf8.decode bytes, h.noted h.start h.pos) := by
  rw [text, slice_of_le amid.start_le amid.within, List.extract_eq_take_drop, amid.left, amid.pos,
    Nat.add_sub_cancel_left, List.take_left]
  rfl

/-- **A token** is made of the bytes passed. -/
theorem Amid.token_eq (amid : h.Amid bytes rest) (kind : Kind) (value : Value) :
    h.token kind value =
      some (.token ⟨kind, Utf8.decode bytes, some value, h.span⟩, h.noted h.start h.pos) := by
  rw [token, amid.text_eq]
  rfl

end Amid

/-- **A lexeme is read** at a head whose item begins with it: the item is that of the lexeme, and
its bytes are passed. -/
def Reads (h : Head) (l : Lexeme) (result : Option (Item × Head)) : Prop :=
  ∃ h', result = some (l.item h'.span, h') ∧ Kept h h' ∧ h'.pos = h.start + l.bytes.length ∧
    h'.line = h.line + l.bytes.count Byte.newline

variable {b : UInt8} {rest : List UInt8}

/-- A run of a class without the newline stays on its line. -/
theorem line_run {p : UInt8 → Bool} (first : p b = true) (other : p Byte.newline = false)
    (rest : List UInt8) (line : Nat) :
    line = line + (b :: rest.takeWhile p).count Byte.newline := by
  rw [count_newline_of_forall
    (List.forall_mem_cons.mpr ⟨first, List.all_eq_true.mp List.all_takeWhile⟩) other,
    Nat.add_zero]

/-- A numeral is read. -/
theorem reads_numeral (amid : h.Amid [b] rest) (digit : Byte.isDigit b = true) :
    Reads h (Lexeme.readNumeral b rest).1 h.numeral := by
  have passed := amid.run Byte.isNumeralPart
  have again := passed.noted (h.run Byte.isNumeralPart).start (h.run Byte.isNumeralPart).pos
  have part : Byte.isNumeralPart b = true := by
    rw [Byte.isNumeralPart, digit, Bool.true_or]
  refine ⟨_, ?_, ((kept_move h _ _).trans passed.kept_text).trans again.kept_text, passed.pos,
    line_run part rfl rest h.line⟩
  rw [numeral, passed.text_eq]
  exact again.token_eq .number _

/-- A word is read, reserved or not. -/
theorem reads_word (amid : h.Amid [b] rest) (starts : Byte.isWordStart b = true) :
    Reads h (Lexeme.readWord b rest).1 h.word := by
  have passed := amid.run Byte.isWordPart
  have again := passed.noted (h.run Byte.isWordPart).start (h.run Byte.isWordPart).pos
  have kept := (kept_move h _ _).trans passed.kept_text
  have part := Byte.isWordPart_of_isWordStart starts
  have line := line_run part rfl rest h.line
  have bytes : (Lexeme.readWord b rest).1.bytes = b :: rest.takeWhile Byte.isWordPart := by
    have whole : b :: rest.takeWhile Byte.isWordPart ++ rest.dropWhile Byte.isWordPart =
        b :: rest := congrArg (b :: ·) List.takeWhile_append_dropWhile
    exact List.append_cancel_right ((Lexeme.bytes_readWord rest starts).trans whole.symm)
  rw [word, passed.text_eq]
  change Reads h _ (match Kind.word? (Utf8.decode (b :: rest.takeWhile Byte.isWordPart)) with
    | some kind => _
    | none => _)
  rw [Lexeme.readWord] at bytes ⊢
  dsimp only at bytes ⊢
  cases told : Kind.word? (Utf8.decode (b :: rest.takeWhile Byte.isWordPart)) with
  | some kind =>
      rw [told, Option.elim_some] at bytes
      rw [Option.elim_some]
      exact ⟨_, rfl, kept, bytes ▸ passed.pos, bytes ▸ line⟩
  | none =>
      exact ⟨_, again.token_eq .identifier _, kept.trans again.kept_text, passed.pos, line⟩

/-- A quote with no other one after it is read up to the end of the line. -/
theorem reads_unclosed (amid : h.Amid [Byte.quote] rest) (absent : Byte.quote ∉ rest)
    (missing : rest.findIdx? (· == Byte.quote) = none) :
    Reads h (Lexeme.read Byte.quote rest).1 h.quoted := by
  have noted := amid.noted h.pos h.source.length
  have line := skipLine_eq noted.within
  rw [noted.drop] at line
  obtain ⟨-, drop⟩ := (takeWhile_eq_iff Lexeme.isContent rest).mpr
    ⟨(List.append_nil _).symm, Lexeme.forall_isContent_iff.mpr absent, by simp [Stops]⟩
  rw [quoted, slice_left amid.within, amid.drop]
  change Reads h _ (match rest.findIdx? (· == Byte.quote) with | none => _ | some length => _)
  rw [missing, Lexeme.read, if_pos rfl, Lexeme.readQuoted, drop]
  dsimp only
  rw [line]
  refine ⟨_, rfl, (amid.kept_left.trans noted.kept_left).trans (kept_move _ _ _), ?_,
    line_run (p := Lexeme.isOnLine) rfl rfl rest h.line⟩
  change h.pos + (rest.takeWhile Lexeme.isOnLine).length = _
  rw [amid.pos, List.length_singleton, Nat.add_assoc, Nat.add_comm 1]
  rfl

/-- A quote is read up to the next one, and the newlines before that are counted. -/
theorem reads_closed {content back : List UInt8}
    (amid : h.Amid [Byte.quote] (content ++ Byte.quote :: back)) (absent : Byte.quote ∉ content)
    (found : (content ++ Byte.quote :: back).findIdx? (· == Byte.quote) = some content.length) :
    Reads h (Lexeme.read Byte.quote (content ++ Byte.quote :: back)).1 h.quoted := by
  have noted := amid.noted h.pos h.source.length
  obtain ⟨cut, kept⟩ := noted.slice_ahead
  rw [pos_noted] at cut kept
  rw [quoted, slice_left amid.within, amid.drop]
  change Reads h _ (match (content ++ Byte.quote :: back).findIdx? (· == Byte.quote) with
    | none => _
    | some length => _)
  rw [found, Lexeme.read_quoted absent]
  change Reads h _ ((h.noted h.pos h.source.length).slice h.pos (h.pos + content.length) >>= _)
  rw [cut]
  -- The token ends after the closing quote.
  have ahead := noted.noted h.pos (h.pos + content.length)
  rw [List.append_cons] at ahead
  have passed := ahead.move (h.line + content.count Byte.newline)
  rw [List.length_append, List.length_singleton, ← Nat.add_assoc] at passed
  refine ⟨_, ?_, ((amid.kept_left.trans kept).trans (kept_move _ _ _)).trans passed.kept_text,
    passed.pos, ?_⟩
  · exact passed.token_eq .string (.string (Utf8.decode content))
  · change h.line + content.count Byte.newline =
      h.line + (Byte.quote :: (content ++ [Byte.quote])).count Byte.newline
    rw [List.count_cons_of_ne (by decide), List.count_append]
    rfl

/-- **A quoted text is read**, closed or not. -/
theorem reads_quoted (amid : h.Amid [Byte.quote] rest) :
    Reads h (Lexeme.read Byte.quote rest).1 h.quoted := by
  rcases findIdx?_cases Byte.quote rest with
    ⟨none, absent⟩ | ⟨content, back, rfl, absent, found⟩
  · exact reads_unclosed amid absent none
  · exact reads_closed amid absent found

/-- The byte that comes next. -/
theorem Amid.peek_eq {bytes : List UInt8} (amid : h.Amid bytes rest) : h.peek = rest.head? := by
  rw [peek, ← List.head?_drop, amid.drop]

/-- What has a fixed text is read. -/
theorem Amid.reads_fixed {bytes : List UInt8} {kind : Kind} (amid : h.Amid bytes rest)
    (text : Utf8.encode kind.text = bytes) (line : Byte.newline ∉ bytes) {h' : Head}
    (kept : Kept h' h) (same : h.line = h'.line) :
    Reads h' (.fixed kind) (some (.token (.fixed kind h.span), h)) := by
  refine ⟨h, rfl, kept, ?_, ?_⟩
  · rw [amid.pos, kept.start, ← text]
    rfl
  · rw [same, Lexeme.bytes, text, List.count_eq_zero.mpr line, Nat.add_zero]

/-- An operator is read, with an equals sign after it if there is one. -/
theorem reads_doublable (amid : h.Amid [b] rest) {single double : Kind}
    (told : Kind.doublable? b = some (single, double)) :
    Reads h (Lexeme.readDoublable single double rest).1 (h.doublable single double) := by
  obtain ⟨alone, joined⟩ := Kind.encode_text_of_doublable? told
  have other : b ≠ Byte.newline := by
    rintro rfl
    cases told
  have reads := amid.reads_fixed alone (by simpa using other.symm) (.refl h) rfl
  rw [doublable, amid.peek_eq]
  cases rest with
  | nil => exact reads
  | cons c after =>
      rw [Lexeme.readDoublable]
      by_cases equals : c = Byte.equals
      · subst equals
        rw [if_pos rfl, if_pos (show (Byte.equals :: after).head? = some Byte.equals from rfl)]
        have ahead : h.Amid [b] ([Byte.equals] ++ after) := amid
        have apart : Byte.newline ∉ [b, Byte.equals] := by simpa using ⟨other.symm, by decide⟩
        exact (ahead.move h.line).reads_fixed joined apart (kept_move _ _ _) rfl
      · have different : ¬(c :: after).head? = some Byte.equals := by simpa using equals
        rw [if_neg equals, if_neg different]
        exact reads

/-! ### Characters -/

/-- **How long the sequence of a character is** is told by its first byte. -/
theorem width_of_encodeChar {c : Char} {more : List UInt8}
    (bytes : String.utf8EncodeChar c = b :: more) : width b = more.length + 1 := by
  rcases Utf8.encodeChar_cases c with ⟨lt, e⟩ | ⟨le, lt, e⟩ | ⟨le, lt, e⟩ | ⟨le, lt, e⟩
  all_goals
    rw [e] at bytes
    obtain ⟨rfl, rfl⟩ := List.cons.inj bytes
    simp only [width]
    rw [Utf8.toNat_byte (by omega)]
  · rw [if_pos (by omega)]
    rfl
  · rw [if_neg (by omega), if_pos (by omega)]
    rfl
  · rw [if_neg (by omega), if_neg (by omega), if_pos (by omega)]
    rfl
  · rw [if_neg (by omega), if_neg (by omega), if_neg (by omega), if_pos (by omega)]
    rfl

/-- The first character of bytes that begin with one and encode a text. -/
theorem character?_encodeChar (c : Char) : character? (String.utf8EncodeChar c) = some c := by
  have bytes : Utf8.encode (String.singleton c) = String.utf8EncodeChar c := by
    rw [Utf8.encode, String.toList_singleton, List.flatMap_singleton]
  rw [character?, ← bytes, Utf8.decode_encode]
  simp

/-- Bytes that encode a text begin with its first character. -/
theorem first?_of_character? {bytes : List UInt8} {c : Char} (found : character? bytes = some c)
    (more : List UInt8) : ∃ after, Utf8.first? (bytes ++ more) = some (c, after) := by
  rw [character?] at found
  split at found
  · next same =>
      obtain ⟨cs, text⟩ := List.head?_eq_some_iff.mp found
      rw [← same, Utf8.encode, text, List.flatMap_cons, List.append_assoc]
      exact ⟨_, Utf8.first?_encodeChar c _⟩
  · cases found

/-- Where a character starts, it is found in as many bytes as the first one tells. -/
theorem take_of_first? {after : List UInt8} {c : Char}
    (first : Utf8.first? (b :: rest) = some (c, after)) :
    (b :: rest).take (width b) = String.utf8EncodeChar c := by
  have split := Utf8.first?_eq_some_iff.mp first
  cases bytes : String.utf8EncodeChar c with
  | nil =>
      rw [bytes] at split
      have lost := Utf8.length_first? first
      rw [split] at lost
      exact absurd lost (Nat.lt_irrefl _)
  | cons d more =>
      rw [bytes] at split
      obtain rfl := (List.cons.inj split).1
      rw [split, width_of_encodeChar bytes]
      exact List.take_left' rfl

/-- Only the newline is encoded with the newline. -/
theorem newline_not_mem_of_first? {after : List UInt8} {c : Char}
    (first : Utf8.first? (b :: rest) = some (c, after)) (other : b ≠ Byte.newline) :
    Byte.newline ∉ String.utf8EncodeChar c := by
  intro member
  have code := Utf8.toNat_of_mem_encodeChar member (by decide)
  have newline : c = Char.ofNat 0x0A := by
    rw [← Char.ofNat_toNat c, code]
    rfl
  have split := Utf8.first?_eq_some_iff.mp first
  rw [newline] at split
  exact other (List.cons.inj split).1

/-- **A stray byte** is read with the rest of its character, if it starts one. -/
theorem reads_stray (amid : h.Amid [b] rest) (other : b ≠ Byte.newline) :
    Reads h (Lexeme.readStray b rest).1 (h.stray b) := by
  have pos : h.pos = h.start + 1 := amid.pos
  have length := amid.length
  have stop : h.start ≤ min (h.start + width b) h.source.length := by omega
  have bytes : h.source.extract h.start (min (h.start + width b) h.source.length) =
      (b :: rest).take (width b) := by
    rw [List.extract_eq_take_drop, amid.left, List.singleton_append, List.take_eq_take_iff,
      List.length_cons]
    omega
  have cut := slice_of_le stop (Nat.min_le_right _ _)
  have kept := amid.kept_noted stop (Nat.min_le_right _ _)
  rw [bytes] at cut
  rw [stray]
  dsimp only
  rw [cut, Lexeme.readStray]
  change Reads h _ (match character? ((b :: rest).take (width b)) with
    | some c => _
    | none => _)
  cases first : Utf8.first? (b :: rest) with
  | some found =>
      obtain ⟨c, after⟩ := found
      have took := take_of_first? first
      have size := congrArg List.length took
      rw [List.length_take, List.length_cons] at size
      rw [took, character?_encodeChar]
      refine ⟨_, rfl, kept.trans (kept_move _ _ _), ?_, ?_⟩
      · change min (h.start + width b) h.source.length = h.start + (String.utf8EncodeChar c).length
        omega
      · rw [Lexeme.bytes, List.count_eq_zero.mpr (newline_not_mem_of_first? first other)]
        rfl
  | none =>
      have lost : character? ((b :: rest).take (width b)) = none := by
        rw [Option.eq_none_iff_forall_ne_some]
        intro c found
        obtain ⟨after, some⟩ := first?_of_character? found ((b :: rest).drop (width b))
        rw [List.take_append_drop, first] at some
        cases some
      rw [lost]
      refine ⟨_, rfl, kept, pos, ?_⟩
      rw [Lexeme.bytes, List.count_singleton, if_neg (by simpa using other)]
      rfl

/-- **What is no layout is read** as the cursor reads it. -/
theorem reads_lexeme (amid : h.Amid [b] rest) (other : b ≠ Byte.newline) :
    Reads h (Lexeme.read b rest).1 (h.lexeme b) := by
  have apart : Byte.newline ∉ [b] := by simpa using other.symm
  rw [lexeme]
  by_cases slash : b = Byte.slash
  · subst slash
    have text : Utf8.encode Kind.slash.text = [Byte.slash] := rfl
    rw [if_pos rfl]
    exact amid.reads_fixed text apart (.refl h) rfl
  rw [if_neg slash]
  by_cases quote : b = Byte.quote
  · subst quote
    rw [if_pos rfl]
    exact reads_quoted amid
  rw [if_neg quote]
  by_cases digit : Byte.isDigit b = true
  · rw [if_pos digit, Lexeme.read_of_isDigit digit]
    exact reads_numeral amid digit
  rw [if_neg digit]
  by_cases word : Byte.isWordStart b = true
  · rw [if_pos word, Lexeme.read_of_isWordStart word]
    exact reads_word amid word
  rw [if_neg word]
  cases mark : Kind.mark? b with
  | some kind =>
      rw [Lexeme.read_of_mark? mark]
      exact amid.reads_fixed (Kind.encode_text_of_mark? mark) apart (.refl h) rfl
  | none =>
      cases doublable : Kind.doublable? b with
      | some pair =>
          rw [Lexeme.read_of_doublable? doublable]
          exact reads_doublable amid doublable
      | none =>
          have starts : ¬Byte.Starts b := by
            rw [Byte.starts_iff]
            simp [slash, quote, digit, word, mark, doublable]
          rw [Lexeme.read_of_not_starts starts]
          exact reads_stray amid other

end Head

end LoxSyntax
