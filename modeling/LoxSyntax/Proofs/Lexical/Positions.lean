import LoxSyntax.Proofs.Lexical.Head

/-! # Positions
A head that stands where a cursor does gives what the cursor gives (`Head.exists_call`), since each
round of its search passes a piece of layout or reads the lexeme. That is why it has a result: a
round passes one byte at least, so they do not run out, and what it cuts is within the source. After
any calls the head and the cursor still stand at the same place (`head_in_range`).

1. *Cursors*: what comes next, by what is left.
2. *Rounds* of a search.
3. *Calls*, one after the other. -/

namespace LoxSyntax

/-! ## (1) Cursors -/

namespace Cursor

variable {c : Cursor}

/-- To pass over bytes one part after the other is to pass over all of them. -/
theorem pass_pass (c : Cursor) (first second rest rest' : List UInt8) :
    (c.pass first rest).pass second rest' = c.pass (first ++ second) rest' := by
  simp [pass, List.count_append, Nat.add_assoc]

/-- **A piece of layout** is passed over before the next item, and logged. -/
theorem next_of_layout {piece : Layout} {rest : List UInt8} (running : c.ended = false)
    (first : Layout.first? c.rest = some (piece, rest)) :
    c.next = ⟨.dispatch c.line piece.lead :: (c.pass piece.bytes rest).next.records,
      (c.pass piece.bytes rest).next.given, (c.pass piece.bytes rest).next.after⟩ := by
  have running' : (c.pass piece.bytes rest).ended = false := running
  rw [next, next, if_neg (by simp [running]), if_neg (by simp [running'])]
  simp only [Layout.split_of_some first, Layout.records_cons, List.flatMap_cons,
    ← pass_pass c _ _ rest]
  have same : (c.pass piece.bytes rest).rest = rest := rfl
  have line : (c.pass piece.bytes rest).line = c.line + piece.bytes.count Byte.newline := rfl
  rw [same, line]
  generalize (c.pass piece.bytes rest).pass _ (Layout.split rest).2 = here
  cases here.rest with
  | nil => rfl
  | cons b bs => rfl

/-- **Where no layout starts** and bytes are left, the next item is that of the longest lexeme. -/
theorem next_of_bare {b : UInt8} {bs : List UInt8} (running : c.ended = false)
    (left : c.rest = b :: bs) (bare : Layout.first? (b :: bs) = none) :
    let there := c.pass (Lexeme.read b bs).1.bytes (Lexeme.read b bs).2
    let item := (Lexeme.read b bs).1.item ⟨c.offset, there.offset, c.line⟩
    c.next = ⟨.dispatch c.line b :: complaint item, some item, there⟩ := by
  rw [next, if_neg (by simp [running]), left, Layout.split_of_none bare]
  rfl

/-- **At the end of the source** the next item is the end of input. -/
theorem next_of_nil (running : c.ended = false) (left : c.rest = []) :
    c.next = ⟨[], some (.token (.endOfInput ⟨c.offset, c.offset, c.line⟩)),
      { c with ended := true }⟩ := by
  rw [next, if_neg (by simp [running]), left, Layout.split_of_none rfl]
  simp [pass]

end Cursor

/-! ## (2) Rounds -/

namespace Head

/-- The cursor at the position of a head. -/
def cursor (h : Head) : Cursor := ⟨h.source.drop h.pos, h.pos, h.line, h.ended⟩

variable {h h₁ h' : Head} {item : Item} {piece : Layout} {b : UInt8} {rest : List UInt8}

/-- **What a search finds**: what the cursor gives. The head does not go back, and goes on for every
item but the end of input; and it takes no more rounds than there are bytes left, and one. -/
structure Found (h : Head) (item : Item) (h' : Head) : Prop where
  /-- The source stays. -/
  source : h'.source = h.source
  /-- The item, and what is logged, are those of the cursor. -/
  next : ∃ logged, h'.records = h.records ++ logged ∧
    h.cursor.next = ⟨logged ++ Cursor.complaint item, some item, h'.cursor⟩
  /-- Slices are cut in range. -/
  sound : h'.Sound
  /-- The position is within the source. -/
  within : h'.pos ≤ h.source.length
  /-- The position does not go back. -/
  pos : h.pos ≤ h'.pos
  /-- The position goes on. -/
  progress : h.pos < h'.pos ∨ ∃ span, item = .token (.endOfInput span)
  /-- A round for each byte is enough, and one. -/
  rounds : h'.rounds ≤ h.rounds + (h.source.length - h.pos) + 1

/-- **A round that passes a piece of layout.** -/
structure Round (h : Head) (piece : Layout) (h₁ : Head) : Prop where
  /-- The source stays. -/
  source : h₁.source = h.source
  /-- The end of input is not given. -/
  ended : h₁.ended = h.ended
  /-- The bytes of the piece are passed. -/
  pos : h₁.pos = h.pos + piece.bytes.length
  /-- The newlines of the piece are counted. -/
  line : h₁.line = h.line + piece.bytes.count Byte.newline
  /-- The first byte of the piece is logged. -/
  records : h₁.records = h.records ++ [.dispatch h.line piece.lead]
  /-- It is one round. -/
  rounds : h₁.rounds = h.rounds + 1
  /-- Slices are cut in range. -/
  sound : h.Sound → h₁.Sound

/-- A round passes the piece that the cursor passes. -/
theorem Round.cursor (round : Round h piece h₁)
    (first : Layout.first? (h.source.drop h.pos) = some (piece, rest)) :
    h₁.cursor = h.cursor.pass piece.bytes rest := by
  have left : h.source.drop (h.pos + piece.bytes.length) = rest := by
    rw [← List.drop_drop, ← Layout.bytes_first? first, List.drop_left]
  rw [Head.cursor, round.source, round.ended, round.pos, round.line, left]
  rfl

/-- A round passes a byte at least, and stays within the source. -/
theorem Round.bounds (round : Round h piece h₁)
    (first : Layout.first? (h.source.drop h.pos) = some (piece, rest)) :
    h.pos < h₁.pos ∧ h₁.pos ≤ h.source.length := by
  have bytes := congrArg List.length (Layout.bytes_first? first)
  have shorter := Layout.length_first? first
  rw [List.length_append, List.length_drop] at bytes
  rw [List.length_drop] at shorter
  rw [round.pos]
  omega

/-- What is found after a piece of layout is found before it. -/
theorem Round.found (round : Round h piece h₁)
    (first : Layout.first? (h.source.drop h.pos) = some (piece, rest)) (running : h.ended = false)
    (found : Found h₁ item h') : Found h item h' := by
  obtain ⟨lt, within⟩ := round.bounds first
  have source := round.source
  refine ⟨found.source.trans source, ?_, found.sound, source ▸ found.within,
    Nat.le_trans (Nat.le_of_lt lt) found.pos, .inl (Nat.lt_of_lt_of_le lt found.pos), ?_⟩
  · obtain ⟨logged, records, next⟩ := found.next
    refine ⟨.dispatch h.line piece.lead :: logged, ?_, ?_⟩
    · rw [records, round.records, List.append_assoc]
      rfl
    · rw [Cursor.next_of_layout running first, ← round.cursor first, next]
      rfl
  · have rounds := found.rounds
    rw [source, round.rounds] at rounds
    omega

/-- The first byte is passed. -/
theorem amid_dispatched (left : h.source.drop h.pos = b :: rest) :
    (h.dispatched b).Amid [b] rest where
  left := left
  pos := rfl
  within := by
    have length := congrArg List.length left
    rw [List.length_drop, List.length_cons] at length
    change h.pos + 1 ≤ h.source.length
    omega

/-- At the end of the source a search finds the end of input. -/
theorem search_of_nil (left : h.source.drop h.pos = []) (more : Nat) :
    h.search (more + 1) =
      some (.token (.endOfInput h.beginning.span), { h.beginning with ended := true }) := by
  have peek : h.peek = none := by
    rw [Head.peek, ← List.head?_drop, left]
    rfl
  rw [search, peek]

/-- What a search does by the first byte, and the one after it. -/
theorem search_of_cons (left : h.source.drop h.pos = b :: rest) (more : Nat) :
    h.search (more + 1) =
      if b = Byte.newline then search more { h.dispatched b with line := h.line + 1 }
      else if b = Byte.space ∨ b = Byte.tab then search more (h.dispatched b)
      else if b = Byte.slash ∧ rest.head? = some Byte.slash then
        (h.dispatched b).skipLine.bind (search more)
      else (h.dispatched b).lexeme b := by
  have peek : h.peek = some b := by
    rw [Head.peek, ← List.head?_drop, left]
    rfl
  rw [search, peek, ← (amid_dispatched left).peek_eq]
  rfl

/-- A byte of layout that stands for itself is passed in one round. -/
theorem round_byte (piece : Layout) (bytes : piece.bytes = [piece.lead]) (h : Head) :
    Round h piece { h.dispatched piece.lead with
      line := h.line + piece.bytes.count Byte.newline } :=
  ⟨rfl, rfl, by rw [bytes]; rfl, rfl, rfl, rfl, id⟩

/-- A comment is passed in one round. -/
theorem round_comment (left : h.source.drop h.pos = Byte.slash :: Byte.slash :: rest) :
    ∃ h₁, (h.dispatched Byte.slash).skipLine = some h₁ ∧
      Round h (.comment (rest.takeWhile Layout.runsOn)) h₁ := by
  have amid := amid_dispatched left
  have line := skipLine_eq amid.within
  rw [amid.drop] at line
  refine ⟨_, line, rfl, rfl, ?_, ?_, rfl, rfl, amid.kept_left.sound⟩
  · change h.pos + 1 + (Byte.slash :: rest.takeWhile Layout.runsOn).length =
      h.pos + (rest.takeWhile Layout.runsOn).length.succ.succ
    rw [List.length_cons]
    omega
  · exact line_run (p := Layout.runsOn) rfl rfl (Byte.slash :: rest) h.line

/-- Where no layout starts, the lexeme is found that the cursor gives. -/
theorem exists_found_lexeme (running : h.ended = false) (sound : h.Sound)
    (left : h.source.drop h.pos = b :: rest) (bare : Layout.first? (b :: rest) = none)
    (other : b ≠ Byte.newline) :
    ∃ item h', (h.dispatched b).lexeme b = some (item, h') ∧ Found h item h' := by
  obtain ⟨h', read, kept, pos, line⟩ := reads_lexeme (amid_dispatched left) other
  have source : h'.source = h.source := kept.source
  have bytes := Lexeme.bytes_read b rest
  rw [← left] at bytes
  have size := congrArg List.length bytes
  have shorter := Lexeme.length_read b rest
  rw [List.length_append, left, List.length_cons] at size
  have length := congrArg List.length left
  rw [List.length_drop, List.length_cons] at length
  change h'.pos = h.pos + _ at pos
  refine ⟨_, h', read, source, ⟨[.dispatch h.line b], kept.records, ?_⟩, kept.sound sound,
    by omega, by omega, .inl (by omega), ?_⟩
  · have there : h'.cursor =
        h.cursor.pass (Lexeme.read b rest).1.bytes (Lexeme.read b rest).2 := by
      have after : h.source.drop h'.pos = (Lexeme.read b rest).2 := by
        rw [pos, ← List.drop_drop, ← bytes, List.drop_left]
      rw [Head.cursor, source, after, kept.ended, pos, line]
      rfl
    have span : h'.span = ⟨h.cursor.offset, h'.cursor.offset, h.cursor.line⟩ := by
      rw [Head.span, kept.start, kept.startLine]
      rfl
    rw [Cursor.next_of_bare running left bare, ← there, ← span]
    rfl
  · rw [kept.rounds]
    change h.rounds + 1 ≤ _
    omega

/-- **A search finds** what the cursor gives, if it may take a round for every byte, and one. -/
theorem exists_found {left : Nat} (running : h.ended = false) (sound : h.Sound)
    (within : h.pos ≤ h.source.length) (enough : h.source.length - h.pos < left) :
    ∃ item h', h.search left = some (item, h') ∧ Found h item h' := by
  induction left generalizing h with
  | zero => exact absurd enough (Nat.not_lt_zero _)
  | succ left ih =>
      -- After a round that passes layout, fewer bytes are left.
      have again : ∀ {piece rest h₁}, Layout.first? (h.source.drop h.pos) = some (piece, rest) →
          Round h piece h₁ → ∃ item h', h₁.search left = some (item, h') ∧ Found h item h' := by
        intro piece rest h₁ first round
        obtain ⟨lt, within₁⟩ := round.bounds first
        have enough₁ : h.source.length - h₁.pos < left := by omega
        rw [← round.source] at within₁ enough₁
        obtain ⟨item, h', searched, found⟩ :=
          ih (round.ended.trans running) (round.sound sound) within₁ enough₁
        exact ⟨item, h', searched, round.found first running found⟩
      cases bytes : h.source.drop h.pos with
      | nil =>
          refine ⟨_, _, search_of_nil bytes left, rfl, ⟨[], ?_, ?_⟩, sound, within, Nat.le_refl _,
            .inr ⟨_, rfl⟩, Nat.add_le_add_right (Nat.le_add_right _ _) 1⟩
          · exact (List.append_nil _).symm
          · exact Cursor.next_of_nil running bytes
      | cons b rest =>
          rw [search_of_cons bytes]
          rw [bytes] at again
          by_cases newline : b = Byte.newline
          · subst newline
            rw [if_pos rfl]
            exact again rfl (round_byte .newline rfl h)
          rw [if_neg newline]
          by_cases blank : b = Byte.space ∨ b = Byte.tab
          · rw [if_pos blank]
            rcases blank with rfl | rfl
            · exact again rfl (round_byte .space rfl h)
            · exact again rfl (round_byte .tab rfl h)
          rw [if_neg blank]
          by_cases slashes : b = Byte.slash ∧ rest.head? = some Byte.slash
          · rw [if_pos slashes]
            obtain ⟨rfl, second⟩ := slashes
            obtain ⟨rest, rfl⟩ := List.head?_eq_some_iff.mp second
            obtain ⟨h₁, skipped, round⟩ := round_comment bytes
            rw [skipped]
            exact again rfl round
          rw [if_neg slashes]
          have bare : IsBare (b :: rest) := by
            constructor
            · rintro c ⟨⟩
              exact ⟨fun space => blank (.inl space), fun tab => blank (.inr tab), newline⟩
            · rintro ⟨more, same⟩
              cases same
              exact slashes ⟨rfl, rfl⟩
          exact exists_found_lexeme running sound bytes (Layout.isBare_iff.mp bare) newline

/-! ## (3) Calls -/

/-- **What a call does**: it gives and logs what the cursor does. The head does not go back and goes
on for every item but the end of input, within the source; the rounds of the search are no more than
the bytes left, and one; and the slices are in range. -/
structure Call (h : Head) (given : Option Item) (h' : Head) : Prop where
  /-- The call has a result. -/
  called : h.next = some (given, h')
  /-- The source stays. -/
  source : h'.source = h.source
  /-- What is given and logged is what the cursor gives and logs. -/
  next : h.cursor.next = ⟨h'.records, given, h'.cursor⟩
  /-- The position does not go back. -/
  pos : h.pos ≤ h'.pos
  /-- The position is within the source. -/
  within : h'.pos ≤ h.source.length
  /-- The position goes on. -/
  progress : ∀ item, given = some item → h.pos < h'.pos ∨ ∃ span, item = .token (.endOfInput span)
  /-- A round for each byte is enough, and one. -/
  rounds : h'.rounds ≤ h.source.length - h.pos + 1
  /-- Slices are cut in range. -/
  sound : h'.Sound

/-- **Every call has a result.** -/
theorem exists_call (within : h.pos ≤ h.source.length) : ∃ given h', Call h given h' := by
  have sound : h.cleared.Sound := List.forall_mem_nil _
  cases running : h.ended with
  | true =>
      refine ⟨none, h.cleared, ?_, rfl, ?_, Nat.le_refl _, within, ?_, Nat.zero_le _, sound⟩
      · rw [Head.next, if_pos running]
      · rw [Cursor.next, if_pos (show h.cursor.ended = true from running)]
        rfl
      · intro item none
        cases none
  | false =>
      have enough : h.source.length - h.pos < h.source.length + 1 :=
        Nat.lt_succ_of_le (Nat.sub_le _ _)
      obtain ⟨item, h', searched, found⟩ :=
        exists_found (h := h.cleared) running sound within enough
      obtain ⟨logged, records, next⟩ := found.next
      refine ⟨some item, { h' with records := h'.records ++ Cursor.complaint item }, ?_,
        found.source, ?_, found.pos, found.within, ?_, ?_, found.sound⟩
      · rw [Head.next, if_neg (by simp [running]), searched]
        rfl
      · rw [records]
        exact next
      · intro other given
        cases given
        exact found.progress
      · have rounds := found.rounds
        change h'.rounds ≤ 0 + (h.source.length - h.pos) + 1 at rounds
        rwa [Nat.zero_add] at rounds

/-- **After any calls** the head stands where the cursor does. -/
theorem exists_afterCalls (within : h.pos ≤ h.source.length) (calls : Nat) :
    ∃ h', h.afterCalls calls = some h' ∧ h'.source = h.source ∧ h'.pos ≤ h.source.length ∧
      h'.cursor = Supply.after calls h.cursor := by
  induction calls generalizing h with
  | zero => exact ⟨h, rfl, rfl, within, rfl⟩
  | succ calls ih =>
      obtain ⟨given, h₁, call⟩ := exists_call within
      have within₁ : h₁.pos ≤ h₁.source.length := by
        rw [call.source]
        exact call.within
      obtain ⟨h', after, source, within', cursor⟩ := ih within₁
      refine ⟨h', ?_, source.trans call.source, call.source ▸ within', ?_⟩
      · rw [afterCalls, call.called]
        exact after
      · rw [cursor, Supply.after]
        change _ = Supply.after calls h.cursor.next.after
        rw [call.next]

end Head

/-- **A head stays in range, and makes progress.** After any calls over any source, the next call
has a result: no slice is out of bounds, and the rounds do not run out.

- It gives the item of the scan that is due, and logs what the cursor logs.
- The position does not go back, and is within the source.
- The search takes no more rounds than there are bytes left, and one.
- At every slice the item began before the position or at it, the position is within the source, and
  so is the slice.
- For every item but the end of input the position goes on.

A whole scan has no more items than the source has bytes, and one. -/
theorem head_in_range (source : List UInt8) (calls : Nat) :
    (scan source).length ≤ source.length + 1 ∧
    ∃ h h' : Head, (Head.atStart source).afterCalls calls = some h ∧
      h.next = some ((scan source)[calls]?, h') ∧
      h.cursor.next = ⟨h'.records, (scan source)[calls]?, h'.cursor⟩ ∧
      h.pos ≤ h'.pos ∧ h'.pos ≤ source.length ∧
      h'.rounds ≤ source.length - h.pos + 1 ∧
      (∀ slice ∈ h'.slices, slice.InRange source.length) ∧
      ∀ item, (scan source)[calls]? = some item →
        h.pos < h'.pos ∨ ∃ span, item = .token (.endOfInput span) := by
  refine ⟨(scans_scan source).length_le, ?_⟩
  obtain ⟨h, after, same, within, cursor⟩ :=
    Head.exists_afterCalls (h := .atStart source) (Nat.zero_le _) calls
  change h.source = source at same
  change h.pos ≤ source.length at within
  obtain ⟨given, h', call⟩ := Head.exists_call (h := h) (by rw [same]; exact within)
  -- The item that is due is the one that the cursor gives there.
  have due : given = (scan source)[calls]? := by
    have gives := Cursor.gives_start source calls
    rw [show Cursor.start source = (Head.atStart source).cursor from rfl, ← cursor] at gives
    change h.cursor.next.given = _ at gives
    rwa [call.next] at gives
  subst due
  have sound := call.sound
  rw [Head.Sound, call.source, same] at sound
  have rounds := call.rounds
  have within' := call.within
  rw [same] at rounds within'
  exact ⟨h, h', after, call.called, call.next, call.pos, within', rounds, sound, call.progress⟩

end LoxSyntax
