import LoxSyntax.Proofs.Lexical.Insertion

/-! # Lexemes with blanks between them
Blanks end every lexeme that is a token. So where at least one of them stands between any two, a
source has the items of the lexemes it was written from, and no others (`Spaced.contents_eq`).

1. *Lexemes that blanks end*: fixed texts, numerals and quoted texts.
2. *Rows of lexemes*: lexeme by lexeme. -/

namespace LoxSyntax

/-! ## (1) Lexemes that blanks end -/

/-- **Bytes that start with a blank**, if there are any. -/
def StartsBlank (rest : List UInt8) : Prop :=
  ∀ b ∈ rest.head?, b = Byte.space ∨ b = Byte.tab ∨ b = Byte.newline

/-- No run of a class goes on over a blank that is not of the class. -/
theorem StartsBlank.stops {rest : List UInt8} (blank : StartsBlank rest) {p : UInt8 → Bool}
    (space : p Byte.space = false) (tab : p Byte.tab = false) (newline : p Byte.newline = false) :
    Stops p rest := by
  intro b first
  rcases blank b first with rfl | rfl | rfl
  · exact space
  · exact tab
  · exact newline

/-- A byte that is no blank does not come next. -/
theorem StartsBlank.head?_ne {rest : List UInt8} (blank : StartsBlank rest) {b : UInt8}
    (other : b ≠ Byte.space ∧ b ≠ Byte.tab ∧ b ≠ Byte.newline) : rest.head? ≠ some b := by
  intro first
  rcases blank b first with rfl | rfl | rfl
  · exact other.1 rfl
  · exact other.2.1 rfl
  · exact other.2.2 rfl

/-- A token before a blank stands in bare bytes. -/
theorem Lexes.isBare {span : Span} {bytes rest : List UInt8} {t : Token}
    (lexes : Lexes span bytes rest (.token t)) (blank : StartsBlank rest) :
    IsBare (bytes ++ rest) := by
  obtain ⟨b, bs, lexeme, split, found, same⟩ := Lexeme.read_of_lexes lexes
  rw [split]
  constructor
  · -- At a blank a stray character would be read.
    intro c first
    cases first
    refine ⟨?_, ?_, ?_⟩
    all_goals
      rintro rfl
      cases found
      cases same
  · rintro ⟨more, starts⟩
    obtain ⟨rfl, rfl⟩ := List.cons.inj starts
    -- At a slash the slash alone would be read, and the second one comes next.
    cases found
    exact blank.head?_ne (by decide) rfl

namespace Lexeme

/-- **A lexeme that blanks end**: before a blank, and at the end of a source, it is read as it is
written. -/
def Separable (l : Lexeme) : Prop :=
  ∀ span rest, StartsBlank rest →
    Lexes span l.bytes rest (l.item span) ∧ IsBare (l.bytes ++ rest)

/-- A lexeme that is a token is separable if it is lexed before blanks. -/
theorem separable_of_token {l : Lexeme} (token : ∀ span, ∃ t, l.item span = .token t)
    (lexes : ∀ span rest, StartsBlank rest → Lexes span l.bytes rest (l.item span)) :
    l.Separable := by
  intro span rest blank
  have here := lexes span rest blank
  obtain ⟨t, same⟩ := token span
  refine ⟨here, ?_⟩
  rw [same] at here
  exact here.isBare blank

/-- Every kind whose tokens have the same text is a mark, an operator that an equals sign may
follow, one that it makes, the slash or a reserved word. The end of input has no text. -/
theorem kind_of_text? (k : Kind) (fixed : k.text?.isSome = true) (written : k ≠ .endOfInput) :
    k ∈ Kind.marks ∨ k ∈ Kind.doublables.map (·.1) ∨ k ∈ Kind.doublables.map (·.2) ∨
      k = .slash ∨ k ∈ Kind.words := by
  have sorted : ∀ k ∈ Kind.all, k.text?.isSome = true → k ≠ .endOfInput →
      k ∈ Kind.marks ∨ k ∈ Kind.doublables.map (·.1) ∨ k ∈ Kind.doublables.map (·.2) ∨
        k = .slash ∨ k ∈ Kind.words := by
    decide
  exact sorted k (Kind.mem_all k) fixed written

/-- Reserved words are written with letters. -/
theorem exists_run_of_word {k : Kind} (listed : k ∈ Kind.words) :
    ∃ b run, Utf8.encode k.text = b :: run ∧ Byte.isWordStart b = true ∧
      ∀ c ∈ run, Byte.isWordPart c = true := by
  have letters : ∀ k ∈ Kind.words, (Utf8.encode k.text).head?.any Byte.isWordStart = true ∧
      (Utf8.encode k.text).tail.all Byte.isWordPart = true := by
    decide +kernel
  obtain ⟨starts, runs⟩ := letters k listed
  cases text : Utf8.encode k.text with
  | nil =>
      rw [text] at starts
      cases starts
  | cons b run =>
      rw [text] at starts runs
      exact ⟨b, run, rfl, starts, List.all_eq_true.mp runs⟩

/-- **A fixed text is separable.** -/
theorem separable_fixed {k : Kind} (fixed : k.text?.isSome = true) (written : k ≠ .endOfInput) :
    (Lexeme.fixed k).Separable := by
  refine separable_of_token (fun _ => ⟨_, rfl⟩) fun span rest blank => ?_
  -- Only an operator alone, the slash and a word need to know what comes next.
  rcases kind_of_text? k fixed written with mark | single | double | rfl | word
  · exact .mark mark
  · obtain ⟨pair, listed, rfl⟩ := List.mem_map.mp single
    exact .alone listed (blank.head?_ne (by decide))
  · obtain ⟨pair, listed, rfl⟩ := List.mem_map.mp double
    exact .joined listed
  · have alone : Lexes span [Byte.slash] rest (.token (.fixed .slash span)) :=
      .slash (blank.head?_ne (by decide))
    exact alone
  · obtain ⟨b, run, text, starts, runs⟩ := exists_run_of_word word
    have stops : Stops Byte.isWordPart rest := blank.stops rfl rfl rfl
    have reserved : Lexes span (b :: run) rest (.token (.fixed k span)) :=
      .reserved starts runs stops word text
    rw [← text] at reserved
    exact reserved

/-- **A numeral is separable.** -/
theorem separable_numeral {b : UInt8} {run : List UInt8} (digit : Byte.isDigit b = true)
    (runs : ∀ c ∈ run, Byte.isNumeralPart c = true) : (numeral (b :: run)).Separable :=
  separable_of_token (fun _ => ⟨_, rfl⟩) fun _ _ blank =>
    .number digit runs (blank.stops rfl rfl rfl)

/-- **A quoted text is separable**, before whatever comes next. -/
theorem separable_quoted {content : List UInt8} (inside : Byte.quote ∉ content) :
    (quoted content).Separable :=
  separable_of_token (fun _ => ⟨_, rfl⟩) fun _ _ _ => .string inside

/-! ## (2) Rows of lexemes -/

/-- The item of a lexeme without its place is its item at the origin. -/
theorem unplaced_item (l : Lexeme) (span : Span) : (l.item span).unplaced = l.item .origin := by
  cases l <;> rfl

/-- The contents of a source that begins with a separable lexeme. -/
theorem Separable.contents_append {l : Lexeme} (separable : l.Separable) {rest : List UInt8}
    (blank : StartsBlank rest) : contents (l.bytes ++ rest) = l.item .origin :: contents rest := by
  obtain ⟨lexes, bare⟩ := separable .origin rest blank
  have whole := contents_of_lexes .nil bare lexes
  rw [unplaced_item, List.nil_append] at whole
  exact whole

end Lexeme

/-- **A row of lexemes with blanks between them**, at least one between any two. -/
inductive Spaced : List Lexeme → List UInt8 → Prop where
  /-- One lexeme. -/
  | one (l : Lexeme) : Spaced [l] l.bytes
  /-- A lexeme, blanks, and the lexemes after them. -/
  | more {ls : List Lexeme} {gap text : List UInt8} (l : Lexeme)
    (blank : ∀ b ∈ gap, b = Byte.space ∨ b = Byte.tab ∨ b = Byte.newline) (apart : gap ≠ [])
    (spaced : Spaced ls text) : Spaced (l :: ls) (l.bytes ++ (gap ++ text))

/-- Blanks are layout. -/
theorem isLayout_of_blank {gap : List UInt8}
    (blank : ∀ b ∈ gap, b = Byte.space ∨ b = Byte.tab ∨ b = Byte.newline) : IsLayout gap := by
  induction gap with
  | nil => exact .nil
  | cons b gap ih =>
      obtain ⟨first, more⟩ := List.forall_mem_cons.mp blank
      exact .blank first (ih more)

/-- **A row of separable lexemes has their items**, and the end of input. -/
theorem Spaced.contents_eq {ls : List Lexeme} {text : List UInt8} (spaced : Spaced ls text)
    (separable : ∀ l ∈ ls, l.Separable) :
    contents text = ls.map (·.item .origin) ++ [.token (.endOfInput .origin)] := by
  induction spaced with
  | one l =>
      have blank : StartsBlank [] := fun b first => by cases first
      have whole := (separable l List.mem_cons_self).contents_append blank
      rw [List.append_nil] at whole
      rw [whole, contents_of_isGap .nil]
      rfl
  | @more ls gap text l blank apart spaced ih =>
      obtain ⟨first, others⟩ := List.forall_mem_cons.mp separable
      -- The blanks end the lexeme before them, and are layout before the one after them.
      have starts : StartsBlank (gap ++ text) := by
        obtain ⟨b, gap, rfl⟩ := List.exists_cons_of_ne_nil apart
        intro c head
        cases head
        exact blank b List.mem_cons_self
      rw [first.contents_append starts, contents_append_of_isLayout (isLayout_of_blank blank),
        ih others]
      rfl

end LoxSyntax
