import LoxSyntax.Proofs.Text.Newlines
import LoxSyntax.Text.Json

/-! # JSON strings read back
A reader of one escaped character takes off exactly what was written for it, whatever follows, and
stops at a quote. So a JSON string tells its text and where it ends. The characters written are
never below the space. -/

namespace LoxSyntax.Json

/-! ## (1) Reading one character -/

/-- The value of a hexadecimal digit. -/
def hexValue (c : Char) : Nat := if c.isDigit then c.toNat - '0'.toNat else c.toNat - 'a'.toNat + 10

/-- The character that is escaped by a letter. -/
def named? : Char → Option Char
  | '"' => some '"'
  | '\\' => some '\\'
  | 'b' => some '\x08'
  | 'f' => some '\x0c'
  | 'n' => some '\n'
  | 'r' => some '\r'
  | 't' => some '\t'
  | _ => none

/-- Read what follows a backslash. -/
def escaped? : List Char → Option (Char × List Char)
  | 'u' :: '0' :: '0' :: high :: low :: rest =>
    some (Char.ofNat (hexValue high * 16 + hexValue low), rest)
  | letter :: rest => (named? letter).map (·, rest)
  | [] => none

/-- **Read one character** of a JSON string. A quote ends the string. -/
def unescape? : List Char → Option (Char × List Char)
  | [] => none
  | c :: rest =>
    if c = '"' then none
    else if c = '\\' then escaped? rest
    else some (c, rest)

theorem hexValue_digitChar : ∀ n < 16, hexValue (Nat.digitChar n) = n := by decide

/-- **A written character is read back**, and nothing after it is taken. -/
theorem unescape?_escape (c : Char) (rest : List Char) :
    unescape? (escape c ++ rest) = some (c, rest) := by
  unfold escape
  split
  next quote => subst quote; rfl
  split
  next backslash => subst backslash; rfl
  split
  next backspace => subst backspace; rfl
  split
  next feed => subst feed; rfl
  split
  next newline => subst newline; rfl
  split
  next back => subst back; rfl
  split
  next tab => subst tab; rfl
  split
  next low =>
    have high := hexValue_digitChar (c.toNat / 16) (by omega)
    have last := hexValue_digitChar (c.toNat % 16) (by omega)
    have whole : Char.ofNat (c.toNat / 16 * 16 + c.toNat % 16) = c := by
      rw [Nat.mul_comm, Nat.div_add_mod]
      exact Char.ofNat_toNat c
    change some (Char.ofNat (hexValue (Nat.digitChar (c.toNat / 16)) * 16 +
      hexValue (Nat.digitChar (c.toNat % 16))), rest) = some (c, rest)
    rw [high, last, whole]
  next quote backslash _ _ _ _ _ _ =>
    simp only [List.cons_append, List.nil_append, unescape?, quote, backslash, if_false]

/-! ## (2) Whole strings -/

/-- Two escaped texts up to a quote have the same characters, and the same after the quote. -/
theorem escape_inj {s t r u : List Char}
    (same : s.flatMap escape ++ '"' :: r = t.flatMap escape ++ '"' :: u) : s = t ∧ r = u := by
  have stops (rest : List Char) : unescape? ('"' :: rest) = none := rfl
  induction s generalizing t with
  | nil =>
    cases t with
    | nil => exact ⟨rfl, List.tail_eq_of_cons_eq same⟩
    | cons d t =>
      have read := congrArg unescape? same
      simp only [List.flatMap_nil, List.nil_append, List.flatMap_cons, List.append_assoc,
        unescape?_escape, stops] at read
      cases read
  | cons c s ih =>
    cases t with
    | nil =>
      have read := congrArg unescape? same
      simp only [List.flatMap_nil, List.nil_append, List.flatMap_cons, List.append_assoc,
        unescape?_escape, stops] at read
      cases read
    | cons d t =>
      have read := congrArg unescape? same
      simp only [List.flatMap_cons, List.append_assoc, unescape?_escape, Option.some.injEq,
        Prod.mk.injEq] at read
      obtain ⟨rfl, rest⟩ := read
      obtain ⟨rfl, after⟩ := ih rest
      exact ⟨rfl, after⟩

/-- **A JSON string ends by itself**: whatever follows two of them, equal beginnings mean equal
texts and equal rests. -/
theorem quote_inj {s t : String} {r u : List Char}
    (same : (quote s).toList ++ r = (quote t).toList ++ u) : s = t ∧ r = u := by
  simp only [quote, String.toList_ofList, List.cons_append, List.append_assoc, List.nil_append,
    List.cons.injEq, true_and] at same
  obtain ⟨text, rest⟩ := escape_inj same
  exact ⟨String.toList_inj.mp text, rest⟩

/-! ## (3) Controls -/

/-- A text is **free of controls** when no character of it is below the space. -/
def FreeOfControls (s : String) : Prop := ∀ c ∈ s.toList, 0x20 ≤ c.toNat

instance (s : String) : Decidable (FreeOfControls s) :=
  List.decidableBAll (fun c : Char => 0x20 ≤ c.toNat) s.toList

theorem FreeOfControls.append {s t : String} (left : FreeOfControls s) (right : FreeOfControls t) :
    FreeOfControls (s ++ t) := by
  intro c member
  rw [String.toList_append, List.mem_append] at member
  exact member.elim (left c) (right c)

/-- Digits are above the space. -/
theorem le_of_isDigit {c : Char} (digit : c.isDigit = true) : 0x20 ≤ c.toNat := by
  simp only [Char.isDigit, Bool.and_eq_true, decide_eq_true_eq, UInt32.le_iff_toNat_le] at digit
  exact Nat.le_trans (by decide) digit.1

theorem freeOfControls_toString (n : Nat) : FreeOfControls (toString n) := by
  intro c member
  have digits : (toString n).toList = Nat.toDigits 10 n := Nat.toList_repr
  rw [digits] at member
  exact le_of_isDigit (Nat.isDigit_of_mem_toDigits (by decide) (by decide) member)

/-- A character below the space is escaped, and what an escape is written with is not below it. -/
theorem le_of_mem_escape {c d : Char} (member : d ∈ escape c) : 0x20 ≤ d.toNat := by
  have digit : ∀ n < 16, 0x20 ≤ (Nat.digitChar n).toNat := by decide
  have letters (a b : Char) (first : 0x20 ≤ a.toNat) (second : 0x20 ≤ b.toNat)
      (member : d ∈ [a, b]) : 0x20 ≤ d.toNat := by
    obtain rfl | rfl : d = a ∨ d = b := by simpa using member
    · exact first
    · exact second
  unfold escape at member
  iterate 7
    split at member
    · exact letters _ _ (by decide) (by decide) member
  split at member
  next low =>
    simp only [numbered, List.mem_cons, List.not_mem_nil, or_false] at member
    obtain rfl | rfl | rfl | rfl | rfl | rfl := member
    iterate 4 decide
    · exact digit _ (by omega)
    · exact digit _ (by omega)
  next high =>
    rw [List.mem_singleton.mp member]
    exact Nat.le_of_not_lt high

/-- **A JSON string is free of controls**, whatever its text. -/
theorem freeOfControls_quote (s : String) : FreeOfControls (quote s) := by
  intro c member
  simp only [quote, String.toList_ofList, List.cons_append, List.mem_cons, List.mem_append,
    List.mem_flatMap, List.not_mem_nil, or_false] at member
  obtain rfl | ⟨d, -, escaped⟩ | rfl := member
  · decide
  · exact le_of_mem_escape escaped
  · decide

/-- The bytes of a text that is free of controls are none of them below the space. -/
theorem FreeOfControls.le_of_mem_encode {s : String} (free : FreeOfControls s) {b : UInt8}
    (member : b ∈ Utf8.encode s) : 0x20 ≤ b.toNat := by
  obtain ⟨c, inside, byte⟩ := List.mem_flatMap.mp member
  by_contra low
  have number := Utf8.toNat_of_mem_encodeChar byte (by omega)
  have := free c inside
  omega

end LoxSyntax.Json
