import LoxSyntax.Proofs.Command.Sinks
import LoxSyntax.Proofs.Number.Reading
import LoxSyntax.Proofs.Text.Json

/-! # The JSON dump
A dump in JSON has one line for each token. No line has a byte below the space in it, so the newline
after each of them shows where it ends. And a line tells its token, up to the literals that are all
written `null`: fields are taken off a line one by one, each up to a mark that it does not hold,
except for strings, which end by themselves.

1. *Literals* apart from each other, whatever follows them.
2. *Lines*: what they hold, and what they tell.
3. *The dump* of a source. -/

namespace LoxSyntax

/-! ## (1) Literals -/

/-- Whether a literal is written as **null**: it is absent, it is the absent value, or it is a
number that JSON does not have. -/
def IsNull : Option Value → Prop
  | none => True
  | some .nil => True
  | some (.number x) => x.isFinite = false
  | some (.bool _) => False
  | some (.string _) => False

namespace Token

/-- The JSON of the literal of a token. -/
def literalJson (literal : Option Value) : String := literal.elim "null" Value.json

theorem literalJson_of_isNull {literal : Option Value} (null : IsNull literal) :
    literalJson literal = "null" := by
  match literal, null with
  | none, _ => rfl
  | some .nil, _ => rfl
  | some (.number x), infinite =>
    change x.json = "null"
    rw [Binary64.json, if_neg (by rw [show x.isFinite = false from infinite]; decide)]

/-- The JSON of what is no string holds neither quotes nor commas. -/
theorem free_literalJson {literal : Option Value} (other : ∀ s, literal ≠ some (.string s)) :
    '"' ∉ (literalJson literal).toList ∧ ',' ∉ (literalJson literal).toList := by
  match literal, other with
  | none, _ => simp [literalJson]
  | some .nil, _ => simp [literalJson, Value.json]
  | some (.bool b), _ => cases b <;> simp [literalJson, Value.json]
  | some (.number x), _ =>
    constructor <;> intro member
    all_goals
      rcases Binary64.mem_json member with digit | letter
      · cases digit
      · simp at letter
  | some (.string s), other => exact absurd rfl (other s)

/-- A literal that is no string is written as null, or it is a truth value or a finite number. -/
theorem literal_cases {literal : Option Value} (other : ∀ s, literal ≠ some (.string s)) :
    IsNull literal ∨ (∃ b, literal = some (.bool b)) ∨
      ∃ x, literal = some (.number x) ∧ x.isFinite = true := by
  match literal, other with
  | none, _ => exact .inl trivial
  | some .nil, _ => exact .inl trivial
  | some (.bool b), _ => exact .inr (.inl ⟨b, rfl⟩)
  | some (.number x), _ =>
    cases finite : x.isFinite with
    | false => exact .inl finite
    | true => exact .inr (.inr ⟨x, rfl, finite⟩)
  | some (.string s), other => exact absurd rfl (other s)

/-- A finite number is written as no other literal is, save for strings. -/
theorem literalJson_ne_number {literal : Option Value} {x : Binary64}
    (word : IsNull literal ∨ ∃ b, literal = some (.bool b)) (finite : x.isFinite = true) :
    literalJson literal ≠ literalJson (some (.number x)) := by
  have letters : ∀ text ∈ ["null", "true", "false"], ∀ c ∈ text.toList.head?,
      c.isDigit = false ∧ c ≠ '-' := by simp
  have member : literalJson literal ∈ ["null", "true", "false"] := by
    rcases word with null | ⟨b, rfl⟩
    · rw [literalJson_of_isNull null]
      simp
    · cases b <;> simp [literalJson, Value.json]
  intro same
  obtain ⟨c, more, text, first⟩ := Binary64.exists_head_json finite
  obtain ⟨noDigit, noMinus⟩ := letters _ member c (by rw [same, literalJson]; exact congrArg _ text)
  rcases first with digit | minus
  · rw [digit] at noDigit
    cases noDigit
  · exact noMinus minus

/-- **Literals that are no strings** have the same JSON only if they are the same, or if both are
written as null. -/
theorem literalJson_inj {v w : Option Value} (vOther : ∀ s, v ≠ some (.string s))
    (wOther : ∀ s, w ≠ some (.string s)) (same : literalJson v = literalJson w) :
    v = w ∨ IsNull v ∧ IsNull w := by
  have notTruth (b : Bool) : literalJson (some (.bool b)) ≠ "null" := by
    cases b <;> simp [literalJson, Value.json]
  rcases literal_cases vOther with vNull | ⟨b, rfl⟩ | ⟨x, rfl, xFinite⟩ <;>
    rcases literal_cases wOther with wNull | ⟨c, rfl⟩ | ⟨y, rfl, yFinite⟩
  · exact .inr ⟨vNull, wNull⟩
  · exact absurd (same.symm.trans (literalJson_of_isNull vNull)) (notTruth c)
  · exact absurd same (literalJson_ne_number (.inl vNull) yFinite)
  · exact absurd (same.trans (literalJson_of_isNull wNull)) (notTruth b)
  · cases b <;> cases c <;> simp [literalJson, Value.json] at same ⊢
  · exact absurd same (literalJson_ne_number (.inr ⟨b, rfl⟩) yFinite)
  · exact absurd same.symm (literalJson_ne_number (.inl wNull) xFinite)
  · exact absurd same.symm (literalJson_ne_number (.inr ⟨c, rfl⟩) xFinite)
  · exact .inl (congrArg (some ∘ Value.number) (Binary64.json_inj xFinite yFinite same))

/-- What is no string is not taken for one, whatever follows the two. -/
theorem literalJson_ne_quote {literal : Option Value} (other : ∀ s, literal ≠ some (.string s))
    {s : String} {r u : List Char} :
    (literalJson literal).toList ++ ',' :: r ≠ (Json.quote s).toList ++ u := by
  intro same
  have quoteless := (free_literalJson other).1
  simp only [Json.quote, String.toList_ofList, List.cons_append] at same
  cases text : (literalJson literal).toList with
  | nil =>
    rw [text] at same
    cases List.head_eq_of_cons_eq same
  | cons c more =>
    rw [text] at same quoteless
    have first : c = '"' := List.head_eq_of_cons_eq same
    exact quoteless (first ▸ List.mem_cons_self)

/-- **Literals are apart**: up to the comma after them, equal JSON tells equal literals, save for
those that are written as null. -/
theorem literalJson_append_inj {v w : Option Value} {r u : List Char}
    (same : (literalJson v).toList ++ ',' :: r = (literalJson w).toList ++ ',' :: u) :
    (v = w ∨ IsNull v ∧ IsNull w) ∧ r = u := by
  by_cases vString : ∃ s, v = some (.string s) <;> by_cases wString : ∃ s, w = some (.string s)
  · obtain ⟨s, rfl⟩ := vString
    obtain ⟨t, rfl⟩ := wString
    obtain ⟨text, rest⟩ := Json.quote_inj same
    exact ⟨.inl (congrArg (some ∘ Value.string) text), (List.cons.inj rest).2⟩
  · obtain ⟨s, rfl⟩ := vString
    exact absurd same.symm (literalJson_ne_quote (not_exists.mp wString))
  · obtain ⟨t, rfl⟩ := wString
    exact absurd same (literalJson_ne_quote (not_exists.mp vString))
  · have vFree := (free_literalJson (not_exists.mp vString)).2
    have wFree := (free_literalJson (not_exists.mp wString)).2
    obtain ⟨text, rest⟩ := append_mark_inj vFree wFree same
    exact ⟨literalJson_inj (not_exists.mp vString) (not_exists.mp wString)
      (String.toList_inj.mp text), rest⟩

/-! ## (2) Lines -/

/-- The fields of a line, one after the other. -/
theorem toList_json (t : Token) :
    t.json.toList = "\x7b\"kind\":\"".toList ++ (t.kind.name.toList ++ '"' ::
      (",\"lexeme\":".toList ++ ((Json.quote t.lexeme).toList ++
      (",\"literal\":".toList ++ ((literalJson t.literal).toList ++ ',' ::
      ("\"start\":".toList ++ (Nat.toDigits 10 t.span.start ++ ',' ::
      ("\"end\":".toList ++ (Nat.toDigits 10 t.span.stop ++ ',' ::
      ("\"line\":".toList ++ (Nat.toDigits 10 t.span.line ++ ['\x7d']))))))))))) := by
  have digits (n : Nat) : (toString n).toList = Nat.toDigits 10 n := Nat.toList_repr
  unfold json
  simp only [String.toList_append, List.append_assoc, digits]
  rfl

/-- The name of a kind has no quotes. -/
theorem quote_notMem_name (k : Kind) : '"' ∉ k.name.toList := by
  cases k <;> simp [Kind.name]

/-- A natural number is told by its digits, whatever mark ends them. -/
theorem toDigits_append_inj {m n : Nat} {mark : Char} {r u : List Char}
    (other : mark.isDigit = false)
    (same : Nat.toDigits 10 m ++ mark :: r = Nat.toDigits 10 n ++ mark :: u) : m = n ∧ r = u := by
  have free (n : Nat) : mark ∉ Nat.toDigits 10 n :=
    free_of_digits
      (fun c member => Nat.isDigit_of_mem_toDigits (by decide) (by decide) member) other
  obtain ⟨digits, rest⟩ := append_mark_inj (free m) (free n) same
  have value := congrArg (Nat.ofDigitChars 10 · 0) digits
  simp only [Nat.ofDigitChars_toDigits (b := 10) (by decide) (by decide)] at value
  exact ⟨value, rest⟩

/-- **A line tells its token**, up to the literals that are written as null. -/
theorem eq_of_json {s t : Token} (same : s.json = t.json) :
    s.kind = t.kind ∧ s.lexeme = t.lexeme ∧ s.span = t.span ∧
      (s.literal = t.literal ∨ IsNull s.literal ∧ IsNull t.literal) := by
  have fields := congrArg String.toList same
  rw [toList_json, toList_json] at fields
  -- What stands between two fields is the same in every line, and each field ends at a mark or by
  -- itself, so the fields come off from left to right.
  obtain ⟨name, fields⟩ := append_mark_inj (quote_notMem_name _) (quote_notMem_name _)
    (List.append_cancel_left fields)
  obtain ⟨lexeme, fields⟩ := Json.quote_inj (List.append_cancel_left fields)
  obtain ⟨literal, fields⟩ := literalJson_append_inj (List.append_cancel_left fields)
  obtain ⟨start, fields⟩ := toDigits_append_inj rfl (List.append_cancel_left fields)
  obtain ⟨stop, fields⟩ := toDigits_append_inj rfl (List.append_cancel_left fields)
  obtain ⟨line, -⟩ := toDigits_append_inj rfl (List.append_cancel_left fields)
  have kind : s.kind = t.kind := by
    have found := congrArg Kind.ofName? (String.toList_inj.mp name)
    rw [Kind.ofName?_name, Kind.ofName?_name] at found
    exact Option.some.inj found
  refine ⟨kind, lexeme, ?_, literal⟩
  cases span : s.span
  cases span' : t.span
  rw [span, span'] at start stop line
  cases start
  cases stop
  cases line
  rfl

/-- A line is told by its token, and literals that are written as null are written alike. -/
theorem json_congr {s t : Token} (kind : s.kind = t.kind) (lexeme : s.lexeme = t.lexeme)
    (span : s.span = t.span)
    (literal : s.literal = t.literal ∨ IsNull s.literal ∧ IsNull t.literal) :
    s.json = t.json := by
  have written : literalJson s.literal = literalJson t.literal := by
    rcases literal with same | ⟨sNull, tNull⟩
    · rw [same]
    · rw [literalJson_of_isNull sNull, literalJson_of_isNull tNull]
  rw [← String.toList_inj, toList_json, toList_json, kind, lexeme, span, written]

theorem freeOfControls_name (k : Kind) : Json.FreeOfControls k.name := by
  have each : ∀ k ∈ Kind.all, Json.FreeOfControls k.name := by decide +kernel
  exact each k k.mem_all

theorem freeOfControls_literalJson (literal : Option Value) :
    Json.FreeOfControls (literalJson literal) := by
  match literal with
  | none => decide +kernel
  | some .nil => decide +kernel
  | some (.bool b) => cases b <;> decide +kernel
  | some (.number x) =>
    have letters : ∀ c ∈ ['.', 'e', '-', '+', 'n', 'u', 'l'], 0x20 ≤ c.toNat := by simp
    intro c member
    rcases Binary64.mem_json member with digit | letter
    · exact Json.le_of_isDigit digit
    · exact letters c letter
  | some (.string s) => exact Json.freeOfControls_quote s

/-- **A line is free of controls**, whatever the lexeme and the literal of its token. -/
theorem freeOfControls_json (t : Token) : Json.FreeOfControls t.json := by
  unfold json
  iterate 12 refine Json.FreeOfControls.append ?_ ?_
  · decide +kernel
  · exact freeOfControls_name t.kind
  · decide +kernel
  · exact Json.freeOfControls_quote t.lexeme
  · decide +kernel
  · exact freeOfControls_literalJson t.literal
  · decide +kernel
  · exact Json.freeOfControls_toString t.span.start
  · decide +kernel
  · exact Json.freeOfControls_toString t.span.stop
  · decide +kernel
  · exact Json.freeOfControls_toString t.span.line
  · decide +kernel

end Token

/-! ## (3) The dump -/

namespace Command

/-- **The JSON dump is framed and faithful.** A source is dumped as the lines of its tokens, in
their order, each with a newline. No line of a token, whatever it holds, has a byte below the space,
so those newlines are the only ones. And two tokens have the same line exactly if they have the same
kind, lexeme and span, and the same literal, number for number bit by bit, or literals that are both
written as null. -/
theorem json_dump_faithful :
    (∀ source, ((tokenize true).unlimited source).1.out.kept.toList =
      (tokens source).flatMap fun t => Utf8.encode t.json ++ [Byte.newline]) ∧
    (∀ t : Token, ∀ b ∈ Utf8.encode t.json, 0x20 ≤ b.toNat) ∧
    (∀ s t : Token, s.json = t.json ↔
      s.kind = t.kind ∧ s.lexeme = t.lexeme ∧ s.span = t.span ∧
        (s.literal = t.literal ∨ IsNull s.literal ∧ IsNull t.literal)) := by
  refine ⟨fun source => ?_, fun t b member => t.freeOfControls_json.le_of_mem_encode member,
    fun s t => ⟨Token.eq_of_json, ?_⟩⟩
  · have kept := kept_unlimited (tokenize true) source .out
    rw [bytesOn_eq_flatMap, textsOn_out_tokenize, List.flatMap_map] at kept
    exact kept
  · rintro ⟨kind, lexeme, span, literal⟩
    exact Token.json_congr kind lexeme span literal

end Command

end LoxSyntax
