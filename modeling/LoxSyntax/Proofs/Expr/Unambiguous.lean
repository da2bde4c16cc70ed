import LoxSyntax.Expr.Basic
import LoxSyntax.Proofs.Number.Plain

/-! # Canonical texts tell their trees
In a canonical text every composite node stands in parentheses, and its symbol and its operands have
one space before each of them but the first. A minus may be the sign of a number, an operator with
one operand or one with two; what comes after its operand tells which. So trees without strings
have the same text only if they are the same (`Expr.text_eq_iff`).

The induction needs more: whatever follows two texts, if it starts where a text may end, equal texts
tell equal trees and equal rests (`Expr.Told`).

1. *Delimiters*: words end before them.
2. *Values* that their texts tell.
3. *Composite nodes*: a symbol and a row of operands.
4. *Trees*. -/

namespace LoxSyntax

/-! ## (1) Delimiters -/

/-- Whether a character ends a word. -/
def isDelimiter (c : Char) : Bool := c == ' ' || c == '(' || c == ')'

/-- Whether characters are delimiters can be checked one by one. -/
theorem isDelimiter_of_all {text : List Char} (all : text.all (!isDelimiter ·) = true) :
    ∀ c ∈ text, isDelimiter c = false := by
  simpa using all

/-- **A text may end** before some characters: there are none, or a space or a closing parenthesis
comes first. -/
def MayEnd (rest : List Char) : Prop := ∀ c ∈ rest.head?, c = ' ' ∨ c = ')'

/-- Where a text may end, a delimiter comes first. -/
theorem MayEnd.isDelimiter {c : Char} {rest : List Char} (ends : MayEnd (c :: rest)) :
    isDelimiter c = true := by
  rcases ends c rfl with rfl | rfl <;> rfl

/-- **Words without delimiters** are told by what there is, where they may end. -/
theorem word_append_inj {word other r u : List Char} (free : ∀ c ∈ word, isDelimiter c = false)
    (otherFree : ∀ c ∈ other, isDelimiter c = false) (ends : MayEnd r) (otherEnds : MayEnd u)
    (same : word ++ r = other ++ u) : word = other ∧ r = u := by
  induction word generalizing other with
  | nil =>
      cases other with
      | nil => exact ⟨rfl, same⟩
      | cons d other =>
          rw [List.nil_append] at same
          subst same
          exact absurd ends.isDelimiter (by simp [otherFree d List.mem_cons_self])
  | cons c word ih =>
      cases other with
      | nil =>
          rw [List.nil_append] at same
          subst same
          exact absurd otherEnds.isDelimiter (by simp [free c List.mem_cons_self])
      | cons d other =>
          obtain ⟨rfl, more⟩ := List.cons.inj same
          obtain ⟨-, free⟩ := List.forall_mem_cons.mp free
          obtain ⟨-, otherFree⟩ := List.forall_mem_cons.mp otherFree
          obtain ⟨rfl, rest⟩ := ih free otherFree more
          exact ⟨rfl, rest⟩

/-! ## (2) Values -/

namespace Value

/-- Whether a value is **told by its text**: it is no string, and it is no double that is not a
number. -/
def isTold : Value → Bool
  | nil => true
  | bool _ => true
  | number x => !x.isNaN
  | string _ => false

/-- A number that is told is a number. -/
theorem isNaN_of_isTold {x : Binary64} (told : (number x).isTold = true) : x.isNaN = false := by
  simpa [isTold] using told

/-- The text of what is told has no delimiters. -/
theorem isDelimiter_of_mem_text {v : Value} (told : v.isTold = true) :
    ∀ c ∈ v.text.toList, isDelimiter c = false := by
  cases v with
  | nil => exact isDelimiter_of_all rfl
  | bool b => cases b <;> exact isDelimiter_of_all rfl
  | string s => cases told
  | number x =>
      intro c member
      rcases Binary64.mem_plain member with digit | letter
      · rw [Bool.eq_false_iff]
        intro delimiter
        simp only [isDelimiter, Bool.or_eq_true, beq_iff_eq] at delimiter
        rcases delimiter with (rfl | rfl) | rfl <;> cases digit
      · exact isDelimiter_of_all rfl c letter

/-- A number has the text of no other value that is told. -/
theorem text_ne_plain {v : Value} {x : Binary64} (word : v = nil ∨ ∃ b, v = bool b)
    (number : x.isNaN = false) : v.text ≠ x.plain := by
  have letters : ∀ text ∈ ["nil", "true", "false"], ∀ c ∈ text.toList.head?,
      c.isDigit = false ∧ c ≠ '-' ∧ c ≠ 'i' := by simp
  have member : v.text ∈ ["nil", "true", "false"] := by
    rcases word with rfl | ⟨b, rfl⟩
    · simp [text]
    · cases b <;> simp [text]
  intro same
  obtain ⟨c, more, started, first⟩ := Binary64.exists_head_plain number
  obtain ⟨noDigit, noMinus, noWord⟩ := letters _ member c (by rw [same, started]; rfl)
  rcases first with digit | minus | infinity
  · rw [digit] at noDigit
    cases noDigit
  · exact noMinus minus
  · exact noWord infinity

/-- **Values that are told** have the same text only if they are the same. -/
theorem text_inj {v w : Value} (told : v.isTold = true) (told' : w.isTold = true)
    (same : v.text = w.text) : v = w := by
  cases v with
  | string s => cases told
  | nil =>
      cases w with
      | string s => cases told'
      | nil => rfl
      | bool b => cases b <;> simp [text] at same
      | number y => exact absurd same (text_ne_plain (.inl rfl) (isNaN_of_isTold told'))
  | bool b =>
      cases w with
      | string s => cases told'
      | nil => cases b <;> simp [text] at same
      | bool c => cases b <;> cases c <;> simp [text] at same ⊢
      | number y => exact absurd same (text_ne_plain (.inr ⟨b, rfl⟩) (isNaN_of_isTold told'))
  | number x =>
      have number := isNaN_of_isTold told
      cases w with
      | string s => cases told'
      | nil => exact absurd same.symm (text_ne_plain (.inl rfl) number)
      | bool c => exact absurd same.symm (text_ne_plain (.inr ⟨c, rfl⟩) number)
      | number y =>
          exact congrArg Value.number (Binary64.plain_inj number (isNaN_of_isTold told') same)

end Value

namespace Expr

/-! ## (3) Composite nodes -/

/-- **The symbol of a composite node**; a literal has none. -/
def symbol? : Expr → Option String
  | literal _ => none
  | group _ => some "group"
  | unary op _ => some op.symbol
  | binary _ op _ => some op.symbol

/-- **The operands of a node**, in order. -/
def operands : Expr → List Expr
  | literal _ => []
  | group inner => [inner]
  | unary _ operand => [operand]
  | binary left _ right => [left, right]

/-- The texts of some operands, with a space before each of them. -/
def rowText (es : List Expr) : List Char := es.flatMap fun e => ' ' :: e.text.toList

/-- **The text of a composite node**: its symbol and its operands, in parentheses. -/
theorem toList_text {e : Expr} {symbol : String} (composite : e.symbol? = some symbol) :
    e.text.toList = '(' :: (symbol.toList ++ (rowText e.operands ++ [')'])) := by
  cases e with
  | literal v => cases composite
  | group inner =>
      cases composite
      simp [text, rowText, operands]
  | unary op operand =>
      cases composite
      simp [text, rowText, operands]
  | binary left op right =>
      cases composite
      simp [text, rowText, operands]

/-- A symbol has no delimiters. -/
theorem isDelimiter_of_mem_symbol {e : Expr} {symbol : String}
    (composite : e.symbol? = some symbol) :
    ∀ c ∈ symbol.toList, isDelimiter c = false := by
  cases e with
  | literal v => cases composite
  | group inner =>
      cases composite
      exact isDelimiter_of_all rfl
  | unary op operand =>
      cases composite
      cases op <;> exact isDelimiter_of_all rfl
  | binary left op right =>
      cases composite
      cases op <;> exact isDelimiter_of_all rfl

/-- The unary operators have different symbols. -/
theorem unary_symbol_inj {op op' : UnaryOp} (same : op.symbol = op'.symbol) : op = op' := by
  revert same
  cases op <;> cases op' <;> decide

/-- The binary operators have different symbols. -/
theorem binary_symbol_inj {op op' : BinaryOp} (same : op.symbol = op'.symbol) : op = op' := by
  revert same
  cases op <;> cases op' <;> decide

/-- No operator has the symbol of a group. -/
theorem unary_symbol_ne_group (op : UnaryOp) : op.symbol ≠ "group" := by
  cases op <;> decide

/-- **A composite node is told by its symbol and its operands**: how many there are tells the two
operators that are written with a minus apart. -/
theorem eq_of_symbol? {e e' : Expr} {symbol : String} (composite : e.symbol? = some symbol)
    (composite' : e'.symbol? = some symbol) (same : e.operands = e'.operands) : e = e' := by
  have symbols : e.symbol? = e'.symbol? := composite.trans composite'.symm
  cases e with
  | literal v => cases composite
  | group inner =>
      cases e' with
      | literal w => cases composite'
      | group inner' => rw [List.head_eq_of_cons_eq same]
      | unary op operand =>
          exact absurd (Option.some.inj symbols).symm (unary_symbol_ne_group op)
      | binary left op right => cases same
  | unary op operand =>
      cases e' with
      | literal w => cases composite'
      | group inner => exact absurd (Option.some.inj symbols) (unary_symbol_ne_group op)
      | unary op' operand' =>
          rw [unary_symbol_inj (Option.some.inj symbols), List.head_eq_of_cons_eq same]
      | binary left op' right => cases same
  | binary left op right =>
      cases e' with
      | literal w => cases composite'
      | group inner => cases same
      | unary op' operand => cases same
      | binary left' op' right' =>
          cases same
          rw [binary_symbol_inj (Option.some.inj symbols)]

/-- Whether every literal of a tree is **told by its text**. -/
def isTold : Expr → Bool
  | literal v => v.isTold
  | group inner => inner.isTold
  | unary _ operand => operand.isTold
  | binary left _ right => left.isTold && right.isTold

/-- The operands of a tree whose literals are told are such trees. -/
theorem isTold_of_mem_operands {e x : Expr} (told : e.isTold = true) (member : x ∈ e.operands) :
    x.isTold = true := by
  cases e with
  | literal v => cases member
  | group inner =>
      cases List.mem_singleton.mp member
      exact told
  | unary op operand =>
      cases List.mem_singleton.mp member
      exact told
  | binary left op right =>
      obtain ⟨first, second⟩ := Bool.and_eq_true_iff.mp told
      rcases List.mem_cons.mp member with rfl | member
      · exact first
      · cases List.mem_singleton.mp member
        exact second

/-! ## (4) Trees -/

/-- **A tree is told by its text**, whatever follows it: no other tree has a text that may end at
the same place. -/
def Told (e : Expr) : Prop :=
  ∀ (e' : Expr) (r u : List Char), e'.isTold = true → MayEnd r → MayEnd u →
    e.text.toList ++ r = e'.text.toList ++ u → e = e' ∧ r = u

/-- A text may end before a row of operands and the parenthesis that closes it. -/
theorem mayEnd_rowText (es : List Expr) (rest : List Char) :
    MayEnd (rowText es ++ ')' :: rest) := by
  intro c first
  cases es with
  | nil =>
      cases first
      exact .inr rfl
  | cons e es =>
      cases first
      exact .inl rfl

/-- **Rows of operands are told**, operand by operand, up to the parenthesis that closes them. -/
theorem rowText_append_inj {es es' : List Expr} {r u : List Char} (told : ∀ e ∈ es, Told e)
    (told' : ∀ e ∈ es', e.isTold = true) (same : rowText es ++ ')' :: r = rowText es' ++ ')' :: u) :
    es = es' ∧ r = u := by
  induction es generalizing es' with
  | nil =>
      cases es' with
      | nil => exact ⟨rfl, (List.cons.inj same).2⟩
      | cons e' es' => cases List.head_eq_of_cons_eq same
  | cons e es ih =>
      cases es' with
      | nil => cases List.head_eq_of_cons_eq same
      | cons e' es' =>
          obtain ⟨first, others⟩ := List.forall_mem_cons.mp told
          obtain ⟨first', others'⟩ := List.forall_mem_cons.mp told'
          simp only [rowText, List.flatMap_cons, List.cons_append, List.append_assoc] at same
          obtain ⟨rfl, rows⟩ := first e' _ _ first' (mayEnd_rowText es r) (mayEnd_rowText es' u)
            (List.cons.inj same).2
          obtain ⟨rfl, rest⟩ := ih others others' rows
          exact ⟨rfl, rest⟩

/-- A literal that is told has the text of no composite node. -/
theorem text_ne_composite {v : Value} {e : Expr} {symbol : String} {r u : List Char}
    (told : v.isTold = true) (ends : MayEnd r) (composite : e.symbol? = some symbol) :
    v.text.toList ++ r ≠ e.text.toList ++ u := by
  have free := Value.isDelimiter_of_mem_text told
  rw [toList_text composite]
  cases letters : v.text.toList with
  | nil =>
      rintro rfl
      rcases ends '(' rfl with same | same <;> cases same
  | cons c more =>
      intro same
      obtain rfl : c = '(' := List.head_eq_of_cons_eq same
      rw [letters] at free
      cases free '(' List.mem_cons_self

/-- A literal is told. -/
theorem told_literal {v : Value} (told : v.isTold = true) : Told (literal v) := by
  intro e' r u told' ends ends' same
  cases composite : e'.symbol? with
  | some symbol => exact absurd same (text_ne_composite told ends composite)
  | none =>
      cases e' with
      | literal w =>
          obtain ⟨text, rest⟩ := word_append_inj (Value.isDelimiter_of_mem_text told)
            (Value.isDelimiter_of_mem_text told') ends ends' same
          rw [Value.text_inj told told' (String.toList_inj.mp text)]
          exact ⟨rfl, rest⟩
      | group inner => cases composite
      | unary op operand => cases composite
      | binary left op right => cases composite

/-- **A composite node is told** if its operands are. -/
theorem told_composite {e : Expr} {symbol : String} (composite : e.symbol? = some symbol)
    (told : ∀ x ∈ e.operands, Told x) : Told e := by
  intro e' r u told' ends ends' same
  cases composite' : e'.symbol? with
  | none =>
      cases e' with
      | literal w => exact absurd same.symm (text_ne_composite told' ends' composite)
      | group inner => cases composite'
      | unary op operand => cases composite'
      | binary left op right => cases composite'
  | some symbol' =>
      rw [toList_text composite, toList_text composite'] at same
      simp only [List.cons_append, List.append_assoc, List.nil_append] at same
      obtain ⟨word, rows⟩ := word_append_inj (isDelimiter_of_mem_symbol composite)
        (isDelimiter_of_mem_symbol composite') (mayEnd_rowText _ r) (mayEnd_rowText _ u)
        (List.cons.inj same).2
      obtain ⟨operands, rest⟩ :=
        rowText_append_inj told (fun _ => isTold_of_mem_operands told') rows
      obtain rfl := String.toList_inj.mp word
      exact ⟨eq_of_symbol? composite composite' operands, rest⟩

/-- **Every tree whose literals are told is told.** -/
theorem told_of_isTold {e : Expr} (told : e.isTold = true) : Told e := by
  induction e with
  | literal v => exact told_literal told
  | group inner ih =>
      exact told_composite rfl (List.forall_mem_singleton.mpr (ih told))
  | unary op operand ih =>
      exact told_composite rfl (List.forall_mem_singleton.mpr (ih told))
  | binary left op right ihl ihr =>
      obtain ⟨first, second⟩ := Bool.and_eq_true_iff.mp told
      exact told_composite rfl
        (List.forall_mem_cons.mpr ⟨ihl first, List.forall_mem_singleton.mpr (ihr second)⟩)

/-- **Trees without strings are told by their texts.** Two trees of any size, whose literals are the
absent value, truth values and numbers, have the same canonical text exactly if they are the same:
the same nodes with the same operators, and at the leaves the same values, down to the bits of the
numbers. Doubles that are not a number share one text and are left out. -/
theorem text_eq_iff {e e' : Expr} (told : e.isTold = true) (told' : e'.isTold = true) :
    e.text = e'.text ↔ e = e' := by
  constructor
  · intro same
    have nothing : MayEnd [] := by
      intro c first
      cases first
    exact (told_of_isTold told e' _ _ told' nothing nothing (congrArg (·.toList ++ []) same)).1
  · rintro rfl
    rfl

/-- A minus with one operand over one with two, and the other way round: the texts differ by where
the parentheses close. -/
theorem text_eq_iff_minus :
    let one : Expr := literal (.number ⟨0x3FF0000000000000⟩)
    let minusOne : Expr := literal (.number ⟨0xBFF0000000000000⟩)
    let e := unary .negate (binary one .subtract minusOne)
    let e' := binary (unary .negate one) .subtract minusOne
    e.isTold = true ∧ e'.isTold = true ∧ e.text = "(- (- 1.0 -1.0))" ∧
      e'.text = "(- (- 1.0) -1.0)" ∧ (e.text = e'.text ↔ e = e') ∧ e ≠ e' := by
  intro one minusOne e e'
  have told : e.isTold = true ∧ e'.isTold = true := by decide +kernel
  have texts : e.text = "(- (- 1.0 -1.0))" ∧ e'.text = "(- (- 1.0) -1.0)" := by decide +kernel
  exact ⟨told.1, told.2, texts.1, texts.2, text_eq_iff told.1 told.2, by decide⟩

/-- A string may have the text of another value. -/
example : (literal (.string "nil")).text = (literal .nil).text := rfl

end Expr

end LoxSyntax
