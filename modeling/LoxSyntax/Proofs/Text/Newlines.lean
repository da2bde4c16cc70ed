import LoxSyntax.Proofs.Number.Characters
import LoxSyntax.Proofs.Text.Decoding
import LoxSyntax.Diagnostic
import LoxSyntax.Expr.Basic
import Mathlib.Algebra.Ring.Nat

/-! # Newlines of a text
Encoding and decoding keep the number of newlines, so it can be counted in bytes and in text alike.
Of what a line of a dump is put together from, a newline can stand only in text that is taken from
the source as it is.

1. *Counting* newlines of a text.
2. *Bytes*: encoding and decoding.
3. *Parts of a line*: names, numbers, trees and diagnostics. -/

namespace LoxSyntax

/-! ## (1) Counting -/

/-- How many **newlines** a text has. -/
def newlines (s : String) : Nat := s.toList.count '\n'

theorem newlines_eq_zero_iff {s : String} : newlines s = 0 ↔ '\n' ∉ s.toList := List.count_eq_zero

@[simp] theorem newlines_append (s t : String) : newlines (s ++ t) = newlines s + newlines t := by
  rw [newlines, String.toList_append, List.count_append]
  rfl

@[simp] theorem newlines_push (s : String) (c : Char) :
    newlines (s.push c) = newlines s + if c = '\n' then 1 else 0 := by
  rw [newlines, String.toList_push, List.count_append, List.count_singleton, newlines]
  simp only [beq_iff_eq]

@[simp] theorem newlines_singleton (c : Char) :
    newlines (String.singleton c) = if c = '\n' then 1 else 0 :=
  (newlines_push "" c).trans (Nat.zero_add _)

/-- A natural number is written without newlines. -/
@[simp] theorem newlines_repr (n : Nat) : newlines n.repr = 0 := by
  rw [newlines_eq_zero_iff]
  intro member
  rw [Nat.toList_repr] at member
  exact absurd (Nat.isDigit_of_mem_toDigits (by decide) (by decide) member) (by decide)

/-! ## (2) Bytes -/

namespace Utf8

/-- **Encoding keeps newlines.** -/
theorem count_newline_encode (s : String) : (encode s).count Byte.newline = newlines s :=
  count_encode s (c := '\n') (by decide)

/-- **Decoding keeps newlines**, of whatever bytes. -/
theorem newlines_decode (bytes : List UInt8) :
    newlines (decode bytes) = bytes.count Byte.newline :=
  count_decode bytes (c := '\n') (by decide)

end Utf8

/-! ## (3) Parts of a line -/

/-- The names of kinds have no newlines. -/
@[simp] theorem Kind.newlines_name (k : Kind) : newlines k.name = 0 := by
  cases k <;> decide +kernel

/-- The texts of kinds have no newlines. -/
@[simp] theorem Kind.newlines_text (k : Kind) : newlines k.text = 0 := by
  cases k <;> decide +kernel

/-- Numbers are written without newlines. -/
@[simp] theorem Binary64.newlines_plain (x : Binary64) : newlines x.plain = 0 := by
  rw [newlines_eq_zero_iff]
  intro member
  rcases mem_plain member with digit | other
  · exact absurd digit (by decide)
  · exact absurd other (by decide)

/-- The texts among the literals of a tree, from left to right. -/
def Expr.strings : Expr → List String
  | literal (.string s) => [s]
  | literal _ => []
  | group inner => inner.strings
  | unary _ operand => operand.strings
  | binary left _ right => left.strings ++ right.strings

/-- **Newlines of a tree** are those of its texts. -/
theorem Expr.newlines_text (e : Expr) : newlines e.text = (e.strings.map newlines).sum := by
  have fixed : newlines "(group " = 0 ∧ newlines "(" = 0 ∧ newlines " " = 0 ∧ newlines ")" = 0 := by
    decide +kernel
  obtain ⟨opens, left, blank, right⟩ := fixed
  induction e with
  | literal v =>
      cases v with
      | nil => rfl
      | bool b => cases b <;> rfl
      | number x => exact Binary64.newlines_plain x
      | string s => exact (Nat.add_zero _).symm
  | group inner ih => simp [Expr.text, Expr.strings, ih, opens, right]
  | unary op operand ih => simp [Expr.text, Expr.strings, UnaryOp.symbol, ih, left, blank, right]
  | binary l op r ihl ihr =>
      simp [Expr.text, Expr.strings, BinaryOp.symbol, ihl, ihr, left, blank, right]

/-- The text that a diagnostic shows as it is. -/
def Diagnostic.shown : Diagnostic → String
  | unexpectedChar shown _ => .singleton shown
  | unterminatedString _ => ""
  | expectedExpression found _ | expectedClosingParen found _ | tooDeep found _ _ => found
  | unreadable path reason => Quoted.text path ++ reason

/-- Newlines of the wording of a diagnostic. -/
theorem Diagnostic.newlines_message (d : Diagnostic) : newlines d.message = newlines d.shown := by
  have around : ∀ before after found : String, newlines before = 0 → newlines after = 0 →
      newlines (before ++ found ++ after) = newlines found := by
    intro before after found none none'
    rw [newlines_append, newlines_append, none, none', Nat.zero_add, Nat.add_zero]
  cases d with
  | unexpectedChar shown span =>
      change newlines ("Error: Unexpected character: " ++ String.singleton shown) = _
      rw [newlines_append]
      exact Nat.zero_add _
  | unterminatedString span =>
      change newlines "Error: Unterminated string." = newlines ""
      decide +kernel
  | expectedExpression found span => exact around "Error at " _ found rfl rfl
  | expectedClosingParen found span => exact around "Error at " _ found rfl rfl
  | tooDeep found limit span =>
      change newlines ("Error at " ++ found ++ ": Expression nested deeper than " ++ limit.repr ++
        " levels") = newlines found
      rw [newlines_append, newlines_append, newlines_repr, around "Error at " _ found rfl rfl]
      rfl
  | unreadable path reason =>
      change newlines ("error reading file " ++ Quoted.text path ++ ": " ++ reason) = _
      rw [newlines_append, around "error reading file " _ _ rfl rfl, ← newlines_append]
      rfl

/-- **Newlines of a report** are those of the text that it shows. -/
theorem Diagnostic.newlines_report (d : Diagnostic) : newlines d.report = newlines d.shown := by
  unfold report
  split
  · next line place =>
      change newlines ("[line " ++ line.repr ++ "] " ++ d.message) = _
      rw [newlines_append, newlines_append, newlines_append, newlines_repr, d.newlines_message]
      exact Nat.zero_add _
  · exact d.newlines_message

end LoxSyntax
