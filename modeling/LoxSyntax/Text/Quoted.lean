import LoxSyntax.Text.Invisible

/-! # Quoted text
Text shown to a person between quotes, so that every character of it can be seen: the quote in use,
the backslash and five controls are escaped by a letter, and every other invisible character by its
number. -/

namespace LoxSyntax.Quoted

/-- A code point in braces, in hexadecimal without leading zeros. -/
def numbered (c : Char) : List Char := ['\\', 'u', '\x7b'] ++ Nat.toDigits 16 c.toNat ++ ['\x7d']

/-- How one character is written between two of the given quotes. -/
def escape (mark c : Char) : List Char :=
  if c = mark then ['\\', mark]
  else if c = '\\' then ['\\', '\\']
  else if c = '\n' then ['\\', 'n']
  else if c = '\r' then ['\\', 'r']
  else if c = '\t' then ['\\', 't']
  else if c = '\x00' then ['\\', '0']
  else if Invisible.holds c then numbered c
  else [c]

/-- **A text between double quotes.** -/
def text (s : String) : String := String.ofList ('"' :: s.toList.flatMap (escape '"') ++ ['"'])

/-- **A character between single quotes.** -/
def char (c : Char) : String := String.ofList ('\'' :: escape '\'' c ++ ['\''])

end LoxSyntax.Quoted
