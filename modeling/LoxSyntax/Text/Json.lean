/-! # JSON strings
A JSON string stands between quotes. Inside it a quote, a backslash and the characters below the
space are escaped, five of them by a letter and the rest by number; every other character stands for
itself. -/

namespace LoxSyntax.Json

/-- The escape of a character by its number, for the characters below the space. -/
def numbered (c : Char) : List Char :=
  ['\\', 'u', '0', '0', Nat.digitChar (c.toNat / 16), Nat.digitChar (c.toNat % 16)]

/-- **The escapes**: how one character is written inside a string. -/
def escape (c : Char) : List Char :=
  if c = '"' then ['\\', '"']
  else if c = '\\' then ['\\', '\\']
  else if c = '\x08' then ['\\', 'b']
  else if c = '\x0c' then ['\\', 'f']
  else if c = '\n' then ['\\', 'n']
  else if c = '\r' then ['\\', 'r']
  else if c = '\t' then ['\\', 't']
  else if c.toNat < 0x20 then numbered c
  else [c]

/-- **A text as a JSON string.** -/
def quote (s : String) : String := String.ofList ('"' :: s.toList.flatMap escape ++ ['"'])

end LoxSyntax.Json
