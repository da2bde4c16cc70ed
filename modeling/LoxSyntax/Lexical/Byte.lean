/-! # Byte classes
The bytes that the lexical rules name, and the classes of bytes that run on in numerals and words.
The letters and digits are those of ASCII; every other byte above them belongs to none of these
classes. -/

namespace LoxSyntax.Byte

/-- The horizontal tab. -/
abbrev tab : UInt8 := 0x09
/-- The line feed, which ends a line. -/
abbrev newline : UInt8 := 0x0A
/-- The space. -/
abbrev space : UInt8 := 0x20
/-- The double quote. -/
abbrev quote : UInt8 := 0x22
/-- The full stop. -/
abbrev dot : UInt8 := 0x2E
/-- The slash. -/
abbrev slash : UInt8 := 0x2F
/-- The equals sign. -/
abbrev equals : UInt8 := 0x3D
/-- The low line. -/
abbrev underscore : UInt8 := 0x5F

/-- The digits. -/
def isDigit (b : UInt8) : Bool := 0x30 ≤ b && b ≤ 0x39

/-- The letters, large and small. -/
def isLetter (b : UInt8) : Bool := (0x41 ≤ b && b ≤ 0x5A) || (0x61 ≤ b && b ≤ 0x7A)

/-- The bytes that a numeral runs on with. -/
def isNumeralPart (b : UInt8) : Bool := isDigit b || b == dot

/-- The bytes that a word starts with. -/
def isWordStart (b : UInt8) : Bool := isLetter b || b == underscore

/-- The bytes that a word runs on with. -/
def isWordPart (b : UInt8) : Bool := isWordStart b || isDigit b

end LoxSyntax.Byte
