/-! # Token kinds
The kinds of token, their names in a dump, the text of those whose text is fixed, and the ways to
tell a kind from text: by one byte, by one byte and a following equals sign, or by a whole word. -/

namespace LoxSyntax

/-- The **kind** of a token. -/
inductive Kind where
  -- Marks of one character.
  | leftParen | rightParen | leftBrace | rightBrace | comma | dot | minus | plus | semicolon
  | star | slash
  -- Operators of one or two characters.
  | equal | equalEqual | bang | bangEqual | less | lessEqual | greater | greaterEqual
  -- Classes whose text comes from the source.
  | string | number | identifier
  -- Reserved words.
  | andWord | classWord | elseWord | falseWord | forWord | funWord | ifWord | nilWord | orWord
  | printWord | returnWord | superWord | thisWord | trueWord | varWord | whileWord
  -- The end of the source.
  | endOfInput
deriving DecidableEq, Repr

namespace Kind

/-- **The name of a kind** in a dump. -/
def name : Kind → String
  | leftParen => "LEFT_PAREN"
  | rightParen => "RIGHT_PAREN"
  | leftBrace => "LEFT_BRACE"
  | rightBrace => "RIGHT_BRACE"
  | comma => "COMMA"
  | dot => "DOT"
  | minus => "MINUS"
  | plus => "PLUS"
  | semicolon => "SEMICOLON"
  | star => "STAR"
  | slash => "SLASH"
  | equal => "EQUAL"
  | equalEqual => "EQUAL_EQUAL"
  | bang => "BANG"
  | bangEqual => "BANG_EQUAL"
  | less => "LESS"
  | lessEqual => "LESS_EQUAL"
  | greater => "GREATER"
  | greaterEqual => "GREATER_EQUAL"
  | string => "STRING"
  | number => "NUMBER"
  | identifier => "IDENTIFIER"
  | andWord => "AND"
  | classWord => "CLASS"
  | elseWord => "ELSE"
  | falseWord => "FALSE"
  | forWord => "FOR"
  | funWord => "FUN"
  | ifWord => "IF"
  | nilWord => "NIL"
  | orWord => "OR"
  | printWord => "PRINT"
  | returnWord => "RETURN"
  | superWord => "SUPER"
  | thisWord => "THIS"
  | trueWord => "TRUE"
  | varWord => "VAR"
  | whileWord => "WHILE"
  | endOfInput => "EOF"

/-- **The text of a kind**, where every token of the kind has the same. -/
def text? : Kind → Option String
  | leftParen => some "("
  | rightParen => some ")"
  | leftBrace => some "\x7b"
  | rightBrace => some "\x7d"
  | comma => some ","
  | dot => some "."
  | minus => some "-"
  | plus => some "+"
  | semicolon => some ";"
  | star => some "*"
  | slash => some "/"
  | equal => some "="
  | equalEqual => some "=="
  | bang => some "!"
  | bangEqual => some "!="
  | less => some "<"
  | lessEqual => some "<="
  | greater => some ">"
  | greaterEqual => some ">="
  | andWord => some "and"
  | classWord => some "class"
  | elseWord => some "else"
  | falseWord => some "false"
  | forWord => some "for"
  | funWord => some "fun"
  | ifWord => some "if"
  | nilWord => some "nil"
  | orWord => some "or"
  | printWord => some "print"
  | returnWord => some "return"
  | superWord => some "super"
  | thisWord => some "this"
  | trueWord => some "true"
  | varWord => some "var"
  | whileWord => some "while"
  | endOfInput => some ""
  | string | number | identifier => none

/-- The text of a kind, empty where its tokens differ in text. -/
def text (k : Kind) : String := k.text?.getD ""

/-- Every kind, in the order of their declaration. -/
def all : List Kind := [
  .leftParen, .rightParen, .leftBrace, .rightBrace, .comma, .dot, .minus, .plus, .semicolon,
  .star, .slash, .equal, .equalEqual, .bang, .bangEqual, .less, .lessEqual, .greater,
  .greaterEqual, .string, .number, .identifier, .andWord, .classWord, .elseWord, .falseWord,
  .forWord, .funWord, .ifWord, .nilWord, .orWord, .printWord, .returnWord, .superWord, .thisWord,
  .trueWord, .varWord, .whileWord, .endOfInput]

theorem mem_all (k : Kind) : k ∈ all := by cases k <;> decide

/-- The kind of a name. -/
def ofName? (name : String) : Option Kind := all.find? (·.name = name)

/-- **Marks**: the kind of a byte that is a token whatever follows it. -/
def mark? (b : UInt8) : Option Kind :=
  match Char.ofUInt8 b with
  | '(' => some .leftParen
  | ')' => some .rightParen
  | '\x7b' => some .leftBrace
  | '\x7d' => some .rightBrace
  | ',' => some .comma
  | '.' => some .dot
  | '-' => some .minus
  | '+' => some .plus
  | ';' => some .semicolon
  | '*' => some .star
  | _ => none

/-- **Doublable operators**: the kind of a byte that forms a token alone, and the kind of the token
it forms with an equals sign after it. -/
def doublable? (b : UInt8) : Option (Kind × Kind) :=
  match Char.ofUInt8 b with
  | '=' => some (.equal, .equalEqual)
  | '!' => some (.bang, .bangEqual)
  | '<' => some (.less, .lessEqual)
  | '>' => some (.greater, .greaterEqual)
  | _ => none

/-- The reserved words. -/
def words : List Kind := [
  .andWord, .classWord, .elseWord, .falseWord, .forWord, .funWord, .ifWord, .nilWord, .orWord,
  .printWord, .returnWord, .superWord, .thisWord, .trueWord, .varWord, .whileWord]

/-- **The reserved word** that a text is, if it is one. -/
def word? (s : String) : Option Kind := words.find? (·.text = s)

theorem ofName?_name (k : Kind) : ofName? k.name = some k := by cases k <;> decide

/-- A text is a reserved word exactly when it is the text of one. -/
theorem word?_eq_some_iff {s : String} {k : Kind} : word? s = some k ↔ k ∈ words ∧ k.text = s := by
  constructor
  · intro h
    exact ⟨List.mem_of_find?_eq_some h, by simpa using List.find?_some h⟩
  · rintro ⟨h, rfl⟩
    revert h
    cases k <;> decide

end Kind

end LoxSyntax
