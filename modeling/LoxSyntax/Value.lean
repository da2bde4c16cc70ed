import LoxSyntax.Number.Text
import LoxSyntax.Text.Json

/-! # Values
The values that literals stand for. -/

namespace LoxSyntax

/-- A **value**. -/
inductive Value where
  /-- The absent value. -/
  | nil
  /-- A truth value. -/
  | bool (b : Bool)
  /-- A number. -/
  | number (x : Binary64)
  /-- A text. -/
  | string (s : String)
deriving DecidableEq, Repr

namespace Value

/-- Whether the value is the absent one. -/
def isNil : Value → Bool
  | nil => true
  | _ => false

/-- Whether the value is a truth value. -/
def isBool : Value → Bool
  | bool _ => true
  | _ => false

/-- Whether the value is a number. -/
def isNumber : Value → Bool
  | number _ => true
  | _ => false

/-- Whether the value is a text. -/
def isString : Value → Bool
  | string _ => true
  | _ => false

/-- **The text of a value**; a text is its own. -/
def text : Value → String
  | nil => "nil"
  | bool b => if b then "true" else "false"
  | number x => x.plain
  | string s => s

/-- **The JSON of a value.** -/
def json : Value → String
  | nil => "null"
  | bool b => if b then "true" else "false"
  | number x => x.json
  | string s => Json.quote s

/-- **Equality of values**: numbers are compared as numbers, all else by identity. -/
def equal : Value → Value → Bool
  | number x, number y => x.equal y
  | v, w => v == w

end Value

end LoxSyntax
