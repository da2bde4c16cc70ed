import LoxSyntax.Lexical.Cursor

/-! # Source files
What comes of reading a source by its path: a cursor over its bytes, or the reason why there is
none. -/

namespace LoxSyntax

/-- Why a file **cannot be read**. -/
inductive ReadFailure where
  /-- No such file or folder. -/
  | notFound
  /-- The path names a folder. -/
  | isFolder
  /-- The path goes on after a file. -/
  | notFolder
  /-- Any other reason, in the words of the system. -/
  | other (reason : String)
deriving DecidableEq, Repr

/-- The reason in words. -/
def ReadFailure.reason : ReadFailure → String
  | notFound => "No such file or directory (os error 2)"
  | isFolder => "Is a directory (os error 21)"
  | notFolder => "Not a directory (os error 20)"
  | other reason => reason

/-- What comes of reading a file. -/
abbrev Contents := Except ReadFailure (List UInt8)

namespace SourceFile

/-- **The cursor** over a file that was read from a path. -/
def cursor (path : String) : Contents → Except Diagnostic Cursor
  | .ok bytes => .ok (.start bytes)
  | .error failure => .error (.unreadable path failure.reason)

/-- What is logged about reading a file. -/
def records (path : String) : Contents → List Record
  | .ok bytes => [.fileRead bytes.length path]
  | .error _ => []

end SourceFile

end LoxSyntax
