import LoxSyntax.SourceFile

/-! # Directories
A tree of files and folders in which paths are looked up as an operating system does: name by name,
each name but the last leading to a folder, with `.` for the same folder and `..` for the one around
it. -/

namespace LoxSyntax

/-- A **directory**: files and folders by the names that lead to them, the innermost name first. -/
structure Directory where
  /-- The folders below the directory. -/
  folders : List (List String)
  /-- The files, a later one with the same names being an earlier one written again. -/
  files : List (List String × List UInt8)
deriving DecidableEq

namespace Directory

/-- A directory with nothing in it. -/
def empty : Directory := ⟨[], []⟩

/-- Put a character before the first of some names, or end that name if the character is a slash. -/
def putBefore (c : Char) : List (List Char) → List (List Char)
  | [] => [[c]]
  | name :: names => if c = '/' then [] :: name :: names else (c :: name) :: names

/-- The names of a path, between its slashes. -/
def names (path : String) : List String :=
  (path.toList.foldr putBefore [[]]).map String.ofList

/-- Whether a name in a path leads nowhere else. -/
def isHere (name : String) : Bool := name = "" || name = "."

/-- The names that lead to an entry, the innermost first. -/
def key (path : String) : List String := ((names path).filter (!isHere ·)).reverse

/-- The names that lead to a folder and to those around it. -/
def around : List String → List (List String)
  | [] => []
  | name :: names => (name :: names) :: around names

/-- Make a folder, and those around it. -/
def addFolder (d : Directory) (path : String) : Directory :=
  { d with folders := around (key path) ++ d.folders }

/-- Write a file. -/
def addFile (d : Directory) (path : String) (bytes : List UInt8) : Directory :=
  { d with files := (key path, bytes) :: d.files }

/-- Where a path has led so far. -/
inductive Place where
  /-- To a folder of the directory, or to the directory itself. -/
  | inside (names : List String)
  /-- Out of the directory, where no names are known. -/
  | outside
deriving DecidableEq, Repr

/-- The folder around a place. -/
def Place.parent : Place → Place
  | inside (_ :: names) => inside names
  | inside [] | outside => outside

/-- Follow the names of a path from a place. -/
def follow (d : Directory) : Place → List String → Contents
  | _, [] => .error .isFolder
  | place, name :: rest =>
    if isHere name then d.follow place rest
    else if name = ".." then d.follow place.parent rest
    else
      match place with
      | .outside => .error .notFound
      | .inside around =>
        match d.files.lookup (name :: around) with
        | some bytes => if rest.isEmpty then .ok bytes else .error .notFolder
        | none =>
          if d.folders.contains (name :: around) then d.follow (.inside (name :: around)) rest
          else .error .notFound

/-- **Read the file at a path.** A path that starts with a slash leads outside. -/
def read (d : Directory) (path : String) : Contents :=
  match path.toList with
  | [] => .error .notFound
  | '/' :: _ => d.follow .outside (names path)
  | _ => d.follow (.inside []) (names path)

end Directory

end LoxSyntax
