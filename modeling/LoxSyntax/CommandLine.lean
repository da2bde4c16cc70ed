import LoxSyntax.Command
import LoxSyntax.SourceFile

/-! # The command line
What the arguments of the program ask for, and what the program then writes. The arguments are the
name of a command, the file it is about, and its options; after two dashes every argument is a file.
-/

namespace LoxSyntax

/-- What the program is **asked for**. -/
inductive Invocation where
  /-- Its version. -/
  | version
  /-- A command on the file at a path. -/
  | run (command : Command) (path : String)
deriving DecidableEq, Repr

/-- The arguments after the name of a command, as far as they are read. -/
structure Arguments where
  /-- The file. -/
  file : Option String
  /-- Whether JSON is asked for. -/
  json : Bool
deriving DecidableEq, Repr

namespace Arguments

/-- No arguments. -/
def none : Arguments := ⟨.none, false⟩

/-- Add a file. There may be only one, and its name may not be empty. -/
def addFile (a : Arguments) (name : String) : Option Arguments :=
  if a.file.isSome || name.isEmpty then .none else some { a with file := some name }

/-- Ask for JSON. It may be asked for only once. -/
def addJson (a : Arguments) : Option Arguments :=
  if a.json then .none else some { a with json := true }

/-- Whether an argument is an option; a single dash is not. -/
def isOption (arg : String) : Bool :=
  match arg.toList with
  | '-' :: _ :: _ => true
  | _ => false

/-- **Read the arguments** of a command, which may or may not know JSON. -/
def read (knowsJson : Bool) (a : Arguments) : List String → Option Arguments
  | [] => some a
  | arg :: rest =>
    if arg = "--" then rest.foldlM addFile a
    else if isOption arg then
      if knowsJson && arg = "--json" then a.addJson.bind (read knowsJson · rest) else .none
    else (a.addFile arg).bind (read knowsJson · rest)

end Arguments

namespace Invocation

/-- Whether an argument asks for the version. The short form takes effect at its letter, whatever
follows it. -/
def asksVersion (arg : String) : Bool :=
  arg = "--version" ||
    match arg.toList with
    | '-' :: 'V' :: _ => true
    | _ => false

/-- **Read the arguments of the program.** Arguments that it does not understand give nothing. -/
def ofArguments? : List String → Option Invocation
  | [] => none
  | arg :: rest =>
    if asksVersion arg then some version
    else if arg = "tokenize" then do
      let a ← Arguments.none.read true rest
      return .run (.tokenize a.json) (← a.file)
    else if arg = "parse" then do
      let a ← Arguments.none.read false rest
      return .run .parse (← a.file)
    else none

/-- The file that is asked for. -/
def path? : Invocation → Option String
  | version => none
  | run _ path => some path

end Invocation

/-- How the program **ends**: its exit status and what it wrote. -/
structure Ending where
  /-- The exit status. -/
  status : Nat
  /-- What it wrote to the channel of results. -/
  out : List UInt8
  /-- What it wrote to the channel of diagnostics. -/
  err : List UInt8
deriving DecidableEq

namespace Ending

/-- The line that tells the version. -/
def versionLine : String := "lox 0.1.0"

/-- The line that tells how to call the program. -/
def usageLine : String := "Usage: lox [-V | --version] [tokenize [--json] FILE | parse FILE]"

/-- The ending after arguments that are not understood. -/
def misused : Ending := ⟨2, [], lineBytes usageLine⟩

/-- The ending after a question for the version. -/
def version : Ending := ⟨0, lineBytes versionLine, []⟩

/-- **The ending of a command** on the file at a path, given what comes of reading that file. -/
def ofCommand (command : Command) (path : String) (contents : Contents) : Ending :=
  match contents with
  | .ok bytes =>
    let transcript := command.transcript bytes
    ⟨transcript.status, transcript.written .out, transcript.written .err⟩
  | .error failure =>
    let d := Diagnostic.unreadable path failure.reason
    ⟨1, [], lineBytes s!"Error: cannot scan {path}: {d.message}"⟩

/-- **The ending of the program** on the given arguments, when files are read as given. -/
def ofArguments (args : List String) (read : String → Contents) : Ending :=
  match Invocation.ofArguments? args with
  | none => misused
  | some .version => version
  | some (.run command path) => ofCommand command path (read path)

end Ending

end LoxSyntax
