import LoxSyntax.CommandLine

/-! # The program
Reads the file that the arguments name, writes what comes of it, and exits. -/

namespace LoxSyntax

/-- The number of an error, which the system gives with either sign. -/
def errorNumber (code : UInt32) : Nat := min code.toNat (0 - code).toNat

/-- The failure that an error of the system stands for. -/
def ReadFailure.ofError : IO.Error → ReadFailure
  | .noFileOrDirectory .. => .notFound
  | .inappropriateType _ code details =>
    if errorNumber code = 21 then .isFolder
    else if errorNumber code = 20 then .notFolder
    else .other s!"{details} (os error {errorNumber code})"
  | .permissionDenied _ code details => .other s!"{details} (os error {errorNumber code})"
  | error => .other error.toString

/-- Read the file at a path. -/
def readSource (path : String) : IO Contents := do
  try
    let bytes ← IO.FS.readBinFile path
    return .ok bytes.toList
  catch error => return .error (.ofError error)

/-- Write an ending and give its status. -/
def Ending.perform (ending : Ending) : IO UInt32 := do
  let out ← IO.getStdout
  out.write ⟨ending.out.toArray⟩
  out.flush
  (← IO.getStderr).write ⟨ending.err.toArray⟩
  return UInt32.ofNat ending.status

end LoxSyntax

open LoxSyntax in
/-- The program. -/
def main (args : List String) : IO UInt32 := do
  let path? := (Invocation.ofArguments? args).bind (·.path?)
  let contents ← match path? with
    | some path => readSource path
    | none => pure (.error .notFound)
  (Ending.ofArguments args fun _ => contents).perform
