import LoxSyntax.Lexical.Byte
import LoxSyntax.Record
import LoxSyntax.Text.Utf8

/-! # Transcripts
What a command does to the world is a **transcript**: a list of actions in their order, made without
doing any of them, so that it can be compared, counted and performed under any conditions. -/

namespace LoxSyntax

/-- The two **channels** of a command. -/
inductive Channel where
  /-- For results. -/
  | out
  /-- For diagnostics. -/
  | err
deriving DecidableEq, Repr

/-- An **action** of a command. -/
inductive Action where
  /-- Log a record. -/
  | log (record : Record)
  /-- Write a line, to which a newline is added. -/
  | write (channel : Channel) (line : String)
  /-- Make sure that what was written to the channel of results has arrived. -/
  | flush
deriving DecidableEq, Repr

/-- A **transcript**: the actions of a command, and the exit status that it ends with if none of
them fails. -/
structure Transcript where
  /-- The actions, in order. -/
  actions : List Action
  /-- The exit status. -/
  status : Nat
deriving DecidableEq, Repr

/-- The bytes of a line. -/
def lineBytes (line : String) : List UInt8 := Utf8.encode line ++ [Byte.newline]

/-- What a transcript writes to a channel when nothing fails. -/
def Transcript.written (t : Transcript) (channel : Channel) : List UInt8 :=
  t.actions.flatMap fun
    | .write c line => if c = channel then lineBytes line else []
    | _ => []

/-- Only lines written to a channel count for it. -/
theorem Transcript.written_append (first second : List Action) (status : Nat) (channel : Channel) :
    (Transcript.mk (first ++ second) status).written channel =
      (Transcript.mk first status).written channel ++
        (Transcript.mk second status).written channel := by
  simp [written]

end LoxSyntax
