import LoxSyntax.Transcript

/-! # Sinks
A transcript is performed on two sinks, each of which may have room for some bytes only. The first
action that fails ends the performance, and what a sink had room for stays in it. -/

namespace LoxSyntax

/-- A **sink** for bytes. -/
structure Sink where
  /-- How many bytes it still takes, if there is a limit. -/
  room : Option Nat
  /-- The bytes it has taken. -/
  kept : Array UInt8
deriving DecidableEq

namespace Sink

/-- A sink that has taken nothing yet. -/
def empty (room : Option Nat) : Sink := ⟨room, #[]⟩

/-- Whether there is room for some bytes. -/
def fits (s : Sink) (bytes : List UInt8) : Bool := s.room.all (bytes.length ≤ ·)

/-- **Write** some bytes: those for which there is room are kept. -/
def write (s : Sink) (bytes : List UInt8) : Sink where
  room := s.room.map (· - bytes.length)
  kept := s.kept ++ s.room.elim bytes bytes.take

/-- Bytes that fit are kept whole. -/
theorem kept_write_of_fits {s : Sink} {bytes : List UInt8} (h : s.fits bytes = true) :
    (s.write bytes).kept = s.kept ++ bytes := by
  cases hr : s.room with
  | none => simp [write, hr]
  | some n =>
    have hn : bytes.length ≤ n := by simpa [fits, hr] using h
    simp [write, hr, List.take_of_length_le hn]

end Sink

/-- Why a performance **fails**. -/
inductive Failure where
  /-- A sink has no room for a byte. -/
  | full (channel : Channel)
  /-- What was written did not arrive. -/
  | flush
deriving DecidableEq, Repr

/-- The wording of a failure. -/
def Failure.message : Failure → String
  | full .out => "out full"
  | full .err => "err full"
  | flush => "out flush failed"

/-- A **stage** on which a transcript is performed. -/
structure Stage where
  /-- The sink of the channel of results. -/
  out : Sink
  /-- The sink of the channel of diagnostics. -/
  err : Sink
  /-- Whether flushing works. -/
  flushes : Bool
  /-- The records logged. -/
  log : Array Record

namespace Stage

/-- A stage on which nothing has been done, with the given room for results and diagnostics. -/
def empty (outRoom errRoom : Option Nat) (flushes : Bool) : Stage :=
  ⟨.empty outRoom, .empty errRoom, flushes, #[]⟩

/-- The sink of a channel. -/
def sink (s : Stage) : Channel → Sink
  | .out => s.out
  | .err => s.err

/-- Write bytes to a channel. -/
def write (s : Stage) (channel : Channel) (bytes : List UInt8) : Stage :=
  match channel with
  | .out => { s with out := s.out.write bytes }
  | .err => { s with err := s.err.write bytes }

/-- **Perform actions** one after the other, up to the first that fails. What that one could still
do is done. -/
def perform (s : Stage) : List Action → Stage × Option Failure
  | [] => (s, none)
  | .log record :: rest => perform { s with log := s.log.push record } rest
  | .write channel line :: rest =>
    let bytes := lineBytes line
    if (s.sink channel).fits bytes then perform (s.write channel bytes) rest
    else (s.write channel bytes, some (.full channel))
  | .flush :: rest => if s.flushes then perform s rest else (s, some .flush)

end Stage

end LoxSyntax
