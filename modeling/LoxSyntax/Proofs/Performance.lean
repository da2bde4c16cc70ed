import LoxSyntax.Sink

/-! # Performances without limits
On a stage whose sinks take every byte and whose flushing works, no action fails: a transcript is
performed to its end, and each sink then holds what the transcript writes to its channel. -/

namespace LoxSyntax

namespace Stage

@[simp] theorem sink_out (s : Stage) : s.sink .out = s.out := rfl

@[simp] theorem sink_err (s : Stage) : s.sink .err = s.err := rfl

/-- A stage **without limits**. -/
structure Unlimited (s : Stage) : Prop where
  /-- The sinks take every byte. -/
  room : ∀ channel, (s.sink channel).room = none
  /-- Flushing works. -/
  flushes : s.flushes = true

/-- An empty stage on which nothing can fail. -/
theorem unlimited_empty : (empty none none true).Unlimited where
  room channel := by cases channel <;> rfl
  flushes := rfl

/-- What is written to one channel is kept in its sink, and in no other. -/
theorem Unlimited.kept_write {s : Stage} (unlimited : s.Unlimited) (channel other : Channel)
    (bytes : List UInt8) :
    ((s.write channel bytes).sink other).kept.toList =
      (s.sink other).kept.toList ++ if channel = other then bytes else [] := by
  have room := unlimited.room channel
  cases channel <;> cases other <;> simp_all [write, sink, Sink.write]

/-- Writing sets no limit. -/
theorem Unlimited.write {s : Stage} (unlimited : s.Unlimited) (channel : Channel)
    (bytes : List UInt8) : (s.write channel bytes).Unlimited where
  room other := by
    have room := unlimited.room other
    cases channel <;> cases other <;> simp_all [Stage.write, sink, Sink.write]
  flushes := by
    cases channel <;> exact unlimited.flushes

/-- **Every transcript is performed to its end** on a stage without limits. -/
theorem Unlimited.perform {s : Stage} (unlimited : s.Unlimited) (actions : List Action)
    (status : Nat) :
    ∃ s', s.perform actions = (s', none) ∧ ∀ channel, (s'.sink channel).kept.toList =
      (s.sink channel).kept.toList ++ (Transcript.mk actions status).written channel := by
  induction actions generalizing s with
  | nil => exact ⟨s, rfl, fun channel => (List.append_nil _).symm⟩
  | cons action actions ih =>
      cases action with
      | log record =>
          -- The log is apart from the sinks.
          have logged : Unlimited { s with log := s.log.push record } := by
            refine ⟨fun channel => ?_, unlimited.flushes⟩
            cases channel with
            | out => exact unlimited.room .out
            | err => exact unlimited.room .err
          obtain ⟨s', performed, kept⟩ := ih logged
          refine ⟨s', performed, fun channel => ?_⟩
          rw [kept]
          cases channel <;> rfl
      | write channel line =>
          obtain ⟨s', performed, kept⟩ := ih (unlimited.write channel (lineBytes line))
          -- Nothing is too long for a sink without a limit.
          have fits : (s.sink channel).fits (lineBytes line) = true := by
            rw [Sink.fits, unlimited.room, Option.all_none]
          refine ⟨s', ?_, fun other => ?_⟩
          · rw [Stage.perform, if_pos fits, performed]
          · rw [kept, unlimited.kept_write, List.append_assoc]
            rfl
      | flush =>
          obtain ⟨s', performed, kept⟩ := ih unlimited
          refine ⟨s', ?_, kept⟩
          rw [Stage.perform, if_pos unlimited.flushes, performed]

end Stage

end LoxSyntax
