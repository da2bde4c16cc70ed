import LoxSyntax.Proofs.Command.Lines
import LoxSyntax.Proofs.Performance
import Mathlib.Data.List.Induction

/-! # Performances on limited sinks
A sink with room for some bytes only fails at the first line that does not fit, and keeps of it what
it has room for. The two sinks of a stage are limited apart from each other, and the lines of a
command go to them in one order; so the first line that does not fit its own sink ends the
performance, and decides what both sinks hold (`Command.dump_into_sinks`).

1. *Rooms*, and the first line that does not fit.
2. *Performances* of actions that fit, and of one that does not.
3. *Commands* on two limited sinks. -/

namespace LoxSyntax

/-! ## (1) Rooms -/

/-- **A room takes some bytes** if it has no limit, or they are not more than it. -/
def Takes (room : Option Nat) (bytes : List UInt8) : Prop := ∀ n ∈ room, bytes.length ≤ n

/-- Bytes fit into a sink whose room takes them. -/
theorem Sink.fits_iff {s : Sink} {bytes : List UInt8} :
    s.fits bytes = true ↔ Takes s.room bytes := by
  simp only [fits, Option.all_eq_true, decide_eq_true_eq, Takes, Option.mem_def]

/-- A room takes bytes one after the other if it takes the first ones, and what is left of it takes
the others. -/
theorem takes_append_iff {room : Option Nat} {first second : List UInt8} :
    Takes room (first ++ second) ↔
      Takes room first ∧ Takes (room.map (· - first.length)) second := by
  cases room with
  | none => simp [Takes]
  | some n =>
      simp only [Takes, Option.mem_def, Option.some.injEq, forall_eq', Option.map_some,
        List.length_append]
      omega

/-- **The first line that does not fit**: where the rooms of the channels do not take some lines,
they take those before one of them, and the room of its channel does not take that one too. -/
theorem exists_first_unfit {room : Channel → Option Nat} {lines : List Line}
    (unfit : ¬ ∀ channel, Takes (room channel) (bytesOn channel lines)) :
    ∃ before line after n, lines = before ++ line :: after ∧
      (∀ channel, Takes (room channel) (bytesOn channel before)) ∧
      room line.channel = some n ∧ n < (bytesOn line.channel (before ++ [line])).length := by
  -- The induction is from the last line: either the lines before it do not fit, or it is the first.
  induction lines using List.reverseRecOn with
  | nil => exact absurd (fun _ _ _ => Nat.zero_le _) unfit
  | append_singleton lines last ih =>
      by_cases fit : ∀ channel, Takes (room channel) (bytesOn channel lines)
      · obtain ⟨channel, exceeds⟩ := not_forall.mp unfit
        have same : last.channel = channel := by
          by_contra other
          rw [bytesOn_append, bytesOn_singleton_of_ne other, List.append_nil] at exceeds
          exact exceeds (fit channel)
        subst same
        simp only [Takes, not_forall, Nat.not_le] at exceeds
        obtain ⟨n, limited, exceeds⟩ := exceeds
        exact ⟨lines, last, [], n, rfl, fit, limited, exceeds⟩
      · obtain ⟨before, line, after, n, split, fit', limited, exceeds⟩ := ih fit
        refine ⟨before, line, after ++ [last], n, ?_, fit', limited, exceeds⟩
        rw [split, List.append_assoc, List.cons_append]

/-! ## (2) Performances -/

namespace Stage

@[simp] theorem sink_write_self (s : Stage) (channel : Channel) (bytes : List UInt8) :
    (s.write channel bytes).sink channel = (s.sink channel).write bytes := by
  cases channel <;> rfl

theorem sink_write_of_ne {channel other : Channel} (different : channel ≠ other) (s : Stage)
    (bytes : List UInt8) : (s.write channel bytes).sink other = s.sink other := by
  cases channel <;> cases other <;> first | rfl | exact absurd rfl different

@[simp] theorem flushes_write (s : Stage) (channel : Channel) (bytes : List UInt8) :
    (s.write channel bytes).flushes = s.flushes := by
  cases channel <;> rfl

@[simp] theorem log_write (s : Stage) (channel : Channel) (bytes : List UInt8) :
    (s.write channel bytes).log = s.log := by
  cases channel <;> rfl

/-- Logging is apart from the sinks. -/
@[simp] theorem sink_log (s : Stage) (log : Array Record) (channel : Channel) :
    ({ s with log := log } : Stage).sink channel = s.sink channel := by
  cases channel <;> rfl

end Stage

/-- The record that an action logs, if it logs one. -/
def Action.record? : Action → Option Record
  | log record => some record
  | write .. | flush => none

namespace Stage

/-- Actions after actions that do not fail go on where those ended. -/
theorem perform_append {s s' : Stage} {first : List Action} (done : s.perform first = (s', none))
    (second : List Action) : s.perform (first ++ second) = s'.perform second := by
  induction first generalizing s with
  | nil =>
      cases done
      rfl
  | cons action first ih =>
      cases action with
      | log record => exact ih done
      | write channel line =>
          rw [List.cons_append]
          simp only [perform] at done ⊢
          split at done
          · next fits => rw [if_pos fits, ih done]
          · cases done
      | flush =>
          rw [List.cons_append]
          simp only [perform] at done ⊢
          split at done
          · next works => rw [if_pos works, ih done]
          · cases done

/-- **A stage after actions that fit**: every sink holds the bytes of the lines that went to it, and
has room for fewer; every record is in the log. -/
structure After (s : Stage) (actions : List Action) (s' : Stage) : Prop where
  /-- What is left of the room. -/
  room : ∀ channel, (s'.sink channel).room =
    (s.sink channel).room.map (· - (bytesOn channel (actions.filterMap Action.line?)).length)
  /-- What is kept. -/
  kept : ∀ channel, (s'.sink channel).kept.toList =
    (s.sink channel).kept.toList ++ bytesOn channel (actions.filterMap Action.line?)
  /-- What is logged. -/
  log : s'.log.toList = s.log.toList ++ actions.filterMap Action.record?
  /-- Flushing works if it did. -/
  flushes : s'.flushes = s.flushes

/-- No actions leave a stage as it is. -/
theorem After.refl (s : Stage) : After s [] s :=
  ⟨by simp, by simp, by simp, rfl⟩

/-- Actions after actions. -/
theorem After.trans {s s₁ s' : Stage} {first second : List Action} (after : After s first s₁)
    (after' : After s₁ second s') : After s (first ++ second) s' where
  room channel := by
    rw [after'.room, after.room, Option.map_map, List.filterMap_append, bytesOn_append,
      List.length_append]
    congr 1
    funext n
    exact Nat.sub_sub ..
  kept channel := by
    rw [after'.kept, after.kept, List.filterMap_append, bytesOn_append, List.append_assoc]
  log := by rw [after'.log, after.log, List.filterMap_append, List.append_assoc]
  flushes := by rw [after'.flushes, after.flushes]

/-- A record changes the log alone. -/
theorem after_log (s : Stage) (record : Record) :
    After s [.log record] { s with log := s.log.push record } := by
  have written : [Action.log record].filterMap Action.line? = [] := rfl
  have logged : [Action.log record].filterMap Action.record? = [record] := rfl
  refine ⟨?_, ?_, by rw [logged, Array.toList_push], rfl⟩ <;> intro channel <;>
    rw [sink_log, written] <;> simp

/-- A line that fits is kept by its sink. -/
theorem after_write {s : Stage} {line : Line}
    (fits : (s.sink line.channel).fits (lineBytes line.text) = true) :
    After s [.write line.channel line.text] (s.write line.channel (lineBytes line.text)) := by
  have written : [Action.write line.channel line.text].filterMap Action.line? = [line] := rfl
  refine ⟨?_, ?_, by simp [Action.record?], flushes_write ..⟩ <;> intro channel <;> rw [written] <;>
    by_cases same : line.channel = channel
  · subst same
    rw [sink_write_self, bytesOn_singleton]
    rfl
  · rw [sink_write_of_ne same, bytesOn_singleton_of_ne same]
    simp
  · subst same
    rw [sink_write_self, bytesOn_singleton, Sink.kept_write_of_fits fits]
    simp
  · rw [sink_write_of_ne same, bytesOn_singleton_of_ne same, List.append_nil]

/-- Flushing changes nothing. -/
theorem after_flush (s : Stage) : After s [.flush] s := by
  have written : [Action.flush].filterMap Action.line? = [] := rfl
  have logged : [Action.flush].filterMap Action.record? = [] := rfl
  refine ⟨?_, ?_, by rw [logged, List.append_nil], rfl⟩ <;> intro channel <;> rw [written] <;> simp

/-- **Actions that fit do not fail**, if flushing works where they flush. -/
theorem perform_of_takes {s : Stage} {actions : List Action}
    (works : .flush ∈ actions → s.flushes = true)
    (fit : ∀ channel, Takes (s.sink channel).room
      (bytesOn channel (actions.filterMap Action.line?))) :
    ∃ s', s.perform actions = (s', none) ∧ After s actions s' := by
  induction actions generalizing s with
  | nil => exact ⟨s, rfl, .refl s⟩
  | cons action actions ih =>
      have later : ∀ {s₁}, After s [action] s₁ → .flush ∈ actions → s₁.flushes = true := by
        intro s₁ after member
        rw [after.flushes]
        exact works (List.mem_cons_of_mem _ member)
      -- The other actions fit into what the first one leaves of the rooms.
      have others : ∀ {s₁}, After s [action] s₁ → ∀ channel, Takes (s₁.sink channel).room
          (bytesOn channel (actions.filterMap Action.line?)) := by
        intro s₁ after channel
        have whole := fit channel
        rw [← List.singleton_append, List.filterMap_append, bytesOn_append, takes_append_iff]
          at whole
        rw [after.room]
        exact whole.2
      cases action with
      | log record =>
          have first := after_log s record
          obtain ⟨s', performed, after⟩ := ih (later first) (others first)
          exact ⟨s', performed, first.trans after⟩
      | flush =>
          have first := after_flush s
          obtain ⟨s', performed, after⟩ := ih (later first) (others first)
          refine ⟨s', ?_, first.trans after⟩
          rw [perform, if_pos (works List.mem_cons_self), performed]
      | write target text =>
          have fits : (s.sink target).fits (lineBytes text) = true := by
            have whole := fit target
            have first : (Action.write target text :: actions).filterMap Action.line? =
              ⟨target, text⟩ :: actions.filterMap Action.line? := rfl
            rw [first, bytesOn_cons, if_pos rfl, takes_append_iff] at whole
            exact Sink.fits_iff.mpr whole.1
          have first : After s [.write target text] _ := @after_write s ⟨target, text⟩ fits
          obtain ⟨s', performed, after⟩ := ih (later first) (others first)
          refine ⟨s', ?_, first.trans after⟩
          rw [perform, if_pos fits, performed]

/-- **A line that does not fit ends a performance**: its sink keeps what it has room for, and the
other one what it held. -/
theorem perform_of_over {s : Stage} {line : Line} {n : Nat}
    (limited : (s.sink line.channel).room = some n) (exceeds : n < (lineBytes line.text).length)
    (later : List Action) :
    ∃ s', s.perform (.write line.channel line.text :: later) = (s', some (.full line.channel)) ∧
      (s'.sink line.channel).kept.toList =
        (s.sink line.channel).kept.toList ++ (lineBytes line.text).take n ∧
      ∀ other, other ≠ line.channel → s'.sink other = s.sink other := by
  have fits : ¬ (s.sink line.channel).fits (lineBytes line.text) = true := by
    rw [Sink.fits_iff]
    intro takes
    exact Nat.not_le_of_lt exceeds (takes n limited)
  refine ⟨s.write line.channel (lineBytes line.text), ?_, ?_, ?_⟩
  · rw [perform, if_neg fits]
  · rw [sink_write_self]
    simp [Sink.write, limited]
  · intro other different
    exact sink_write_of_ne (Ne.symm different) s _

/-! ## (3) Commands -/

/-- An empty stage whose sinks have the given rooms. -/
theorem room_empty (room : Channel → Option Nat) (flushes : Bool) (channel : Channel) :
    ((empty (room .out) (room .err) flushes).sink channel).room = room channel := by
  cases channel <;> rfl

/-- Nothing is kept on an empty stage. -/
theorem kept_empty (outRoom errRoom : Option Nat) (flushes : Bool) (channel : Channel) :
    ((empty outRoom errRoom flushes).sink channel).kept.toList = [] := by
  cases channel <;> rfl

end Stage

namespace Command

/-- **On rooms that take all its lines** a command keeps them all; it fails only if flushing does. -/
theorem perform_of_fit {command : Command} {source : List UInt8} {room : Channel → Option Nat}
    (fit : ∀ channel, Takes (room channel) (bytesOn channel (command.lines source)))
    (flushes : Bool) :
    let performed :=
      (Stage.empty (room .out) (room .err) flushes).perform (command.transcript source).actions
    performed.2 = (if flushes then none else some .flush) ∧
      ∀ channel, (performed.1.sink channel).kept.toList =
        bytesOn channel (command.lines source) := by
  intro performed
  cases flushes with
  | true =>
      have takes : ∀ channel,
          Takes ((Stage.empty (room .out) (room .err) true).sink channel).room
            (bytesOn channel ((command.transcript source).actions.filterMap Action.line?)) := by
        intro channel
        rw [Stage.room_empty, lines_transcript]
        exact fit channel
      obtain ⟨s', done, after⟩ := Stage.perform_of_takes (fun _ => rfl) takes
      have same : performed = (s', none) := done
      rw [same]
      refine ⟨rfl, fun channel => ?_⟩
      rw [after.kept, Stage.kept_empty, lines_transcript, List.nil_append]
  | false =>
      obtain ⟨body, last, actions, silent, lines⟩ := exists_body command source
      have takes : ∀ channel,
          Takes ((Stage.empty (room .out) (room .err) false).sink channel).room
            (bytesOn channel (body.filterMap Action.line?)) := by
        intro channel
        rw [Stage.room_empty, lines]
        exact fit channel
      obtain ⟨s', done, after⟩ :=
        Stage.perform_of_takes (fun member => absurd member silent) takes
      -- All lines are kept before the flush.
      have same : performed = (s', some .flush) := by
        have stuck : s'.perform [.flush, .log last] = (s', some .flush) := by
          rw [Stage.perform, after.flushes]
          rfl
        rw [← stuck, ← Stage.perform_append done, ← actions]
      rw [same]
      refine ⟨rfl, fun channel => ?_⟩
      rw [after.kept, Stage.kept_empty, lines, List.nil_append]

/-- **Where a line does not fit** after lines that do, a command fails at it. -/
theorem perform_of_unfit {command : Command} {source : List UInt8} {room : Channel → Option Nat}
    {before after : List Line} {line : Line} {n : Nat}
    (split : command.lines source = before ++ line :: after)
    (fit : ∀ channel, Takes (room channel) (bytesOn channel before))
    (limited : room line.channel = some n)
    (exceeds : n < (bytesOn line.channel (before ++ [line])).length) (flushes : Bool) :
    let performed :=
      (Stage.empty (room .out) (room .err) flushes).perform (command.transcript source).actions
    performed.2 = some (.full line.channel) ∧
      (performed.1.sink line.channel).kept.toList =
        (bytesOn line.channel (command.lines source)).take n ∧
      ∀ other, other ≠ line.channel →
        (performed.1.sink other).kept.toList = bytesOn other before := by
  intro performed
  obtain ⟨body, last, actions, silent, lines⟩ := exists_body command source
  -- The actions up to the line write the lines before it.
  rw [split] at lines
  obtain ⟨first, others, rfl, written, later⟩ := List.filterMap_eq_append_iff.mp lines
  obtain ⟨logs, action, rest, rfl, unwritten, writes, -⟩ := List.filterMap_eq_cons_iff.mp later
  have writes : action = .write line.channel line.text := by
    cases action with
    | write channel text => cases writes; rfl
    | log record => cases writes
    | flush => cases writes
  have written' : (first ++ logs).filterMap Action.line? = before := by
    rw [List.filterMap_append, written, List.filterMap_eq_nil_iff.mpr unwritten, List.append_nil]
  have silent' : .flush ∉ first ++ logs := by
    intro member
    apply silent
    rw [← List.append_assoc]
    exact List.mem_append_left _ member
  have takes : ∀ channel,
      Takes ((Stage.empty (room .out) (room .err) flushes).sink channel).room
        (bytesOn channel ((first ++ logs).filterMap Action.line?)) := by
    intro channel
    rw [Stage.room_empty, written']
    exact fit channel
  obtain ⟨s', done, held⟩ :=
    Stage.perform_of_takes (fun member => absurd member silent') takes
  have left : (s'.sink line.channel).room =
      some (n - (bytesOn line.channel before).length) := by
    rw [held.room, Stage.room_empty, limited, written', Option.map_some]
  have long : n - (bytesOn line.channel before).length < (lineBytes line.text).length := by
    have le := fit line.channel n limited
    rw [bytesOn_append, bytesOn_singleton, List.length_append] at exceeds
    omega
  obtain ⟨s'', failed, kept, apart⟩ := Stage.perform_of_over left long (rest ++ [.flush, .log last])
  have same : performed = (s'', some (.full line.channel)) := by
    rw [← failed, ← Stage.perform_append done, ← writes]
    simp only [performed, actions, List.append_assoc, List.cons_append]
  rw [same]
  refine ⟨rfl, ?_, fun other different => ?_⟩
  · have le := fit line.channel n limited
    rw [kept, held.kept, Stage.kept_empty, written', split, bytesOn_append, bytesOn_cons,
      if_pos rfl, List.nil_append, List.take_append, List.take_of_length_le le,
      List.take_append_of_le_length (Nat.le_of_lt long)]
  · rw [apart other different, held.kept, Stage.kept_empty, written', List.nil_append]

/-- **A command without limits**: what it leaves on an empty stage on which nothing fails, and its
failure, if it has one. -/
def unlimited (command : Command) (source : List UInt8) : Stage × Option Failure :=
  (Stage.empty none none true).perform (command.transcript source).actions

/-- Without limits no command fails, and its lines and records arrive. -/
theorem after_unlimited (command : Command) (source : List UInt8) :
    (command.unlimited source).2 = none ∧
      (Stage.empty none none true).After (command.transcript source).actions
        (command.unlimited source).1 := by
  obtain ⟨s', done, after⟩ := Stage.perform_of_takes (s := Stage.empty none none true)
    (fun _ => rfl) fun channel => by
      rw [Stage.room_empty fun _ => none]
      exact fun _ limited => nomatch limited
  have same : command.unlimited source = (s', none) := done
  rw [same]
  exact ⟨rfl, after⟩

/-- Without limits every sink holds the lines that go to it. -/
theorem kept_unlimited (command : Command) (source : List UInt8) (channel : Channel) :
    ((command.unlimited source).1.sink channel).kept.toList =
      bytesOn channel (command.lines source) := by
  have kept := (after_unlimited command source).2.kept channel
  rw [Stage.kept_empty, lines_transcript] at kept
  exact kept

/-- **A command on two limited sinks.** Let the stream of a channel be what the command writes to it
when nothing is limited: the lines of its items, in their order. A command succeeds exactly if each
sink has room for its stream and flushing works, and then the sinks hold the streams. If they have
room and flushing does not work, that is its failure. Otherwise it fails at the first item whose
line does not fit into its sink: that sink holds as much of its stream as it has room for, and the
other one the lines of the items before. -/
theorem dump_into_sinks (command : Command) (source : List UInt8) (room : Channel → Option Nat)
    (flushes : Bool) :
    let performed :=
      (Stage.empty (room .out) (room .err) flushes).perform (command.transcript source).actions
    let unlimited := (Stage.empty none none true).perform (command.transcript source).actions
    let kept := fun channel => (performed.1.sink channel).kept.toList
    let stream := fun channel => (unlimited.1.sink channel).kept.toList
    let fit := ∀ channel, Takes (room channel) (stream channel)
    (∀ channel, stream channel = bytesOn channel (command.lines source)) ∧
      (performed.2 = none ↔ fit ∧ flushes = true) ∧
      (fit → performed.2 = (if flushes then none else some .flush) ∧
        ∀ channel, kept channel = stream channel) ∧
      (¬ fit → ∃ before line after n, command.lines source = before ++ line :: after ∧
        (∀ channel, Takes (room channel) (bytesOn channel before)) ∧
        room line.channel = some n ∧ n < (bytesOn line.channel (before ++ [line])).length ∧
        performed.2 = some (.full line.channel) ∧
        kept line.channel = (stream line.channel).take n ∧
        ∀ other, other ≠ line.channel → kept other = bytesOn other before) := by
  intro performed unlimited kept stream fit
  have streams : ∀ channel, stream channel = bytesOn channel (command.lines source) :=
    kept_unlimited command source
  have fit_iff : fit ↔
      ∀ channel, Takes (room channel) (bytesOn channel (command.lines source)) := by
    simp only [fit, streams]
  have whole : fit → performed.2 = (if flushes then none else some .flush) ∧
      ∀ channel, kept channel = stream channel := by
    intro fits
    obtain ⟨failure, held⟩ := perform_of_fit (fit_iff.mp fits) flushes
    exact ⟨failure, fun channel => (held channel).trans (streams channel).symm⟩
  have partly : ¬ fit → ∃ before line after n, command.lines source = before ++ line :: after ∧
      (∀ channel, Takes (room channel) (bytesOn channel before)) ∧
      room line.channel = some n ∧ n < (bytesOn line.channel (before ++ [line])).length ∧
      performed.2 = some (.full line.channel) ∧
      kept line.channel = (stream line.channel).take n ∧
      ∀ other, other ≠ line.channel → kept other = bytesOn other before := by
    intro unfit
    obtain ⟨before, line, after, n, split, fits, limited, exceeds⟩ :=
      exists_first_unfit (mt fit_iff.mpr unfit)
    obtain ⟨failure, held, others⟩ := perform_of_unfit split fits limited exceeds flushes
    refine ⟨before, line, after, n, split, fits, limited, exceeds, failure, ?_, others⟩
    rw [streams]
    exact held
  refine ⟨streams, ⟨?_, ?_⟩, whole, partly⟩
  · intro succeeded
    by_cases fits : fit
    · refine ⟨fits, ?_⟩
      have ending := (whole fits).1
      rw [succeeded] at ending
      cases flushes with
      | true => rfl
      | false => cases ending
    · obtain ⟨before, line, after, n, -, -, -, -, failure, -⟩ := partly fits
      rw [succeeded] at failure
      cases failure
  · rintro ⟨fits, rfl⟩
    exact (whole fits).1

end Command

end LoxSyntax
