import LoxSyntax.Proofs.Expr.Asking
import LoxSyntax.Proofs.Expr.Counter
import LoxSyntax.Proofs.Expr.Laziness

/-! # Bounded recursion
An endless supply has no length that goes down while it is read, and the levels that a chain takes
are given back at its end. A reading ends all the same, because a level is given back only at the
end of what it was taken for. So only so many routines are open at one moment.

What a counter notes shows this. Each routine leaves as many levels as it found, with any guard; so
a reading with a guard never gives back levels that it did not take, and has a result, which is that
of the reading with so many levels left.

1. *What a counter may show*: moments within the guard, and balanced visits.
2. *What every result leaves*, with any guard and any fuel.
3. *With a guard* the levels counted and the levels left make up the limit, so the calls are those
   of the parser: `call_guarded`.
4. *Every call* ends: `Parser.next_bounded`. -/

namespace LoxSyntax

/-! ## (1) What a counter may show -/

/-- **A balanced visit**: a success gives back the levels that it took, and no others; a failure may
keep some. -/
def Visit.Balanced (visit : Visit) : Prop :=
  if visit.succeeded then visit.after = visit.before else visit.before ≤ visit.after

/-- **A moment within the limit.** -/
def Moment.Within (limit : Nat) (moment : Moment) : Prop :=
  moment.depth ≤ limit + 1 ∧ moment.opened ≤ 3 * limit + 2

namespace Counter

variable {σ : Type}

/-- **What a counter may show**: moments within the guard, if there is one, and balanced visits. -/
structure Sound (guard : Option Nat) (c : Counter σ) : Prop where
  /-- The moments, with the one now, are within the guard. -/
  within : ∀ limit ∈ guard, ∀ moment ∈ c.moments ++ [c.now], moment.Within limit
  /-- The visits are balanced. -/
  balanced : ∀ visit ∈ c.visits, visit.Balanced

/-- **A counter is ready** to read where the guard was not passed, and so many more routines may be
opened before one goes deeper. -/
structure Ready (guard : Option Nat) (spare : Nat) (c : Counter σ) : Prop where
  /-- The levels taken. -/
  allowed : ∀ limit ∈ guard, c.now.depth ≤ limit
  /-- The routines open and still to open. -/
  opened : c.now.opened + spare ≤ 3 * c.now.depth + 2
  /-- What was noted. -/
  sound : c.Sound guard

variable {guard : Option Nat} {spare less : Nat} {c c' : Counter σ}

/-- A counter that has read nothing shows nothing wrong, and is ready. -/
theorem ready_start (guard : Option Nat) (r : Reader σ) : (start r).Ready guard 2 where
  allowed := fun _ _ => Nat.zero_le _
  opened := Nat.le_refl _
  sound := ⟨fun _ _ => List.forall_mem_singleton.mpr ⟨Nat.zero_le _, Nat.zero_le _⟩,
    List.forall_mem_nil _⟩

/-- A moment within the guard may follow. -/
theorem Sound.moveTo (sound : c.Sound guard) {moment : Moment}
    (within : ∀ limit ∈ guard, moment.Within limit) : (c.moveTo moment).Sound guard where
  within := fun limit member => List.forall_mem_append.mpr
    ⟨sound.within limit member, List.forall_mem_singleton.mpr (within limit member)⟩
  balanced := sound.balanced

/-- The moment now is within the guard. -/
theorem Sound.now (sound : c.Sound guard) : ∀ limit ∈ guard, c.now.Within limit :=
  fun limit member => sound.within limit member _ (List.mem_append_right _ List.mem_cons_self)

/-- Levels may be given back. -/
theorem Sound.leave (sound : c.Sound guard) {levels : Nat} (left : c.leave levels = some c') :
    c'.Sound guard := by
  obtain ⟨-, rfl⟩ := leave_eq_some left
  exact sound.moveTo fun limit member =>
    ⟨Nat.le_trans (Nat.sub_le _ _) (sound.now limit member).1, (sound.now limit member).2⟩

/-- As many routines may be open as were before. -/
theorem Sound.closing (sound : c'.Sound guard) (before : c.Sound guard) :
    (c'.closing c.now.opened).Sound guard :=
  sound.moveTo fun limit member => ⟨(sound.now limit member).1, (before.now limit member).2⟩

/-- A balanced visit may be noted. -/
theorem Sound.note (sound : c.Sound guard) {routine : Routine} {before : Nat} {succeeded : Bool}
    (balanced : Visit.Balanced ⟨routine, before, c.now.depth, succeeded⟩) :
    (c.note routine before succeeded).Sound guard where
  within := sound.within
  balanced := List.forall_mem_append.mpr
    ⟨sound.balanced, List.forall_mem_singleton.mpr balanced⟩

/-- A counter is ready where it was, at another time. -/
theorem Ready.again (ready : c.Ready guard spare) (depth : c'.now.depth = c.now.depth)
    (opened : c'.now.opened = c.now.opened) (sound : c'.Sound guard) : c'.Ready guard spare :=
  ⟨depth ▸ ready.allowed, by rw [opened, depth]; exact ready.opened, sound⟩

/-- A counter is ready to open fewer routines. -/
theorem Ready.mono (ready : c.Ready guard spare) (le : less ≤ spare) : c.Ready guard less :=
  ⟨ready.allowed, Nat.le_trans (Nat.add_le_add_left le _) ready.opened, ready.sound⟩

/-- A routine is opened. -/
theorem Ready.opening (ready : c.Ready guard (spare + 1)) : c.opening.Ready guard spare := by
  obtain ⟨allowed, opened, sound⟩ := ready
  refine ⟨allowed, ?_, sound.moveTo fun limit member => ⟨(sound.now limit member).1, ?_⟩⟩
  · change c.now.opened + 1 + spare ≤ 3 * c.now.depth + 2
    omega
  · have le := allowed limit member
    change c.now.opened + 1 ≤ 3 * limit + 2
    omega

/-- One level beyond the guard may be taken. -/
theorem Ready.charge (ready : c.Ready guard spare) (t : Token) : (c.charge t).Sound guard := by
  have moved : (c.moveTo ⟨c.now.depth + 1, c.now.opened⟩).Sound guard :=
    ready.sound.moveTo fun limit member =>
      ⟨Nat.succ_le_succ (ready.allowed limit member), (ready.sound.now limit member).2⟩
  exact ⟨moved.within, moved.balanced⟩

/-- One level deeper three more routines may be opened. -/
theorem Ready.deeper (ready : c.Ready guard spare) (t : Token)
    (allowed : ∀ limit ∈ guard, c.now.depth < limit) :
    (c.charge t).Ready guard (spare + 3) where
  allowed := allowed
  opened := by
    have opened := ready.opened
    change c.now.opened + (spare + 3) ≤ 3 * (c.now.depth + 1) + 2
    omega
  sound := ready.charge t

end Counter

namespace Counting

variable {σ α β : Type}

/-! ## (2) What every result leaves -/

/-- **What is left** of a counter: after a success so many levels are taken, after a failure no
fewer. No routine is left open, and what is noted is sound if the counter was ready. -/
structure Leaves (guard : Option Nat) (spare : Nat) (c : Counter σ) (depth : Nat)
    (succeeded : Bool) (c' : Counter σ) : Prop where
  /-- The levels taken. -/
  levels : if succeeded then c'.now.depth = depth else depth ≤ c'.now.depth
  /-- The routines open. -/
  opened : c'.now.opened = c.now.opened
  /-- What was noted. -/
  sound : c.Ready guard spare → c'.Sound guard

/-- **An action keeps its levels** when every result of it leaves so many. -/
def Keeps (guard : Option Nat) (spare : Nat) (x : Counting σ α) (c : Counter σ) (depth : Nat) :
    Prop :=
  ∀ result c', x c = some (result, c') → Leaves guard spare c depth result.isOk c'

section Keeps

variable {guard : Option Nat} {spare less depth : Nat} {x : Counting σ α} {c c' : Counter σ}
  {t : Token}

/-- No result leaves fewer levels. -/
theorem Leaves.le {succeeded : Bool} (leaves : Leaves guard spare c depth succeeded c') :
    depth ≤ c'.now.depth := by
  have levels := leaves.levels
  cases succeeded with
  | true => exact Nat.le_of_eq (Eq.symm levels)
  | false => exact levels

/-- A success leaves so many levels. -/
theorem Keeps.depth_eq (keeps : Keeps guard spare x c depth) {a : α}
    (done : x c = some (.ok a, c')) : c'.now.depth = depth :=
  (keeps _ _ done).levels

/-- More routines may be opened than are needed. -/
theorem Keeps.mono (keeps : Keeps guard less x c depth) (le : less ≤ spare) :
    Keeps guard spare x c depth := by
  intro result c' done
  obtain ⟨levels, opened, sound⟩ := keeps result c' done
  exact ⟨levels, opened, fun ready => sound (ready.mono le)⟩

/-- What is done to the reader takes no level. -/
theorem keeps_read (x : Reading σ α) : Keeps guard spare (read x) c c.now.depth := by
  intro result c' done
  rw [read] at done
  split at done
  · cases done
    exact ⟨rfl, rfl, fun ready => ⟨ready.sound.within, ready.sound.balanced⟩⟩
  · cases done
    exact ⟨Nat.le_refl _, rfl, fun ready => ⟨ready.sound.within, ready.sound.balanced⟩⟩

/-- What is read leaves as many levels as there were. -/
theorem depth_of_read {x : Reading σ α} {a : α} (done : read x c = some (.ok a, c')) :
    c'.now.depth = c.now.depth := by
  have keeps : Keeps none 0 (read x) c c.now.depth := keeps_read x
  exact keeps.depth_eq done

/-- A value is returned where the counter stands. -/
theorem keeps_pure (a : α) : Keeps guard spare (pure a) c c.now.depth := by
  intro result c' done
  cases done
  exact ⟨rfl, rfl, fun ready => ready.sound⟩

/-- A failure leaves the counter where it stands. -/
theorem keeps_throw (d : Diagnostic) :
    Keeps guard spare (throw d : Counting σ α) c c.now.depth := by
  intro result c' done
  cases done
  exact ⟨Nat.le_refl _, rfl, fun ready => ready.sound⟩

/-- So many levels fewer are left. -/
theorem keeps_leave (levels : Nat) :
    Keeps guard spare (leave levels) c (c.now.depth - levels) := by
  intro result c' done
  obtain ⟨c₁, left, same⟩ := Option.map_eq_some_iff.mp done
  cases same
  refine ⟨?_, ?_, fun ready => ready.sound.leave left⟩
  · obtain ⟨-, rfl⟩ := Counter.leave_eq_some left
    rfl
  · obtain ⟨-, rfl⟩ := Counter.leave_eq_some left
    rfl

/-- Actions one after the other keep what the second keeps, if the first keeps all. -/
theorem Keeps.bind {f : α → Counting σ β} (first : Keeps guard spare x c c.now.depth)
    (le : depth ≤ c.now.depth)
    (second : ∀ a c₁, c₁.now.depth = c.now.depth → Keeps guard spare (f a) c₁ depth) :
    Keeps guard spare (x >>= f) c depth := by
  intro result c' done
  rcases of_bind done with ⟨a, c₁, started, went⟩ | ⟨d, failed, rfl⟩
  · have leaves := first _ _ started
    have levels := first.depth_eq started
    have leaves' := second a c₁ levels result c' went
    exact ⟨leaves'.levels, leaves'.opened.trans leaves.opened,
      fun ready => leaves'.sound (ready.again levels leaves.opened (leaves.sound ready))⟩
  · have leaves := first _ _ failed
    exact ⟨Nat.le_trans le leaves.le, leaves.opened, leaves.sound⟩

/-- What is made of a result takes no level. -/
theorem Keeps.map (keeps : Keeps guard spare x c c.now.depth) (f : α → β) :
    Keeps guard spare (do let a ← x; return f a) c c.now.depth := by
  refine keeps.bind (Nat.le_refl _) fun a c₁ levels => ?_
  have given : Keeps guard spare (pure (f a)) c₁ c₁.now.depth := keeps_pure _
  rwa [levels] at given

/-- To note a visit takes no level. -/
theorem Keeps.visit (keeps : Keeps guard spare x c c.now.depth) (routine : Routine) :
    Keeps guard spare (visit routine x) c c.now.depth := by
  intro result c' done
  obtain ⟨c₁, went, noted⟩ := of_finishing done
  cases noted
  obtain ⟨levels, opened, sound⟩ := keeps result c₁ went
  exact ⟨levels, opened, fun ready => (sound ready).note levels⟩

/-- **Inside a routine** one routine more is open, and as many as before at its end. -/
theorem Keeps.inside (keeps : Keeps guard spare x c.opening c.now.depth) (routine : Routine) :
    Keeps guard (spare + 1) (inside routine x) c c.now.depth := by
  refine Keeps.visit ?_ routine
  intro result c' done
  obtain ⟨c₁, went, closed⟩ := of_finishing done
  cases closed
  obtain ⟨levels, opened, sound⟩ := keeps result c₁ went
  exact ⟨levels, rfl, fun ready => (sound ready.opening).closing ready.sound⟩

/-- **A level that was taken is given back**, after a failure too. -/
theorem Keeps.givingBack (keeps : Keeps guard spare x c (depth + 1)) :
    Keeps guard spare (givingBack x) c depth := by
  intro result c' done
  obtain ⟨c₁, went, left⟩ := of_finishing done
  obtain ⟨levels, opened, sound⟩ := keeps result c₁ went
  refine ⟨?_, ?_, fun ready => (sound ready).leave left⟩
  · obtain ⟨-, rfl⟩ := Counter.leave_eq_some left
    cases result with
    | ok a => exact Nat.sub_eq_of_eq_add levels
    | error d => exact Nat.le_sub_of_add_le levels
  · obtain ⟨-, rfl⟩ := Counter.leave_eq_some left
    exact opened

/-- **Where a level is taken**, what follows is done one level deeper. -/
theorem Keeps.entered {g : Unit → Counting σ α}
    (rest : Keeps guard (spare + 3) (g ()) (c.charge t) depth) (le : depth ≤ c.now.depth + 1) :
    Keeps guard spare (enter guard t >>= g) c depth := by
  intro result c' done
  rcases of_bind done with ⟨a, c₁, entered, went⟩ | ⟨d, failed, rfl⟩
  · obtain ⟨rfl, allowed⟩ := of_enter entered
    obtain ⟨levels, opened, sound⟩ := rest result c' went
    exact ⟨levels, opened, fun ready => sound (ready.deeper t (allowed rfl))⟩
  · obtain ⟨rfl, -⟩ := of_enter failed
    exact ⟨le, rfl, fun ready => ready.charge t⟩

/-- What stands one level deeper keeps all levels. -/
theorem Keeps.nested (keeps : Keeps guard (spare + 3) x (c.charge t) (c.now.depth + 1)) :
    Keeps guard spare (nested guard t x) c c.now.depth :=
  (Keeps.entered keeps.givingBack (Nat.le_succ _)).visit .nested

variable [Supply σ] {fuel : Nat}

/-- A side keeps all levels, if its operand and its chain do. -/
theorem Keeps.side (operands : ∀ c : Counter σ, Keeps guard 1 (operand guard fuel) c c.now.depth)
    (chains : ∀ (c : Counter σ) (least links : Nat) (left : Expr),
      Keeps guard 1 (chain guard fuel least links left) c (c.now.depth - links))
    (c : Counter σ) (least : Nat) : Keeps guard 2 (side guard fuel least) c c.now.depth := by
  refine Keeps.inside ((operands c.opening).bind (Nat.le_refl _) fun first c₁ levels => ?_) .side
  have rest := chains c₁ least 0 first
  rwa [Nat.sub_zero, levels] at rest

/-- A group keeps all levels, if sides do. -/
theorem Keeps.group
    (sides : ∀ (c : Counter σ) (least : Nat),
      Keeps guard 2 (Counting.side guard fuel least) c c.now.depth)
    (c : Counter σ) : Keeps guard 3 (Counting.group guard fuel) c c.now.depth := by
  refine Keeps.inside ((sides c.opening 0).bind (Nat.le_refl _) fun inner c₁ levels => ?_) .group
  have closed : Keeps guard 2 (read (Reading.closeGroup inner)) c₁ c₁.now.depth := keeps_read _
  rwa [levels] at closed

/-- **Every routine keeps its levels**, with any fuel. -/
theorem keeps_routines (guard : Option Nat) (fuel : Nat) :
    (∀ c : Counter σ, Keeps guard 1 (operand guard fuel) c c.now.depth) ∧
    ∀ (c : Counter σ) (least links : Nat) (left : Expr),
      Keeps guard 1 (chain guard fuel least links left) c (c.now.depth - links) := by
  induction fuel with
  | zero =>
      constructor
      · intro c result c' done
        cases done
      · intro c least links left result c' done
        cases done
  | succ fuel ih =>
      have sides := Keeps.side ih.1 ih.2
      obtain ⟨operands, chains⟩ := ih
      constructor
      · intro c
        rw [operand_succ]
        refine Keeps.inside ?_ .operand
        refine (keeps_read Reading.advance).bind (Nat.le_refl _) fun t c₁ levels => ?_
        rw [← show c₁.now.depth = c.now.depth from levels]
        generalize t.kind.opening? = opening
        cases opening with
        | none => exact keeps_throw _
        | some opening =>
            cases opening with
            | literal => exact keeps_pure _
            | group => exact (Keeps.group sides (c₁.charge t)).nested
            | unary op => exact (((operands (c₁.charge t)).map _).mono (by decide)).nested
      · intro c least links left
        rw [chain_succ]
        refine (keeps_read (Reading.peekOperator least)).bind (Nat.sub_le _ _)
          fun seen c₁ levels => ?_
        rw [← levels]
        cases seen with
        | none =>
            intro result c' done
            rcases of_bind done with ⟨_, c₂, went, given⟩ | ⟨d, failed, rfl⟩
            · cases given
              exact keeps_leave links _ _ went
            · exact keeps_leave links _ _ failed
        | some op =>
            refine (keeps_read Reading.advance).bind (Nat.sub_le _ _) fun t c₂ levels => ?_
            rw [← levels]
            refine Keeps.entered ?_ (Nat.le_trans (Nat.sub_le _ _) (Nat.le_succ _))
            refine ((sides (c₂.charge t) (op.precedence + 1)).mono (by decide)).bind
              (Nat.le_trans (Nat.sub_le _ _) (Nat.le_succ _)) fun right c₃ levels => ?_
            -- The operator is one more link; its level is given back with those of the others.
            have rest := chains c₃ least (links + 1) (.binary left op right)
            rw [levels] at rest
            change Keeps guard 1 _ _ (c₂.now.depth + 1 - (links + 1)) at rest
            rw [Nat.add_sub_add_right] at rest
            exact rest.mono (by omega)

/-- **A side leaves as many levels as it found.** -/
theorem keeps_side (guard : Option Nat) (fuel least : Nat) (c : Counter σ) :
    Keeps guard 2 (side guard fuel least) c c.now.depth :=
  Keeps.side (keeps_routines guard fuel).1 (keeps_routines guard fuel).2 c least

/-- A group leaves as many levels as it found. -/
theorem keeps_group (guard : Option Nat) (fuel : Nat) (c : Counter σ) :
    Keeps guard 3 (group guard fuel) c c.now.depth :=
  Keeps.group (fun c least => keeps_side guard fuel least c) c

end Keeps

/-! ## (3) With a guard -/

/-- **An action follows a reading action** from a counter: it has a result, fails and succeeds with
the other one, and leaves the reader where that leaves it. -/
inductive Tracks (x : Reading σ α) (y : Counting σ α) (c : Counter σ) : Prop where
  /-- Both succeed. -/
  | ok {a : α} {c' : Counter σ} (read : x c.reader = .ok a c'.reader)
    (counted : y c = some (.ok a, c'))
  /-- Both fail. -/
  | error {d : Diagnostic} {c' : Counter σ} (read : x c.reader = .error d c'.reader)
    (counted : y c = some (.error d, c'))

section Tracks

variable {x : Reading σ α} {y y' : Counting σ α} {c c' : Counter σ} {t : Token} {limit room : Nat}

/-- What is done to the reader follows it. -/
theorem tracks_read (x : Reading σ α) (c : Counter σ) : Tracks x (read x) c := by
  cases done : x c.reader with
  | ok a r =>
      have counted : read x c = some (.ok a, { c with reader := r }) := by rw [read, done]
      refine .ok ?_ counted
      exact done
  | error d r =>
      have counted : read x c = some (.error d, { c with reader := r }) := by rw [read, done]
      refine .error ?_ counted
      exact done

/-- Actions one after the other follow reading actions one after the other. -/
theorem Tracks.bind {f : α → Reading σ β} {g : α → Counting σ β} (first : Tracks x y c)
    (second : ∀ a c₁, y c = some (.ok a, c₁) → Tracks (f a) (g a) c₁) :
    Tracks (x >>= f) (y >>= g) c := by
  cases first with
  | @ok a c₁ done counted =>
      have read := Reading.bind_of_ok done f
      have count := bind_of_ok counted g
      cases second a c₁ counted with
      | ok read' counted' => exact .ok (read.trans read') (count.trans counted')
      | error read' counted' => exact .error (read.trans read') (count.trans counted')
  | error done counted =>
      exact .error (Reading.bind_of_error done f) (bind_of_error counted g)

/-- What does the same at a counter follows there too. -/
theorem Tracks.congr (tracks : Tracks x y c) (same : y c = y' c) : Tracks x y' c := by
  cases tracks with
  | ok read counted => exact .ok read (same.symm.trans counted)
  | error read counted => exact .error read (same.symm.trans counted)

/-- A reading that succeeds is counted with success. -/
theorem Tracks.of_ok (tracks : Tracks x y c) {a : α} {r : Reader σ} (read : x c.reader = .ok a r) :
    ∃ c', y c = some (.ok a, c') := by
  cases tracks with
  | ok read' counted =>
      cases read.symm.trans read'
      exact ⟨_, counted⟩
  | error read' => cases read.symm.trans read'

/-- A reading that is counted with success succeeds. -/
theorem Tracks.read_of_ok (tracks : Tracks x y c) {a : α} (counted : y c = some (.ok a, c')) :
    x c.reader = .ok a c'.reader := by
  cases tracks with
  | ok read counted' =>
      cases counted.symm.trans counted'
      exact read
  | error read counted' => cases counted.symm.trans counted'

/-- To finish may change all but the reader. -/
theorem Tracks.finishing (tracks : Tracks x y c)
    (finish : Except Diagnostic α → Counter σ → Option (Counter σ))
    (finishes : ∀ result c₁, y c = some (result, c₁) →
      ∃ c₂, finish result c₁ = some c₂ ∧ c₂.reader = c₁.reader) :
    Tracks x (finishing y finish) c := by
  cases tracks with
  | ok read counted =>
      obtain ⟨c₂, finished, reader⟩ := finishes _ _ counted
      exact .ok (reader ▸ read) (finishing_of_some counted finished)
  | error read counted =>
      obtain ⟨c₂, finished, reader⟩ := finishes _ _ counted
      exact .error (reader ▸ read) (finishing_of_some counted finished)

/-- To note a visit changes nothing else. -/
theorem Tracks.visit (tracks : Tracks x y c) (routine : Routine) :
    Tracks x (visit routine y) c :=
  (tracks.finishing (fun result c' => some (c'.note routine c.now.depth result.isOk))
    fun _ _ _ => ⟨_, rfl, rfl⟩).congr rfl

/-- Inside a routine nothing else is done. -/
theorem Tracks.inside (tracks : Tracks x y c.opening) (routine : Routine) :
    Tracks x (inside routine y) c := by
  refine Tracks.visit ?_ routine
  cases tracks.finishing (fun _ c' => some (c'.closing c.now.opened))
    fun _ _ _ => ⟨_, rfl, rfl⟩ with
  | ok read counted => exact .ok read counted
  | error read counted => exact .error read counted

/-- A level that was taken can be given back. -/
theorem Tracks.givingBack (tracks : Tracks x y c) {guard : Option Nat} {spare depth : Nat}
    (keeps : Keeps guard spare y c (depth + 1)) : Tracks x (givingBack y) c := by
  refine tracks.finishing _ fun result c₁ done => ?_
  have taken := Nat.le_trans (Nat.le_add_left 1 depth) (keeps result c₁ done).le
  exact ⟨_, Counter.leave_of_le taken, rfl⟩

/-- Where the guard allows one level more, what follows is done one level deeper. -/
theorem Tracks.entered {g : Unit → Counting σ α} (tracks : Tracks x (g ()) (c.charge t))
    (allowed : c.now.depth < limit) : Tracks x (enter (some limit) t >>= g) c := by
  have entered := bind_of_ok (enter_of_lt t allowed) g
  cases tracks with
  | ok read counted => exact .ok read (entered.trans counted)
  | error read counted => exact .error read (entered.trans counted)

/-- With no level left a level is taken, and reading fails. -/
theorem tracks_tooDeep (t : Token) (full : limit ≤ c.now.depth) (g : Unit → Counting σ α) :
    Tracks (Reading.tooDeep limit t) (enter (some limit) t >>= g) c := by
  refine .error ?_ (bind_of_error (enter_of_le t full) g)
  rfl

/-- What is done one level deeper follows a reading action that has one level less, and both fail
where no level is left. -/
theorem tracks_nested {x : Nat → Reading σ α} {spare : Nat} (levels : c.now.depth + room = limit)
    (keeps : Keeps (some limit) spare y (c.charge t) (c.now.depth + 1))
    (inner : ∀ less, room = less + 1 → Tracks (x less) y (c.charge t)) :
    Tracks (match room with
      | 0 => Reading.tooDeep limit t
      | less + 1 => x less) (nested (some limit) t y) c := by
  refine Tracks.visit ?_ .nested
  cases room with
  | zero => exact tracks_tooDeep t (Nat.le_of_eq levels.symm) _
  | succ less => exact ((inner less rfl).givingBack keeps).entered (by omega)

variable [Supply σ] {fuel : Nat}

/-- **Operands and chains are followed**, in so many levels and with so much fuel, where the levels
taken and these make up the limit; a chain, if the levels of its links are taken. -/
structure Parts (σ : Type) [Supply σ] (limit room fuel : Nat) : Prop where
  /-- Every operand is followed. -/
  operand : ∀ c : Counter σ, c.now.depth + room = limit →
    Tracks (Reading.operand limit room) (operand (some limit) fuel) c
  /-- Every chain is followed. -/
  chain : ∀ (c : Counter σ) (least links : Nat) (left : Expr), c.now.depth + room = limit →
    links ≤ c.now.depth →
    Tracks (Reading.chain limit room least left) (chain (some limit) fuel least links left) c

/-- A side is an operand and a chain. -/
theorem Parts.side (parts : Parts σ limit room fuel) (least : Nat)
    (levels : c.now.depth + room = limit) :
    Tracks (Reading.side limit room least) (side (some limit) fuel least) c := by
  rw [Counting.side, Reading.side]
  refine Tracks.inside ((parts.operand c.opening levels).bind fun left c₁ done => ?_) .side
  have depth := ((keeps_routines (some limit) fuel).1 c.opening).depth_eq done
  exact parts.chain c₁ least 0 left (depth ▸ levels) (Nat.zero_le _)

/-- A group is a side and the parenthesis after it. -/
theorem Parts.group (parts : Parts σ limit room fuel) (levels : c.now.depth + room = limit) :
    Tracks (Reading.side limit room 0 >>= Reading.closeGroup) (group (some limit) fuel) c := by
  rw [Counting.group]
  have read := (parts.side (c := c.opening) 0 levels).bind
    fun inner c₁ _ => tracks_read (Reading.closeGroup inner) c₁
  exact read.inside .group

/-- **An operand** is a literal, or stands one level deeper. -/
theorem tracks_operand (below : ∀ less, room = less + 1 → Parts σ limit less fuel)
    (levels : c.now.depth + room = limit) :
    Tracks (Reading.operand limit room) (operand (some limit) (fuel + 1)) c := by
  rw [operand_succ, Reading.operand]
  refine Tracks.inside ((tracks_read Reading.advance c.opening).bind fun t c₁ done => ?_) .operand
  have levels : c₁.now.depth + room = limit := depth_of_read done ▸ levels
  have deeper : ∀ less, room = less + 1 → (c₁.charge t).now.depth + less = limit :=
    fun less same => show c₁.now.depth + 1 + less = limit by omega
  generalize t.kind.opening? = opening
  cases opening with
  | none => exact .error rfl rfl
  | some opening =>
      cases opening with
      | literal => exact .ok rfl rfl
      | group =>
          refine tracks_nested levels (keeps_group _ _ _) (x := fun less => do
            let first ← Reading.operand limit less
            let inner ← Reading.chain limit less 0 first
            Reading.closeGroup inner) ?_
          intro less same
          have inside := (below less same).group (deeper less same)
          rw [Reading.side, bind_assoc] at inside
          exact inside
      | unary op =>
          have keeps := (keeps_routines (some limit) fuel).1 (c₁.charge t)
          refine tracks_nested levels (keeps.map (Expr.unary op)) (x := fun less => do
            let inner ← Reading.operand limit less
            pure (.unary op inner)) ?_
          intro less same
          exact ((below less same).operand _ (deeper less same)).bind fun inner c₂ _ => .ok rfl rfl

/-- **A chain** ends and gives back the levels of its links, or goes on with one link more. -/
theorem tracks_chain (below : ∀ less, room = less + 1 → Parts σ limit less fuel)
    (least links : Nat) (left : Expr) (levels : c.now.depth + room = limit)
    (taken : links ≤ c.now.depth) :
    Tracks (Reading.chain limit room least left)
      (chain (some limit) (fuel + 1) least links left) c := by
  rw [chain_succ, Reading.chain]
  refine (tracks_read (Reading.peekOperator least) c).bind fun seen c₁ looked => ?_
  rw [← depth_of_read looked] at levels taken
  cases seen with
  | none =>
      refine .ok ?_ (bind_of_ok (leave_of_le taken) _)
      rfl
  | some op =>
      refine (tracks_read Reading.advance c₁).bind fun t c₂ done => ?_
      rw [← depth_of_read done] at levels taken
      cases room with
      | zero => exact tracks_tooDeep t (Nat.le_of_eq levels.symm) _
      | succ less =>
          have parts := below less rfl
          have deeper : c₂.now.depth + 1 + less = limit := by omega
          refine Tracks.entered ?_ (by omega)
          -- The operator is one more link; its level is given back with those of the others.
          have rest : ∀ (right : Expr) (c₃ : Counter σ),
              side (some limit) fuel (op.precedence + 1) (c₂.charge t) = some (.ok right, c₃) →
              Tracks (Reading.chain limit less least (.binary left op right))
                (chain (some limit) fuel least (links + 1) (.binary left op right)) c₃ := by
            intro right c₃ went
            have depth : c₃.now.depth = c₂.now.depth + 1 := (keeps_side _ _ _ _).depth_eq went
            rw [← depth] at deeper
            exact parts.chain c₃ least (links + 1) _ deeper (depth ▸ Nat.succ_le_succ taken)
          have whole := (parts.side (c := c₂.charge t) (op.precedence + 1) deeper).bind rest
          rw [Reading.side, bind_assoc] at whole
          exact whole

/-- **With a guard at the limit, counting levels is having so many left.** -/
theorem parts_of_room (limit room fuel : Nat) (enough : room < fuel) :
    Parts σ limit room fuel := by
  induction room generalizing fuel with
  | zero =>
      obtain ⟨fuel, rfl⟩ := Nat.exists_eq_add_one_of_ne_zero (Nat.ne_zero_of_lt enough)
      have below : ∀ less, 0 = less + 1 → Parts σ limit less fuel := fun less none => by cases none
      exact ⟨fun c => tracks_operand below, fun c => tracks_chain below⟩
  | succ room ih =>
      obtain ⟨fuel, rfl⟩ := Nat.exists_eq_add_one_of_ne_zero (Nat.ne_zero_of_lt enough)
      have below : ∀ less, room + 1 = less + 1 → Parts σ limit less fuel := by
        intro less same
        cases same
        exact ih fuel (Nat.lt_of_succ_lt_succ enough)
      exact ⟨fun c => tracks_operand below, fun c => tracks_chain below⟩

/-- With a guard at the limit an expression is counted as it is read. -/
theorem tracks_expression (enough : limit < fuel) (r : Reader σ) :
    Tracks (Reading.expression limit limit) (side (some limit) fuel 0) (.start r) :=
  (parts_of_room limit limit fuel enough).side 0 (Nat.zero_add _)

/-- **With a guard at the limit a call does what the parser does.** -/
theorem call_guarded {p : Parser σ} {fuel : Nat} (enough : p.limit < fuel) :
    ∃ outcome, call (some p.limit) fuel p = some outcome ∧ outcome.given = p.next.given ∧
      outcome.after = p.next.after := by
  have tracks := tracks_expression enough p.reader
  have done := p.call_next
  generalize p.next.given = given at done ⊢
  generalize p.next.after = after at done ⊢
  cases done with
  | halted halted => exact ⟨_, call_of_halted halted, rfl, rfl⟩
  | ended running ends => exact ⟨_, call_of_isEnd running ends, rfl, rfl⟩
  | ok running begins read =>
      cases tracks with
      | error read' => cases read.symm.trans read'
      | ok read' counted =>
          cases read.symm.trans read'
          exact ⟨_, call_of_side running begins counted, rfl, by rw [running]; rfl⟩
  | error running begins read =>
      cases tracks with
      | ok read' => cases read.symm.trans read'
      | error read' counted =>
          cases read.symm.trans read'
          exact ⟨_, call_of_side running begins counted, rfl, rfl⟩

/-! ## (4) Every call -/

/-- **What a call notes** is sound, with any guard and any fuel. -/
theorem sound_of_call {p : Parser σ} {guard : Option Nat} {outcome : Outcome σ}
    (called : call guard fuel p = some outcome) :
    (∀ limit ∈ guard, ∀ moment ∈ outcome.moments, moment.Within limit) ∧
      ∀ visit ∈ outcome.visits, visit.Balanced := by
  rcases of_call called with nothing | ⟨-, -, result, c, counted, rfl⟩
  · rw [nothing]
    exact ⟨fun _ _ => List.forall_mem_nil _, List.forall_mem_nil _⟩
  · have sound := (keeps_side guard fuel 0 (.start p.reader) _ _ counted).sound
      (Counter.ready_start guard _)
    exact ⟨sound.within, sound.balanced⟩

end Tracks

end Counting

namespace Parser

variable {σ : Type} [Supply σ]

/-- **Every call ends**, whatever the supply gives, and when. Behind a supply that counts how often
it is asked, and otherwise answers as the one given, a parser gives what it gives behind that one,
and after any calls of it:

- The next call asks less often than a number that depends on nothing.
- It has a result with its levels counted, so that no level is given back that was not taken; and
  that is the result of the parser.
- At every moment of it at most one level beyond the limit is taken, and no more operands, groups
  and sides are being read than a number that depends on nothing.
- Every side, operand, group and what stands one level deeper leaves as many levels as it found if
  it succeeds, and no fewer if it fails. -/
theorem next_bounded (s : σ) (calls fuel : Nat) :
    let p := (counting s).afterCalls calls
    (counting s).results calls = (ofSupply s).results calls ∧
    p.next.after.ahead.supply.asked < p.ahead.supply.asked + 5 * 3 ^ maxDepth ∧
    ∃ outcome, Counting.call (some maxDepth) (maxDepth + 1 + fuel) p = some outcome ∧
      outcome.given = p.next.given ∧ outcome.after = p.next.after ∧
      (∀ moment ∈ outcome.moments,
        moment.depth ≤ maxDepth + 1 ∧ moment.opened ≤ 3 * maxDepth + 2) ∧
      ∀ visit ∈ outcome.visits, visit.Balanced := by
  intro p
  have limit : p.limit = maxDepth := limit_afterCalls _ _
  have asked := p.asks_next
  rw [limit] at asked
  have enough : p.limit < maxDepth + 1 + fuel := by
    rw [limit]
    exact Nat.le_add_right _ _
  obtain ⟨outcome, called, given, after⟩ := Counting.call_guarded enough
  rw [limit] at called
  obtain ⟨within, balanced⟩ := Counting.sound_of_call called
  exact ⟨results_of_answers (Counted.answer_ofSupply s) calls, asked, outcome, called, given, after,
    within maxDepth rfl, balanced⟩

end Parser

end LoxSyntax
