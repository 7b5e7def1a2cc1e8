import SiestaVR.TaskSet.WakeRuns

/-!
# Broadcasts (asynchronix/src/ports/output/broadcaster.rs)

The future of a broadcast polls the futures that send its message to the receivers: all of them
once, and then those whose tasks were woken, until each has its output. It returns while none is
woken, with its waker registered and a notification asked for.

One broadcast follows another on the same task set, whether the one before was completed or was
dropped. Wakers of futures that are long gone may still be called. What a future answers is left
open, and it may be woken while it is polled.

Histories: `registered`, whether the waker was registered in this poll; `owed`, whether a future
was woken since it was last polled; `sent`, the notifications when the last poll returned.
-/

namespace SiestaVR.TaskSet.Broadcast

open SiestaVR.Lib

variable {R : Type}

/-- `FutureState`. -/
inductive FutureState
  | uninit
  | pending
  | completed
deriving DecidableEq, Repr

/-- Where `BroadcastFuture::poll` is. -/
inductive Stage
  | idle
  /-- In `discard_scheduled`. -/
  | discarding
  /-- In the first round, at a future. -/
  | first (idx : Nat)
  /-- At the head of the loop. -/
  | looping
  /-- In `take_scheduled`. -/
  | taking
  /-- The next scheduled task is to be returned. -/
  | visiting
  | visited (idx : Nat)
  /-- A future is being polled, in the first round or later. -/
  | polling (first : Bool) (idx : Nat)
  /-- With an error, while the iterator is dropped. -/
  | leaving
deriving DecidableEq, Repr

/-- The ways in which the code panics. -/
inductive Fault
  | polledAfterCompletion
  | indexOutOfBounds
  | underflow
deriving DecidableEq, Repr

/-- A `BroadcastFuture` with the fields it shares with the broadcasts before and after it. -/
structure State (R : Type) where
  set : TaskSet.State := withLen 0
  outputs : List (Option R)
  futures : Nat := 0
  pendingFuturesCount : Nat := 0
  state : FutureState := .completed
  stage : Stage := .idle
  result : Option (Except Unit Unit) := none
  fault : Option Fault := none
  registered : Bool := false
  owed : Nat → Bool := fun _ => false
  sent : Nat := 0

/-- What happens next. -/
inductive Event (R : Type)
  /-- `BroadcastFuture::new`. -/
  | new (futures : Nat)
  /-- A thread calls a waker, or goes on with such a call. -/
  | wake (idx : Nat)
  | waker (k : Nat) (weak : Bool)
  /-- The broadcast is polled. -/
  | poll
  /-- The poll goes on. -/
  | go (weak : Bool)
  /-- The future that is polled answers; it is pending if there is no answer. -/
  | answer (answer : Option (Except Unit R))

namespace State

/-- The code panics. -/
def abort (b : State R) (fault : Fault) : State R := { b with fault := some fault }

/-- The broadcast is over. -/
def complete (b : State R) (stage : Stage) (result : Except Unit Unit) : State R :=
  { b with state := .completed, stage, result := some result }

/-- `BroadcastFuture::new`. -/
def new (b : State R) (futures : Nat) : Option (State R) :=
  (b.set.step (.resize futures)).map fun set =>
    { b with
      set
      outputs := List.replicate (min futures b.outputs.length) none ++ b.outputs.drop futures
      futures
      pendingFuturesCount := futures
      state := .uninit
      result := none
      owed := fun _ => false }

/-- The first accesses of `poll`. -/
def poll (b : State R) : Option (State R) :=
  match b.state with
  | .completed => some (b.abort .polledAfterCompletion)
  | .pending => some { b with stage := .looping, registered := false }
  | .uninit => (b.set.step .discard).map fun set =>
    { b with
      set
      stage := if set.parent = .idle then .first 0 else .discarding
      registered := false }

/-- After a round: the broadcast is over if no future is pending. -/
def endRound (b : State R) : State R :=
  if b.pendingFuturesCount = 0 then b.complete .idle (.ok ())
  else { b with state := .pending, stage := .looping }

/-- A future is polled, with the waker that `waker_of` returns. -/
def pollFuture (b : State R) (first : Bool) (idx : Nat) : State R :=
  if idx < b.futures ∧ idx < b.set.taskCount then
    { b with stage := .polling first idx, owed := Function.update b.owed idx false }
  else b.abort .indexOutOfBounds

/-- The stage after an access of `take_scheduled` or of the iterator. -/
def go (b : State R) (weak : Bool) : Option (State R) :=
  match b.stage with
  | .idle => none
  | .discarding => (b.set.step (.parent weak)).map fun set =>
    { b with set, stage := if set.parent = .idle then .first 0 else .discarding }
  | .first idx =>
    if idx < b.futures then
      if idx < b.outputs.length then some (b.pollFuture true idx)
      else some (b.abort .indexOutOfBounds)
    else some b.endRound
  | .looping => (b.set.step (.take 1)).map fun set =>
    { b with set, stage := .taking, registered := b.registered || !b.set.hasScheduled }
  | .taking => (b.set.step (.parent weak)).map fun set =>
    match set.parent with
    | .idle => { b with set, stage := .idle, sent := set.fulfilled }
    | .iterating _ => { b with set, stage := .visiting }
    | _ => { b with set }
  | .visiting => (b.set.step (.parent weak)).map fun set =>
    if set.parent = .idle then State.endRound { b with set }
    else if set.yielded.length = b.set.yielded.length then { b with set }
    else { b with set, stage := .visited (set.yielded.getLastD 0) }
  | .visited idx =>
    match b.outputs[idx]? with
    | none => some (b.abort .indexOutOfBounds)
    -- Completed futures are not polled.
    | some (some _) => some { b with stage := .visiting }
    | some none => some (b.pollFuture false idx)
  | .polling _ _ => none
  | .leaving => (b.set.step (.parent weak)).map fun set =>
    { b with set, stage := if set.parent = .idle then .idle else .leaving }

/-- The future that is polled answers. -/
def answer (b : State R) (answer : Option (Except Unit R)) : Option (State R) :=
  match b.stage with
  | .polling first idx =>
    let stage := if first then .first (idx + 1) else .visiting
    match answer with
    | none => some { b with stage }
    | some (.ok output) =>
      if b.pendingFuturesCount = 0 then some (b.abort .underflow)
      else some { b with
        stage
        outputs := b.outputs.set idx (some output)
        pendingFuturesCount := b.pendingFuturesCount - 1 }
    | some (.error _) =>
      if first then some (b.complete .idle (.error ()))
      else (b.set.step .dropIterator).map fun set =>
        { b.complete .leaving (.error ()) with set }
  | _ => none

/-- One step; nothing happens any more after a panic. -/
def step (b : State R) (e : Event R) : Option (State R) :=
  if b.fault = none then
    match e with
    | .new futures => if b.stage = .idle then b.new futures else none
    | .wake idx => (b.set.step (.wake idx)).map fun set => { b with set }
    | .waker k weak => (b.set.step (.waker k weak)).map fun set =>
      { b with
        set
        owed := match wokenBy b.set set k with
          | some i => Function.update b.owed i true
          | none => b.owed }
    | .poll => if b.stage = .idle then b.poll else none
    | .go weak => b.go weak
    | .answer a => b.answer a
  else none

end State

end SiestaVR.TaskSet.Broadcast
