import SiestaVR.Kernel.PriorityQueue
import SiestaVR.Kernel.SeqFuture
import Mathlib.Data.Prod.Lex

/-!
# The simulation kernel (asynchronix/src/simulation.rs:361–474, simulation/scheduler.rs)

The scheduler queue holds actions under the time they are scheduled for and the channel
of the model they are for. A step moves to the time of the first action that is not
cancelled, takes all actions of that time off the queue (a periodic action is put back for
the next time), and hands them to the executor: actions for the same channel in one
sequence, others as tasks of their own.

An action is what it does, its period and the key it may be cancelled by. What the models do
while the actions of a step run is an input: the calls of the scheduler they make, the order
in which the executor polls, and how often an action has to wait (`Activity`). Two histories
are kept: `ran`, the actions that were run, and `scheduled`, those that models scheduled.

Loops are bounded by the length of the queue, or by the time that is left.
-/

namespace SiestaVR.Kernel

variable {F : Type}

/-- `(MonotonicTime, usize)`: time and channel, compared in this order. -/
abbrev Key := Nat ×ₗ Nat

/-- The time of a key. -/
def Key.time (k : Key) : Nat := (ofLex k).1

/-- The channel of a key. -/
def Key.channel (k : Key) : Nat := (ofLex k).2

/-- `Action`, by its kinds: `OnceAction`, `PeriodicAction`, `KeyedOnceAction` and
`KeyedPeriodicAction`. -/
inductive Action (F : Type)
  | once (fut : F)
  | periodic (gen : F) (period : Nat)
  | keyedOnce (gen : F) (eventKey : Nat)
  | keyedPeriodic (gen : F) (period eventKey : Nat)
deriving DecidableEq, Repr

namespace Action

/-- `Action::is_cancelled`, by the flags of the action keys. -/
def isCancelled (flags : Nat → Bool) : Action F → Bool
  | once _ => false
  | periodic _ _ => false
  | keyedOnce _ eventKey => flags eventKey
  | keyedPeriodic _ _ eventKey => flags eventKey

/-- `Action::next`: a periodic action again, and its period. -/
def next : Action F → Option (Action F × Nat)
  | once _ => none
  | periodic gen period => some (periodic gen period, period)
  | keyedOnce _ _ => none
  | keyedPeriodic gen period eventKey => some (keyedPeriodic gen period eventKey, period)

end Action

/-- `SchedulerQueue`. -/
abbrev SchedulerQueue (F : Type) := PriorityQueue Key (Action F)

/-- An action under its key. -/
abbrev Entry (F : Type) := Key × Action F

/-- The entry a periodic action is put back under. -/
def Entry.again (x : Entry F) : Option (Entry F) :=
  x.2.next.map fun (action, period) => (toLex (x.1.time + period, x.1.channel), action)

/-- `pull_next_action`. -/
def pullNextAction (q : SchedulerQueue F) : Option (Entry F × SchedulerQueue F) :=
  q.pull.map fun (x, q) => (x, (Entry.again x).elim q fun y => q.insert y.1 y.2)

/-- `peek_next_key`; a queue of `n` items is empty after `n` rounds. -/
def peekLoop (flags : Nat → Bool) (bound : Nat) :
    Nat → SchedulerQueue F → Option Key × SchedulerQueue F
  | 0, q => (none, q)
  | n + 1, q =>
    match q.peek with
    | some (key, action) =>
      if key.time ≤ bound then
        if !action.isCancelled flags then (some key, q)
        -- Discard cancelled actions.
        else peekLoop flags bound n q.tail
      else (none, q)
    | none => (none, q)

/-- `peek_next_key`. -/
def peekNextKey (flags : Nat → Bool) (bound : Nat) (q : SchedulerQueue F) :
    Option Key × SchedulerQueue F :=
  peekLoop flags bound q.heap.length q

/-- The inner loop of a step: the further actions under the current key go into the same
sequence. -/
def gather (flags : Nat → Bool) (bound : Nat) (currentKey : Key) :
    Nat → List (Entry F) → SchedulerQueue F →
      Option (List (Entry F) × Option Key × SchedulerQueue F)
  | 0, _, _ => none
  | n + 1, sequence, q => do
    let (action, q) ← pullNextAction q
    let sequence := sequence ++ [action]
    let (nextKey, q) := peekNextKey flags bound q
    if nextKey ≠ some currentKey then some (sequence, nextKey, q)
    else gather flags bound currentKey n sequence q

/-- An action that was pulled becomes a task of its own, or the first of a sequence. -/
def taskOf (flags : Nat → Bool) (bound : Nat) (currentKey : Key) (n : Nat) (action : Entry F)
    (nextKey : Option Key) (q : SchedulerQueue F) :
    Option (List (Entry F) × Option Key × SchedulerQueue F) :=
  if nextKey ≠ some currentKey then some ([action], nextKey, q)
  else gather flags bound currentKey n [action] q

/-- The outer loop of a step: the tasks that are spawned, and the queue that is left. -/
def spawnLoop (flags : Nat → Bool) (bound : Nat) (inlineLoneActions : Bool) :
    Nat → Bool → Key → List (List (Entry F)) → SchedulerQueue F →
      Option (List (List (Entry F)) × SchedulerQueue F)
  | 0, _, _, _, _ => none
  | n + 1, first, currentKey, tasks, q => do
    let (action, q) ← pullNextAction q
    let (nextKey, q) := peekNextKey flags bound q
    -- The only action at this time is polled in place rather than through a task.
    if first ∧ (nextKey.all fun k => currentKey.time < k.time) ∧ inlineLoneActions then
      some (tasks ++ [[action]], q)
    else
      let (task, nextKey, q) ← taskOf flags bound currentKey n action nextKey q
      let tasks := tasks ++ [task]
      match nextKey with
      | some k =>
        if k.time = currentKey.time then
          spawnLoop flags bound inlineLoneActions n false k tasks q
        else some (tasks, q)
      | none => some (tasks, q)

/-- A call of the scheduler by a model: to schedule an action or to cancel a key. -/
inductive Request (F : Type)
  | schedule (time channel : Nat) (action : Action F)
  | cancel (eventKey : Nat)
deriving DecidableEq, Repr

/-- What happens while the actions of a step run. -/
structure Activity (F : Type) where
  /-- How often an action is pending, by its task and its place there. -/
  pending : Nat → Nat → Nat := fun _ _ => 0
  /-- The tasks in the order in which the executor polls them. -/
  polls : List Nat := []
  requests : List (Request F) := []

/-- `Simulation`. -/
structure Simulation (F : Type) where
  schedulerQueue : SchedulerQueue F
  time : Nat
  flags : Nat → Bool := fun _ => false
  inlineLoneActions : Bool := true
  ran : List (Entry F) := []
  scheduled : List (Entry F) := []

namespace Simulation

/-- `Scheduler::schedule_*` and `ActionKey::cancel`. A time that is not in the future and a
period of zero are refused. -/
def handle (s : Simulation F) : Request F → Simulation F
  | .schedule time channel action =>
    if time ≤ s.time ∨ action.next.any (·.2 = 0) then s
    else
      { s with
        schedulerQueue := s.schedulerQueue.insert (toLex (time, channel)) action
        scheduled := s.scheduled ++ [(toLex (time, channel), action)] }
  | .cancel eventKey => { s with flags := fun k => k = eventKey ∨ s.flags k }

/-- The executor runs the tasks. -/
def runTasks (s : Simulation F) (act : Activity F) (tasks : List (List (Entry F))) :
    Simulation F :=
  let futures := tasks.mapIdx fun i task => task.mapIdx fun j x => ⟨x, act.pending i j⟩
  act.requests.foldl handle { s with ran := s.ran ++ run act.polls futures }

/-- `Simulation::step_to_next_bounded`. -/
def stepToNextBounded (s : Simulation F) (act : Activity F) (upperTimeBound : Nat) :
    Option (Option Nat × Simulation F) :=
  match peekNextKey s.flags upperTimeBound s.schedulerQueue with
  | (none, q) => some (none, { s with schedulerQueue := q })
  | (some currentKey, q) => do
    let (tasks, q) ← spawnLoop s.flags upperTimeBound s.inlineLoneActions q.heap.length true
      currentKey [] q
    let s := { s with time := currentKey.time, schedulerQueue := q }
    some (some currentKey.time, s.runTasks act tasks)

/-- The loop of `Simulation::step_until_unchecked`. -/
def stepUntilLoop (targetTime : Nat) : Nat → (Nat → Activity F) → Simulation F →
    Option (Simulation F)
  | 0, _, _ => none
  | n + 1, world, s => do
    match ← s.stepToNextBounded (world 0) targetTime with
    | (some t, s) =>
      -- The target time was reached exactly.
      if t = targetTime then some s
      else stepUntilLoop targetTime n (fun i => world (i + 1)) s
    | (none, s) => some { s with time := targetTime }

/-- `Simulation::step_until_unchecked`, for what happens in each step. After the first step
time moves on in every step, by a nanosecond at least. -/
def stepUntilUnchecked (s : Simulation F) (world : Nat → Activity F) (targetTime : Nat) :
    Option (Simulation F) :=
  stepUntilLoop targetTime (targetTime - s.time + 2) world s

end Simulation

end SiestaVR.Kernel
