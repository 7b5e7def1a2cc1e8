import Mathlib.Algebra.Order.Ring.Nat
import SiestaVR.Lib.Threads

/-!
# Sets of tasks that wake their parent (asynchronix/src/util/task_set.rs)

The futures of a broadcast are polled by one parent task. Each has a waker of its own, and
waking it puts its index on a stack that is linked through the `next` fields of the tasks. The
head of the stack shares a word with a countdown, so that one exchange moves the head and counts
down to the notification the parent asked for. The parent takes the whole stack at once and puts
the tasks to sleep one after another.

Any number of threads call `wake_by_ref`, in any order and on any task, one access to shared
memory at a time; accesses have one total order, and `compare_exchange_weak` may fail for no
reason. The parent does one thing at a time.

Panics are a `fault`. The fields from `due` on are histories:

* `due`, whether a task was woken since it was put to sleep;
* `pushed`, the tasks put on the stack since it was taken, the last first, and `asked`, the
  notification asked for since then;
* `taken`, the tasks on the stack when it was taken, `slept`, those put to sleep since, and
  `yielded`, those the iterator returned;
* `fulfilled`, how often the tasks woken came to the number asked for, and `notified`.
-/

namespace SiestaVR.TaskSet

/-- `SLEEPING`. -/
def sleeping : UInt32 := 4294967295

/-- `EMPTY`. -/
def empty : UInt32 := sleeping - 1

/-- `INDEX_MASK`. -/
def indexMask : UInt64 := sleeping.toUInt64

/-- `COUNTDOWN_MASK`. -/
def countdownMask : UInt64 := ~~~indexMask

/-- `COUNTDOWN_ONE`. -/
def countdownOne : UInt64 := (1 : UInt64) <<< 32

/-- The index in a head. -/
def headIndex (head : UInt64) : UInt32 := (head &&& indexMask).toUInt32

/-- The ways in which the code panics. -/
inductive Fault
  | indexOutOfBounds
  /-- The notification count is not a `u32`. -/
  | notifyCount
  /-- The new size is refused. -/
  | resize
deriving DecidableEq, Repr

/-- Where a thread is in `Task::wake_by_ref`, with its local variables. -/
inductive WakeState
  /-- `next` is to be loaded. -/
  | called
  /-- At the head of the first loop. -/
  | seen (next : UInt32)
  /-- The task sleeps and the head was loaded: `next` is to be set to its index. -/
  | linking (head : UInt64)
  /-- At the head of the second loop. -/
  | pushing (head : UInt64)
  /-- The head has changed: `next` is to be set to its new index. -/
  | relinking (head : UInt64)
  | notifying
  | returned
deriving DecidableEq, Repr

/-- A call of `Task::wake_by_ref`. -/
structure Waker where
  idx : Nat
  stage : WakeState
deriving DecidableEq, Repr

/-- Where the parent is. -/
inductive Parent
  | idle
  /-- In `take_scheduled`: the head is to be loaded. The tasks are discarded if `discard`. -/
  | entered (countdown : UInt32) (discard : Bool)
  /-- In the loop of `take_scheduled`. -/
  | taking (countdown : UInt32) (discard : Bool) (head : UInt64)
  /-- With a `TaskIterator`. -/
  | iterating (nextIndex : UInt32)
  /-- In the drop handler of the `TaskIterator`. -/
  | dropping (nextIndex : UInt32)
  /-- `next` was loaded: the task is to be put to sleep. -/
  | clearing (index nextIndex : UInt32)
deriving DecidableEq, Repr

/-- A `TaskSet`, its parent and those who wake its tasks. -/
structure State where
  next : List UInt32
  taskCount : Nat
  head : UInt64 := empty.toUInt64
  wakers : List Waker := []
  parent : Parent := .idle
  fault : Option Fault := none
  due : List Bool
  pushed : List Nat := []
  asked : Nat := 0
  taken : List Nat := []
  slept : List Nat := []
  yielded : List Nat := []
  fulfilled : Nat := 0
  notified : Nat := 0
deriving DecidableEq, Repr

/-- `TaskSet::with_len`, which is `TaskSet::new` if there are none. -/
def withLen (len : Nat) : State where
  next := List.replicate len sleeping
  taskCount := len
  due := List.replicate len false

/-- What happens next. -/
inductive Event
  /-- A thread calls `wake_by_ref`. -/
  | wake (idx : Nat)
  /-- A thread goes on with its call; an exchange fails if `weak`. -/
  | waker (k : Nat) (weak : Bool)
  /-- The parent calls `take_scheduled`. -/
  | take (notifyCount : Nat)
  /-- The parent calls `discard_scheduled`. -/
  | discard
  /-- The parent goes on; an exchange fails if `weak`. -/
  | parent (weak : Bool)
  /-- The parent drops its iterator. -/
  | dropIterator
  | resize (len : Nat)
deriving DecidableEq, Repr

namespace State

/-- The code panics. -/
def abort (s : State) (fault : Fault) : State := { s with fault := some fault }

/-- `TaskSet::has_scheduled`. -/
def hasScheduled (s : State) : Bool := s.head &&& indexMask ≠ empty.toUInt64

/-- A thread goes on to `stage`. -/
def setStage (s : State) (k : Nat) (w : Waker) (stage : WakeState) : State :=
  { s with wakers := s.wakers.set k { w with stage } }

/-! ## `wake_by_ref` -/

/-- The first loop, from its head to the access behind it. -/
def wakeSeen (s : State) (k : Nat) (w : Waker) (weak : Bool) (next current : UInt32) : State :=
  if next = sleeping then s.setStage k w (.linking s.head)
  -- The task is on the stack already, or somebody is about to put it there.
  else if current = next ∧ !weak then
    { s.setStage k w .returned with due := s.due.set w.idx true }
  else s.setStage k w (.seen current)

/-- The first loop: the exchange of `next` that takes the task out of its sleep. -/
def wakeLinking (s : State) (k : Nat) (w : Waker) (weak : Bool) (head : UInt64)
    (current : UInt32) : State :=
  if current = sleeping ∧ !weak then
    { s.setStage k w (.pushing head) with next := s.next.set w.idx (headIndex head) }
  else s.setStage k w (.seen current)

/-- The second loop: the exchange of the head. -/
def wakePushing (s : State) (k : Nat) (w : Waker) (weak : Bool) (head : UInt64) : State :=
  let countdown := head &&& countdownMask
  let newCountdown := countdown - (if countdown ≠ 0 then 1 else 0) * countdownOne
  let newHead := newCountdown ||| UInt64.ofNat w.idx
  if s.head = head ∧ !weak then
    { s.setStage k w (if countdown = countdownOne then .notifying else .returned) with
      head := newHead
      due := s.due.set w.idx true
      pushed := w.idx :: s.pushed
      fulfilled := if s.pushed.length + 1 = s.asked then s.fulfilled + 1 else s.fulfilled }
  else s.setStage k w (.relinking s.head)

/-- A thread goes on with `wake_by_ref`. -/
def stepWaker (s : State) (k : Nat) (weak : Bool) : Option State :=
  match s.wakers[k]? with
  | none => none
  | some w =>
    match s.next[w.idx]? with
    | none => some (s.abort .indexOutOfBounds)
    | some current =>
      match w.stage with
      | .called => some (s.setStage k w (.seen current))
      | .seen next => some (s.wakeSeen k w weak next current)
      | .linking head => some (s.wakeLinking k w weak head current)
      | .pushing head => some (s.wakePushing k w weak head)
      | .relinking head =>
        some { s.setStage k w (.pushing head) with next := s.next.set w.idx (headIndex head) }
      | .notifying => some { s.setStage k w .returned with notified := s.notified + 1 }
      | .returned => none

/-! ## The parent -/

/-- `take_scheduled`: the exchange of the head. -/
def takeHead (s : State) (weak : Bool) (countdown : UInt32) (discard : Bool) (head : UInt64) :
    State :=
  let newHead :=
    if head &&& indexMask = empty.toUInt64 then
      countdown.toUInt64 * countdownOne ||| empty.toUInt64
    else empty.toUInt64
  if s.head = head ∧ !weak then
    let index := headIndex head
    if index = empty then
      { s with head := newHead, parent := .idle, asked := countdown.toNat }
    else
      { s with
        head := newHead
        parent := if discard then .dropping index else .iterating index
        pushed := []
        asked := 0
        taken := s.pushed
        slept := []
        yielded := [] }
  else { s with parent := .taking countdown discard s.head }

/-- A task is put to sleep. -/
def sleep (s : State) (index : UInt32) : State :=
  { s with
    next := s.next.set index.toNat sleeping
    due := s.due.set index.toNat false
    slept := s.slept ++ [index.toNat] }

/-- `TaskIterator::next`: one round of its loop. -/
def iterate (s : State) (nextIndex : UInt32) : State :=
  if nextIndex = empty then { s with parent := .idle }
  else
    match s.next[nextIndex.toNat]? with
    | none => s.abort .indexOutOfBounds
    | some next =>
      { s.sleep nextIndex with
        parent := .iterating next
        -- Inactive tasks are filtered out.
        yielded := if nextIndex.toNat < s.taskCount then s.yielded ++ [nextIndex.toNat]
          else s.yielded }

/-- `TaskIterator::drop`: the load of a round of its loop. -/
def dropNext (s : State) (nextIndex : UInt32) : State :=
  if nextIndex = empty then { s with parent := .idle }
  else
    match s.next[nextIndex.toNat]? with
    | none => s.abort .indexOutOfBounds
    | some next => { s with parent := .clearing nextIndex next }

/-- The parent goes on. -/
def stepParent (s : State) (weak : Bool) : Option State :=
  match s.parent with
  | .idle => none
  | .entered countdown discard => some { s with parent := .taking countdown discard s.head }
  | .taking countdown discard head => some (s.takeHead weak countdown discard head)
  | .iterating nextIndex => some (s.iterate nextIndex)
  | .dropping nextIndex => some (s.dropNext nextIndex)
  | .clearing index nextIndex => some { s.sleep index with parent := .dropping nextIndex }

/-- `resize`. -/
def resizeTo (s : State) (len : Nat) : State :=
  if len ≤ empty.toNat ∧ len ≤ sleeping.toNat then
    { s with
      taskCount := len
      next := s.next ++ List.replicate (len - s.next.length) sleeping
      due := s.due ++ List.replicate (len - s.next.length) false }
  else s.abort .resize

/-- One access; nothing happens any more after a panic. -/
def step (s : State) (e : Event) : Option State :=
  if s.fault = none then
    match e with
    | .wake idx =>
      if idx < s.next.length then some { s with wakers := s.wakers ++ [⟨idx, .called⟩] } else none
    | .waker k weak => s.stepWaker k weak
    | .take notifyCount =>
      if s.parent = .idle then
        if notifyCount < 2 ^ 32 then
          some { s with parent := .entered (UInt32.ofNat notifyCount) false }
        else some (s.abort .notifyCount)
      else none
    | .discard =>
      if s.parent = .idle then
        some (if s.head ≠ empty.toUInt64 then { s with parent := .entered 0 true } else s)
      else none
    | .parent weak => s.stepParent weak
    | .dropIterator =>
      match s.parent with
      | .iterating nextIndex => some { s with parent := .dropping nextIndex }
      | _ => none
    | .resize len => if s.parent = .idle then some (s.resizeTo len) else none
  else none

end State

end SiestaVR.TaskSet
