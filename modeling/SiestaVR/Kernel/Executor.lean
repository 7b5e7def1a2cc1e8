import Mathlib.Data.List.Destutter
import Mathlib.Logic.Function.Basic

/-!
# The single-threaded executor (asynchronix/src/executor/st_executor.rs, task.rs, runnable.rs)

Futures are named by `ι`; what they have stored is part of the state `σ` that they share.
`Futures` says what polling and dropping one of them does: the new state and which wakers it
uses, and of a poll whether the future is ready. A waker is the one of the most recent poll of
its future. The waker of a task counts the wake-ups and puts the task on the work queue at the
first one; the waker of `run_first` does nothing, so a future that has no task is not woken.

A future is dropped once it has completed. `Runnable::run` does so at once
(task/runnable.rs:127), with the task still marked as being polled; `run_first` owns the future
it polls in place until its closure ends (st_executor.rs:110–128), and drops it when the work
queue is empty. An `async` block releases what it holds in the poll that completes it, and then
the drop has no effect; a future written by hand may hold a sender until it is dropped, and wake
the task at the other end with the drop.

Cancel tokens only serve to drop the tasks together with the executor, so the active tasks
are kept as their wake counts, without the limit of `2 ^ 30` wake-ups between two polls. Loops
that need not end have a bound on their rounds, and give nothing if it does not suffice.

Polling a lone action in place leaves the same executions and the same final state as spawning
it and running the executor (`run_first_as_spawned`): the queue is last in, first out, so the
spawned task would be run first, and until it returns nothing else is run. That rests on the drop
of a future that is ready at once having no effect. If it wakes a task, `run_first` leaves that
task on the queue (`run_first_drops_late`), to be run with the next action.
-/

namespace SiestaVR.Kernel

variable {ι σ : Type} [DecidableEq ι]

/-- What happens while a future is polled or dropped. -/
structure Effect (ι σ : Type) where
  state : σ
  /-- The futures whose wakers are used, in order. -/
  wakes : List ι
deriving DecidableEq, Repr

/-- What a poll gives. -/
structure Polled (ι σ : Type) extends Effect ι σ where
  ready : Bool
deriving DecidableEq, Repr

/-- The futures: what polling one does, and what dropping one does that has completed. -/
structure Futures (ι σ : Type) where
  poll : ι → σ → Polled ι σ
  drop : ι → σ → Effect ι σ

/-- `Executor`. -/
structure Executor (ι σ : Type) where
  /-- The work queue; what was pushed last comes first. -/
  queue : List ι
  /-- The wake counts of the tasks that have not completed. -/
  activeTasks : ι → Option Nat
  state : σ

namespace Executor

/-- The executor with another entry for a task. -/
def setTask (ex : Executor ι σ) (i : ι) (task : Option Nat) : Executor ι σ :=
  { ex with activeTasks := Function.update ex.activeTasks i task }

/-- `Task::wake`, with `schedule_task` if the task is not on the queue and not being polled. -/
def wake (ex : Executor ι σ) (i : ι) : Executor ι σ :=
  match ex.activeTasks i with
  -- Completed, or polled with the waker that does nothing.
  | none => ex
  | some wakeCount =>
    { ex.setTask i (some (wakeCount + 1)) with
      queue := if wakeCount = 0 then i :: ex.queue else ex.queue }

/-- The executor after a poll or a drop. -/
def affected (ex : Executor ι σ) (e : Effect ι σ) : Executor ι σ :=
  e.wakes.foldl wake { ex with state := e.state }

/-- `Executor::spawn_and_forget`. -/
def spawnAndForget (ex : Executor ι σ) (future : ι) : Executor ι σ :=
  { ex.setTask future (some 1) with queue := future :: ex.queue }

variable (fs : Futures ι σ)

/-- A completed future is dropped. -/
def dropped (ex : Executor ι σ) (i : ι) : Executor ι σ := ex.affected (fs.drop i ex.state)

/-- The loop of `Runnable::run`: the polls, and the executor after them. -/
def runTask : Nat → ι → Nat → Executor ι σ → Option (List ι × Executor ι σ)
  | 0, _, _, _ => none
  | n + 1, i, wakeCount, ex =>
    let p := fs.poll i ex.state
    let ex := ex.affected p.toEffect
    -- The task is closed after the drop, so that it does not schedule itself.
    if p.ready then some ([i], (ex.dropped fs i).setTask i none)
    else
      -- Wake-ups during the poll are served here, without the queue.
      let rest := (ex.activeTasks i).getD 0 - wakeCount
      if rest = 0 then some ([i], ex.setTask i (some rest))
      else (runTask n i rest (ex.setTask i (some rest))).map fun r => (i :: r.1, r.2)

/-- `Executor::run`: the polls, and the executor after them. -/
def run : Nat → Executor ι σ → Option (List ι × Executor ι σ)
  | 0, _ => none
  | n + 1, ex =>
    match ex.queue with
    | [] => some ([], ex)
    | i :: queue =>
      (runTask fs n i ((ex.activeTasks i).getD 0) { ex with queue }).bind fun r =>
        (run n r.2).map fun r' => (r.1 ++ r'.1, r'.2)

/-- `Executor::run_first`: the polls, and the executor after them. -/
def runFirst (n : Nat) (ex : Executor ι σ) (future : ι) : Option (List ι × Executor ι σ) :=
  let p := fs.poll future ex.state
  let ex := ex.affected p.toEffect
  if p.ready then
    -- The future was not moved into a task: it is dropped after the loop.
    (run fs n ex).map fun r => (future :: r.1, r.2.dropped fs future)
  else (run fs n (ex.spawnAndForget future)).map fun r => (future :: r.1, r.2)

/-- The executions of tasks: polls of one task in a row are one execution. -/
def executions (polls : List ι) : List ι := polls.destutter (· ≠ ·)

/-! ### Wake counts -/

section Wakes

variable {i : ι} {ex : Executor ι σ}

@[simp] theorem setTask_setTask (ex : Executor ι σ) (i : ι) (t t' : Option Nat) :
    (ex.setTask i t).setTask i t' = ex.setTask i t' := by
  simp [setTask]

theorem setTask_of_eq {t : Option Nat} (h : ex.activeTasks i = t) : ex.setTask i t = ex := by
  simp [setTask, ← h]

@[simp] theorem activeTasks_setTask (ex : Executor ι σ) (i : ι) (t : Option Nat) :
    (ex.setTask i t).activeTasks i = t :=
  Function.update_self ..

/-- To the other tasks it makes no difference whether a task that is not to be scheduled is
woken: one wake-up. -/
theorem wake_setTask (ex : Executor ι σ) (i j : ι) {count : Nat} (hcount : 0 < count) :
    (ex.setTask i (some count)).wake j =
      ((ex.setTask i none).wake j).setTask i (some (count + [j].count i)) := by
  by_cases hj : j = i
  · subst hj
    simp [wake, hcount.ne', setTask]
  · have hne : Function.update ex.activeTasks i (some count) j = ex.activeTasks j :=
      Function.update_of_ne hj ..
    have hne' : Function.update ex.activeTasks i none j = ex.activeTasks j :=
      Function.update_of_ne hj ..
    have hcnt : [j].count i = 0 := by simp [hj]
    simp only [wake, setTask, hne, hne', hcnt, Nat.add_zero]
    cases ex.activeTasks j with
    | none => simp
    | some wakeCount => simp [Function.update_comm hj]

theorem activeTasks_wake (h : ex.activeTasks i = none) (j : ι) :
    (ex.wake j).activeTasks i = none := by
  unfold wake
  cases hj : ex.activeTasks j with
  | none => exact h
  | some wakeCount =>
    have hne : i ≠ j := by
      rintro rfl
      rw [h] at hj
      cases hj
    exact (Function.update_of_ne hne ..).trans h

theorem activeTasks_foldl_wake (wakes : List ι) (h : ex.activeTasks i = none) :
    (wakes.foldl wake ex).activeTasks i = none := by
  induction wakes generalizing ex with
  | nil => exact h
  | cons j wakes ih => exact ih (activeTasks_wake h j)

theorem foldl_wake_setTask (wakes : List ι) (ex : Executor ι σ) (i : ι) {count : Nat}
    (hcount : 0 < count) :
    wakes.foldl wake (ex.setTask i (some count)) =
      (wakes.foldl wake (ex.setTask i none)).setTask i (some (count + wakes.count i)) := by
  induction wakes generalizing ex count with
  | nil => simp
  | cons j wakes ih =>
    have hnone : ((ex.setTask i none).wake j).activeTasks i = none :=
      activeTasks_wake (activeTasks_setTask ..) j
    rw [List.foldl_cons, wake_setTask ex i j hcount, ih _ (by omega), setTask_of_eq hnone,
      List.foldl_cons]
    congr 2
    rw [show j :: wakes = [j] ++ wakes from rfl, List.count_append]
    omega

/-- What a poll or a drop of a task's future does, next to what it does without the task. -/
theorem affected_setTask (ex : Executor ι σ) (i : ι) (e : Effect ι σ) {count : Nat}
    (hcount : 0 < count) :
    (ex.setTask i (some count)).affected e =
      ((ex.setTask i none).affected e).setTask i (some (count + e.wakes.count i)) :=
  foldl_wake_setTask e.wakes { ex with state := e.state } i hcount

theorem activeTasks_affected (h : ex.activeTasks i = none) (e : Effect ι σ) :
    (ex.affected e).activeTasks i = none :=
  activeTasks_foldl_wake e.wakes h

/-- A drop before the task is closed leaves the same as one without the task. -/
theorem dropped_setTask (fs : Futures ι σ) (h : ex.activeTasks i = none) {count : Nat}
    (hcount : 0 < count) :
    ((ex.setTask i (some count)).dropped fs i).setTask i none = ex.dropped fs i := by
  have hstate : (ex.setTask i (some count)).state = ex.state := rfl
  rw [dropped, hstate, affected_setTask ex i _ hcount, setTask_setTask, setTask_of_eq h]
  exact setTask_of_eq (activeTasks_affected h _)

@[simp] theorem state_wake (ex : Executor ι σ) (j : ι) : (ex.wake j).state = ex.state := by
  unfold wake
  split
  · rfl
  · rfl

@[simp] theorem state_affected (ex : Executor ι σ) (e : Effect ι σ) :
    (ex.affected e).state = e.state := by
  suffices h : ∀ (wakes : List ι) (ex : Executor ι σ), (wakes.foldl wake ex).state = ex.state from
    h e.wakes _
  intro wakes
  induction wakes with
  | nil => intro ex; rfl
  | cons j wakes ih =>
    intro ex
    rw [List.foldl_cons, ih, state_wake]

end Wakes

/-! ### One task -/

section Task

variable {fs} {i : ι} {ex : Executor ι σ}

/-- One round of a task that has been woken, however often: the wake-ups that are left are those
of the poll. -/
theorem runTask_succ (n : Nat) (ex : Executor ι σ) (i : ι) {count : Nat} (hcount : 0 < count) :
    runTask fs (n + 1) i count (ex.setTask i (some count)) =
      let p := fs.poll i ex.state
      let ex := (ex.setTask i none).affected p.toEffect
      if p.ready then some ([i], ex.dropped fs i)
      else if p.wakes.count i = 0 then some ([i], ex.setTask i (some 0))
      else (runTask fs n i (p.wakes.count i) (ex.setTask i (some (p.wakes.count i)))).map
        fun r => (i :: r.1, r.2) := by
  have hnone := activeTasks_affected (activeTasks_setTask ex i none) (fs.poll i ex.state).toEffect
  have hrest : count + (fs.poll i ex.state).wakes.count i - count =
      (fs.poll i ex.state).wakes.count i := by omega
  simp only [runTask, show (ex.setTask i (some count)).state = ex.state from rfl,
    affected_setTask ex i _ hcount, setTask_setTask, activeTasks_setTask, Option.getD_some, hrest,
    dropped_setTask fs hnone (show 0 < count + (fs.poll i ex.state).wakes.count i by omega)]
  split
  · rfl
  · split
    next h => rw [h]
    next h => rfl

theorem runTask_count (n : Nat) (ex : Executor ι σ) (i : ι) {count count' : Nat}
    (hcount : 0 < count) (hcount' : 0 < count') :
    runTask fs n i count (ex.setTask i (some count)) =
      runTask fs n i count' (ex.setTask i (some count')) := by
  cases n with
  | zero => rfl
  | succ n => rw [runTask_succ n ex i hcount, runTask_succ n ex i hcount']

theorem runTask_mono {n count : Nat} {r : List ι × Executor ι σ}
    (h : runTask fs n i count ex = some r) : runTask fs (n + 1) i count ex = some r := by
  induction n generalizing count ex r with
  | zero => cases h
  | succ n ih =>
    rw [runTask] at h ⊢
    dsimp only at h ⊢
    split
    next hready => rwa [if_pos hready] at h
    next hready =>
      rw [if_neg hready] at h
      split
      next hrest => rwa [if_pos hrest] at h
      next hrest =>
        rw [if_neg hrest] at h
        obtain ⟨r', hr', rfl⟩ := Option.map_eq_some_iff.1 h
        rw [ih hr', Option.map_some]

theorem run_succ_iff {n : Nat} {queue : List ι} {r : List ι × Executor ι σ}
    (hqueue : ex.queue = i :: queue) :
    run fs (n + 1) ex = some r ↔
      ∃ polls ex' rest, runTask fs n i ((ex.activeTasks i).getD 0) { ex with queue } =
          some (polls, ex') ∧
        run fs n ex' = some (rest, r.2) ∧ r.1 = polls ++ rest := by
  rw [run, hqueue]
  dsimp only
  constructor
  · intro h
    obtain ⟨⟨polls, ex'⟩, htask, h⟩ := Option.bind_eq_some_iff.1 h
    obtain ⟨⟨rest, final⟩, hrest, rfl⟩ := Option.map_eq_some_iff.1 h
    exact ⟨polls, ex', rest, htask, hrest, rfl⟩
  · rintro ⟨polls, ex', rest, htask, hrest, hr⟩
    rw [htask, Option.bind_some, hrest, Option.map_some, ← hr]

theorem run_mono {n : Nat} {r : List ι × Executor ι σ} (h : run fs n ex = some r) :
    run fs (n + 1) ex = some r := by
  induction n generalizing ex r with
  | zero => cases h
  | succ n ih =>
    cases hqueue : ex.queue with
    | nil =>
      rw [run, hqueue] at h ⊢
      exact h
    | cons i queue =>
      obtain ⟨polls, ex', rest, htask, hrest, hr⟩ := (run_succ_iff hqueue).1 h
      exact (run_succ_iff hqueue).2 ⟨polls, ex', rest, runTask_mono htask, ih hrest, hr⟩

end Task

/-! ### Polling in place -/

section InPlace

variable {fs} {future : ι} {ex final : Executor ι σ} {P : List ι → Prop}

variable (fs) in
/-- The executor runs until its queue is empty and is then `final`; of the polls, `P` holds. -/
def Leaves (ex final : Executor ι σ) (P : List ι → Prop) : Prop :=
  ∃ n polls, run fs n ex = some (polls, final) ∧ P polls

theorem run_spawnAndForget_iff {n : Nat} {r : List ι × Executor ι σ} :
    run fs (n + 1) (ex.spawnAndForget future) = some r ↔
      ∃ polls ex' rest, runTask fs n future 1 (ex.setTask future (some 1)) =
          some (polls, ex') ∧
        run fs n ex' = some (rest, r.2) ∧ r.1 = polls ++ rest := by
  have hcount : ((ex.spawnAndForget future).activeTasks future).getD 0 = 1 := by
    show ((ex.setTask future (some 1)).activeTasks future).getD 0 = 1
    rw [activeTasks_setTask, Option.getD_some]
  have hqueue : (ex.spawnAndForget future).queue = future :: ex.queue := rfl
  rw [run_succ_iff hqueue, hcount]
  rfl

/-- Where the first execution of a spawned future is one poll, its task leaves the queue as it
was before, up to the wake-ups of the poll. -/
theorem leaves_spawned_of_once {ex' : Executor ι σ}
    (htask : ∀ n, runTask fs (n + 1) future 1 (ex.setTask future (some 1)) =
      some ([future], ex')) :
    Leaves fs (ex.spawnAndForget future) final P ↔
      Leaves fs ex' final fun rest => P (future :: rest) := by
  constructor
  · rintro ⟨_ | _ | n, polls, h, hP⟩
    · cases h
    · obtain ⟨_, _, _, h, -⟩ := run_spawnAndForget_iff.1 h
      cases h
    · obtain ⟨polls', _, rest, htask', hrest, hpolls⟩ := run_spawnAndForget_iff.1 h
      obtain ⟨rfl, rfl⟩ := Prod.mk.inj (Option.some.inj ((htask n).symm.trans htask'))
      subst hpolls
      exact ⟨n + 1, rest, hrest, hP⟩
  · rintro ⟨_ | n, rest, h, hP⟩
    · cases h
    · exact ⟨n + 2, future :: rest, run_spawnAndForget_iff.2
        ⟨[future], ex', rest, htask n, h, rfl⟩, hP⟩

/-- A future that is ready at its first poll: it is dropped before anything else is run. -/
theorem leaves_spawned_of_ready (hnew : ex.activeTasks future = none)
    (hready : (fs.poll future ex.state).ready = true) :
    Leaves fs (ex.spawnAndForget future) final P ↔
      Leaves fs ((ex.affected (fs.poll future ex.state).toEffect).dropped fs future) final
        fun rest => P (future :: rest) := by
  apply leaves_spawned_of_once
  intro n
  rw [runTask_succ n ex future Nat.one_pos]
  dsimp only
  rw [if_pos hready, setTask_of_eq hnew]

/-- A future that is pending and has not been woken at its first poll: its task waits. -/
theorem leaves_spawned_of_waits (hnew : ex.activeTasks future = none)
    (hpending : (fs.poll future ex.state).ready = false)
    (hwakes : future ∉ (fs.poll future ex.state).wakes) :
    Leaves fs (ex.spawnAndForget future) final P ↔
      Leaves fs ((ex.affected (fs.poll future ex.state).toEffect).setTask future (some 0)) final
        fun rest => P (future :: rest) := by
  apply leaves_spawned_of_once
  intro n
  rw [runTask_succ n ex future Nat.one_pos]
  dsimp only
  rw [if_neg (by simp [hpending]), if_pos (List.count_eq_zero.2 hwakes), setTask_of_eq hnew]

/-- A future that has been woken at its first poll is polled again at once, as if it had been
spawned after that poll. -/
theorem leaves_spawned_of_woken (hnew : ex.activeTasks future = none)
    (hpending : (fs.poll future ex.state).ready = false)
    (hwakes : future ∈ (fs.poll future ex.state).wakes) :
    Leaves fs (ex.spawnAndForget future) final P ↔
      Leaves fs ((ex.affected (fs.poll future ex.state).toEffect).spawnAndForget future) final
        fun rest => P (future :: rest) := by
  have hcount : 0 < (fs.poll future ex.state).wakes.count future := List.count_pos_iff.2 hwakes
  -- The counts differ: the task has been woken by the poll, the new task by being spawned.
  have htask (n : Nat) : runTask fs (n + 1) future 1 (ex.setTask future (some 1)) =
      (runTask fs n future 1
        ((ex.affected (fs.poll future ex.state).toEffect).setTask future (some 1))).map
          fun r => (future :: r.1, r.2) := by
    rw [runTask_succ n ex future Nat.one_pos]
    dsimp only
    rw [if_neg (by simp [hpending]), if_neg hcount.ne', setTask_of_eq hnew,
      runTask_count n _ future hcount Nat.one_pos]
  constructor
  · rintro ⟨_ | _ | n, polls, h, hP⟩
    · cases h
    · obtain ⟨_, _, _, h, -⟩ := run_spawnAndForget_iff.1 h
      cases h
    · obtain ⟨polls', ex', rest, htask', hrest, hpolls⟩ := run_spawnAndForget_iff.1 h
      rw [htask n] at htask'
      obtain ⟨⟨polls'', _⟩, htask'', heq⟩ := Option.map_eq_some_iff.1 htask'
      cases heq
      subst hpolls
      exact ⟨n + 2, polls'' ++ rest, run_spawnAndForget_iff.2
        ⟨polls'', _, rest, runTask_mono htask'', hrest, rfl⟩, hP⟩
  · rintro ⟨_ | n, rest, h, hP⟩
    · cases h
    · obtain ⟨polls, ex', rest', htask', hrest, hpolls⟩ := run_spawnAndForget_iff.1 h
      dsimp only at hpolls
      subst hpolls
      refine ⟨n + 2, future :: (polls ++ rest'), run_spawnAndForget_iff.2
        ⟨future :: polls, ex', rest', ?_, run_mono hrest, rfl⟩, hP⟩
      rw [htask n, htask', Option.map_some]

theorem exists_runFirst_of_ready (hready : (fs.poll future ex.state).ready = true) :
    (∃ n polls, runFirst fs n ex future = some (polls, final) ∧ P polls) ↔
      ∃ last, Leaves fs (ex.affected (fs.poll future ex.state).toEffect) last
        (fun rest => P (future :: rest)) ∧ last.dropped fs future = final := by
  simp only [runFirst, hready, if_true]
  constructor
  · rintro ⟨n, polls, h, hP⟩
    obtain ⟨⟨rest, last⟩, hrest, heq⟩ := Option.map_eq_some_iff.1 h
    cases heq
    exact ⟨last, ⟨n, rest, hrest, hP⟩, rfl⟩
  · rintro ⟨last, ⟨n, rest, hrest, hP⟩, rfl⟩
    exact ⟨n, future :: rest, by rw [hrest, Option.map_some], hP⟩

theorem exists_runFirst_of_pending (hpending : (fs.poll future ex.state).ready = false) :
    (∃ n polls, runFirst fs n ex future = some (polls, final) ∧ P polls) ↔
      Leaves fs ((ex.affected (fs.poll future ex.state).toEffect).spawnAndForget future) final
        fun rest => P (future :: rest) := by
  simp only [runFirst, hpending, Bool.false_eq_true, if_false]
  constructor
  · rintro ⟨n, polls, h, hP⟩
    obtain ⟨⟨rest, _⟩, hrest, heq⟩ := Option.map_eq_some_iff.1 h
    cases heq
    exact ⟨n, rest, hrest, hP⟩
  · rintro ⟨n, rest, hrest, hP⟩
    exact ⟨n, future :: rest, by rw [hrest, Option.map_some], hP⟩

theorem executions_cons_cons (i : ι) (polls : List ι) :
    executions (i :: i :: polls) = executions (i :: polls) := by
  simp [executions, List.destutter_cons']

theorem affected_same (ex : Executor ι σ) : ex.affected ⟨ex.state, []⟩ = ex := rfl

variable (fs future ex final) in
/-- For every future for which a second poll has no effect while it is pending and has not been
woken, and whose drop has none if it is ready at its first poll, `run_first` runs to an end
exactly if spawning the future and running the executor does, with the same executions and the
same final state. The queue need not be empty for it. -/
theorem run_first_as_spawned
    (hrepoll : ∀ s, (fs.poll future s).ready = false → future ∉ (fs.poll future s).wakes →
      fs.poll future (fs.poll future s).state = ⟨⟨(fs.poll future s).state, []⟩, false⟩)
    (hdrop : (fs.poll future ex.state).ready = true → ∀ s, fs.drop future s = ⟨s, []⟩)
    (hnew : ex.activeTasks future = none) (execs : List ι) :
    (∃ n polls, runFirst fs n ex future = some (polls, final) ∧ executions polls = execs) ↔
      ∃ n polls, run fs n (ex.spawnAndForget future) = some (polls, final) ∧
        executions polls = execs := by
  show _ ↔ Leaves fs (ex.spawnAndForget future) final fun polls => executions polls = execs
  cases hready : (fs.poll future ex.state).ready with
  | true =>
    -- The drop comes after the loop here and before it there, which makes no difference.
    have hdropped (ex' : Executor ι σ) : ex'.dropped fs future = ex' := by
      rw [dropped, hdrop hready, affected_same]
    rw [exists_runFirst_of_ready (P := fun polls => executions polls = execs) hready,
      leaves_spawned_of_ready hnew hready]
    simp only [hdropped, exists_eq_right]
  | false =>
    rw [exists_runFirst_of_pending (P := fun polls => executions polls = execs) hready]
    by_cases hwakes : future ∈ (fs.poll future ex.state).wakes
    · rw [leaves_spawned_of_woken hnew hready hwakes]
    · -- The second poll of the spawned future is the one that has no effect.
      have hagain : fs.poll future (ex.affected (fs.poll future ex.state).toEffect).state =
          ⟨⟨(ex.affected (fs.poll future ex.state).toEffect).state, []⟩, false⟩ := by
        rw [state_affected]
        exact hrepoll ex.state hready hwakes
      rw [leaves_spawned_of_waits hnew hready hwakes,
        leaves_spawned_of_waits (activeTasks_affected hnew _) (by rw [hagain])
          (by rw [hagain]; exact List.not_mem_nil), hagain, affected_same]
      simp only [executions_cons_cons]

end InPlace

/-- Task 1 waits. -/
def waiting (s : σ) : Executor (Fin 2) σ := ⟨[], fun i => if i = 1 then some 0 else none, s⟩

/-- Future 0 sends a request to task 1 and waits for its answer; the state says whether request
and answer have been sent. -/
def request : Futures (Fin 2) (Bool × Bool) where
  poll i s :=
    match i, s with
    | 0, (false, _) => ⟨⟨(true, false), [1]⟩, false⟩
    | 0, (true, answered) => ⟨⟨s, []⟩, answered⟩
    | 1, (true, false) => ⟨⟨(true, true), [0]⟩, false⟩
    | 1, _ => ⟨⟨s, []⟩, false⟩
  drop _ s := ⟨s, []⟩

theorem request_again (s : Bool × Bool) (hpending : (request.poll 0 s).ready = false) :
    request.poll 0 (request.poll 0 s).state = ⟨⟨(request.poll 0 s).state, []⟩, false⟩ := by
  obtain ⟨_ | _, _ | _⟩ := s
  · rfl
  · rfl
  · rfl
  · cases hpending

theorem run_first_as_spawned_request :
    ∃ final, (∃ n polls, run request n ((waiting (false, false)).spawnAndForget 0) =
      some (polls, final) ∧ executions polls = [0, 1, 0]) ∧ final.state = (true, true) :=
  ⟨_, (run_first_as_spawned request 0 (waiting (false, false)) _ (fun s h _ => request_again s h)
    (fun _ _ => rfl) rfl [0, 1, 0]).1 ⟨5, _, rfl, by decide⟩, rfl⟩

/-- Future 0 is ready at once and wakes task 1 when it is dropped; task 1 counts its polls. -/
def heldWaker : Futures (Fin 2) Nat where
  poll i polls := if i = 0 then ⟨⟨polls, []⟩, true⟩ else ⟨⟨polls + 1, []⟩, false⟩
  drop _ polls := ⟨polls, [1]⟩

/-- Spawned, the future wakes task 1 in time for it to be run; polled in place, it does so when
the work is done, and task 1 stays on the queue. -/
theorem run_first_drops_late :
    (∀ s, (heldWaker.poll 0 s).ready = true) ∧
    (run heldWaker 4 ((waiting 0).spawnAndForget 0)).map (fun r =>
      (executions r.1, r.2.queue, r.2.state)) = some ([0, 1], [], 1) ∧
    (runFirst heldWaker 4 (waiting 0) 0).map (fun r =>
      (executions r.1, r.2.queue, r.2.state)) = some ([0], [1], 0) :=
  ⟨fun _ => rfl, by decide, by decide⟩

end Executor

end SiestaVR.Kernel
