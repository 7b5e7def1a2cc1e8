import Mathlib.Data.List.Basic

/-!
# Sequences of futures and their execution (asynchronix/src/util/seq_futures.rs, executor.rs)

A future is polled until it is ready; here it stands for something that is done at the
last poll, and `pending` says how many polls come before. A `SeqFuture` polls a sequence of
futures one after the other. The executor polls the tasks it was given in an order that is
not fixed: `schedule` names the task to poll next, and at its end the tasks that are left are
run to completion one after the other, so that any interleaving of the tasks arises from some
schedule.

Whatever the schedule, everything is done exactly once (`perm_run`), and things that are in one
task are done in the order of that task (`filter_run`).
-/

namespace SiestaVR.Kernel

variable {α : Type}

/-- A future that does `output` after it was pending some number of times. -/
structure Fut (α : Type) where
  output : α
  pending : Nat
deriving DecidableEq, Repr

/-- `SeqFuture`: the futures from the current index on. -/
abbrev SeqFuture (α : Type) := List (Fut α)

namespace SeqFuture

/-- `SeqFuture::poll`: what is done, and what is left. -/
def poll : SeqFuture α → List α × SeqFuture α
  | [] => ([], [])
  | f :: inner =>
    match f.pending with
    | 0 => (f.output :: (poll inner).1, (poll inner).2)
    | pending + 1 => ([], { f with pending } :: inner)

/-- What the futures do. -/
def outputs (s : SeqFuture α) : List α := s.map Fut.output

theorem poll_append (s : SeqFuture α) : s.poll.1 ++ outputs s.poll.2 = s.outputs := by
  induction s with
  | nil => rfl
  | cons f inner ih =>
    unfold poll
    split
    · rw [List.cons_append, ih]
      rfl
    · rfl

end SeqFuture

/-- `Executor::run`: what the tasks do, in the order in which it is done. -/
def run : List Nat → List (SeqFuture α) → List α
  | [], tasks => (tasks.map SeqFuture.outputs).flatten
  | i :: schedule, tasks =>
    match tasks[i]? with
    | none => run schedule tasks
    | some task => task.poll.1 ++ run schedule (tasks.set i task.poll.2)

theorem exists_split_of_getElem? {tasks : List (SeqFuture α)} {i : Nat} {task : SeqFuture α}
    (h : tasks[i]? = some task) : ∃ before behind, tasks = before ++ task :: behind ∧
      ∀ task', tasks.set i task' = before ++ task' :: behind := by
  obtain ⟨hi, rfl⟩ := List.getElem?_eq_some_iff.1 h
  refine ⟨tasks.take i, tasks.drop (i + 1), ?_, fun task' => ?_⟩
  · rw [List.getElem_cons_drop, List.take_append_drop]
  · exact List.set_eq_take_append_cons_drop ▸ if_pos hi

theorem perm_run (schedule : List Nat) (tasks : List (SeqFuture α)) :
    (run schedule tasks).Perm (tasks.map SeqFuture.outputs).flatten := by
  induction schedule generalizing tasks with
  | nil => exact .refl _
  | cons i schedule ih =>
    unfold run
    split
    · exact ih tasks
    · rename_i task htask
      obtain ⟨before, behind, rfl, hset⟩ := exists_split_of_getElem? htask
      rw [hset]
      refine ((ih _).append_left _).trans ?_
      simp only [List.map_append, List.map_cons, List.flatten_append, List.flatten_cons,
        ← task.poll_append, List.append_assoc]
      exact List.perm_append_comm_assoc _ _ _

/-- No two tasks both have something to do that counts. -/
def Apart (p : α → Bool) (tasks : List (List α)) : Prop :=
  tasks.Pairwise fun l l' => ∀ x ∈ l, ∀ y ∈ l', ¬ (p x ∧ p y)

theorem Apart.poll {p : α → Bool} {before behind : List (SeqFuture α)} {task : SeqFuture α}
    (h : Apart p ((before ++ task :: behind).map SeqFuture.outputs)) :
    Apart p ((before ++ task.poll.2 :: behind).map SeqFuture.outputs) := by
  have hsub : task.poll.2.outputs ⊆ task.outputs := by
    rw [← task.poll_append]
    exact List.subset_append_right _ _
  simp only [Apart, List.map_append, List.map_cons, List.pairwise_append, List.pairwise_cons] at h ⊢
  refine ⟨h.1, ⟨fun l hl x hx => h.2.1.1 l hl x (hsub hx), h.2.1.2⟩, fun l hl => ?_⟩
  refine List.forall_mem_cons.2 ⟨fun x hx y hy => ?_, fun l' hl' => ?_⟩
  · exact h.2.2 l hl _ List.mem_cons_self x hx y (hsub hy)
  · exact h.2.2 l hl l' (List.mem_cons_of_mem _ hl')

/-- If all that counts is in one task, it is done in the order of that task. -/
theorem filter_run {p : α → Bool} (schedule : List Nat) {tasks : List (SeqFuture α)}
    (h : Apart p (tasks.map SeqFuture.outputs)) :
    (run schedule tasks).filter p = (tasks.map SeqFuture.outputs).flatten.filter p := by
  induction schedule generalizing tasks with
  | nil => rfl
  | cons i schedule ih =>
    unfold run
    split
    · exact ih h
    · rename_i task htask
      obtain ⟨before, behind, rfl, hset⟩ := exists_split_of_getElem? htask
      rw [hset, List.filter_append, ih h.poll]
      simp only [List.map_append, List.map_cons, List.flatten_append, List.flatten_cons,
        List.filter_append, ← task.poll_append, List.append_assoc]
      by_cases hdone : task.poll.1.filter p = []
      · rw [hdone, List.nil_append, List.nil_append]
      · -- Something that counts is done: then nothing in the tasks before counts.
        have hbefore : (before.map SeqFuture.outputs).flatten.filter p = [] := by
          obtain ⟨x, hx⟩ := List.exists_mem_of_ne_nil _ hdone
          obtain ⟨hx, hpx⟩ := List.mem_filter.1 hx
          have hxtask : x ∈ task.outputs := by
            rw [← task.poll_append]
            exact List.mem_append_left _ hx
          refine List.filter_eq_nil_iff.2 fun y hy hpy => ?_
          obtain ⟨l, hl, hyl⟩ := List.mem_flatten.1 hy
          rw [List.map_append, List.map_cons] at h
          exact (List.pairwise_append.1 h).2.2 l hl _ List.mem_cons_self y hyl x hxtask ⟨hpy, hpx⟩
        rw [hbefore, List.nil_append, List.nil_append]

end SiestaVR.Kernel
