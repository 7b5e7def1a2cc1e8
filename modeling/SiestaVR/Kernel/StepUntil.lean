import SiestaVR.Kernel.Step
import Mathlib.Algebra.Order.Group.Multiset
import Mathlib.Tactic.Abel

/-!
# Stepping the kernel

`stepToNextBounded` in terms of the queue before it (`step_idle`, `step_moves`), and
`stepUntilUnchecked` by induction on the steps it takes.

A step reads the flags of the action keys once for each action it looks at, before any model
runs: what is due, and what is thrown away as cancelled, is therefore a matter of the flags in
the state in which the step is made. Models that run in the step may cancel keys and schedule
actions for later times (`Served`); that touches what is due in later steps only, since nothing
can be scheduled for the present.

What a number of steps do is told by a ledger (`Progress`): everything that was in the queue or
came into it was run, or thrown away, or is still in the queue, each exactly once. It is an
equation of multisets, so that two steps compose by adding theirs up. What was thrown away is
listed step by step, against the states in which the steps were made (`Simulation.stepsUntil`),
because a key that is cancelled later does not justify it.
-/

namespace SiestaVR.Kernel

variable {F : Type} {s s' s'' : Simulation F} {bound t target : Nat} {act : Activity F}

/-- The content of a queue. -/
def PriorityQueue.entries (q : SchedulerQueue F) : List (Entry F) := q.heap.map Item.entry

/-- Nothing is scheduled for the past, and periods are positive. -/
def Simulation.Valid (s : Simulation F) : Prop := Upcoming s.time s.schedulerQueue

theorem Action.isCancelled_mono {flags flags' : Nat → Bool} (h : ∀ k, flags k → flags' k)
    {a : Action F} (ha : a.isCancelled flags) : a.isCancelled flags' := by
  cases a with
  | once | periodic => exact ha
  | keyedOnce gen k => exact h k ha
  | keyedPeriodic gen period k => exact h k ha

/-! ## What models do meanwhile -/

/-- Models that run at a time schedule actions for later times, and cancel keys. -/
structure Served (s s' : Simulation F) : Prop where
  time : s'.time = s.time
  ran : s'.ran = s.ran
  flags : ∀ k, s.flags k → s'.flags k
  scheduled : ∃ new, s'.scheduled = s.scheduled ++ new ∧
    s'.schedulerQueue.entries.Perm (s.schedulerQueue.entries ++ new)
  later : ∀ lo, lo ≤ s.time + 1 → Upcoming lo s.schedulerQueue → Upcoming lo s'.schedulerQueue

theorem Served.refl (s : Simulation F) : Served s s :=
  ⟨rfl, rfl, fun _ h => h, ⟨[], by simp, by simp⟩, fun _ _ h => h⟩

theorem Served.trans (h : Served s s') (h' : Served s' s'') : Served s s'' := by
  obtain ⟨new, hnew, hperm⟩ := h.scheduled
  obtain ⟨new', hnew', hperm'⟩ := h'.scheduled
  refine ⟨h'.time.trans h.time, h'.ran.trans h.ran, fun k hk => h'.flags k (h.flags k hk),
    ⟨new ++ new', by rw [hnew', hnew, List.append_assoc], ?_⟩,
    fun lo hlo hup => h'.later lo (h.time ▸ hlo) (h.later lo hlo hup)⟩
  rw [← List.append_assoc]
  exact hperm'.trans (hperm.append_right _)

theorem served_handle (s : Simulation F) (r : Request F) : Served s (s.handle r) := by
  cases r with
  | cancel eventKey =>
    refine ⟨rfl, rfl, fun k hk => ?_, ⟨[], by simp [Simulation.handle], ?_⟩, fun _ _ h => h⟩
    · simp [Simulation.handle, hk]
    · simp [Simulation.handle]
  | schedule time channel action =>
    rw [Simulation.handle]
    split
    · exact .refl s
    · rename_i haccepted
      rw [not_or, not_le] at haccepted
      have hperm := s.schedulerQueue.perm_insert (toLex (time, channel)) action
      refine ⟨rfl, rfl, fun _ h => h, ⟨[(toLex (time, channel), action)], rfl, ?_⟩, ?_⟩
      · exact (hperm.map Item.entry).trans (List.perm_append_singleton _ _).symm
      · refine fun lo hlo hup => hup.insert (hlo.trans haccepted.1) fun x hx => ?_
        have hpos := haccepted.2
        rw [show action.next = some x from hx] at hpos
        simpa [Nat.pos_iff_ne_zero] using hpos

theorem served_requests (s : Simulation F) (rs : List (Request F)) :
    Served s (rs.foldl Simulation.handle s) := by
  induction rs generalizing s with
  | nil => exact .refl s
  | cons r rs ih => exact (served_handle s r).trans (ih _)

/-! ## One step -/

theorem outputs_futures (pending : Nat → Nat → Nat) (tasks : List (List (Entry F))) :
    (tasks.mapIdx fun i task => task.mapIdx fun j x => (⟨x, pending i j⟩ : Fut _)).map
      SeqFuture.outputs = tasks := by
  refine List.ext_getElem? fun i => ?_
  rw [List.getElem?_map, List.getElem?_mapIdx]
  cases tasks[i]? with
  | none => rfl
  | some task =>
    refine congrArg some (List.ext_getElem? fun j => ?_)
    rw [SeqFuture.outputs, List.getElem?_map, List.getElem?_mapIdx]
    cases task[j]? <;> rfl

/-- The actions for the same channel are in one task, if they are for the same time. -/
theorem apart_channel {tasks : List (List (Entry F))}
    (htime : ∀ x ∈ tasks.flatten, x.1.time = t)
    (hpair : tasks.Pairwise fun l l' => ∀ x ∈ l, ∀ y ∈ l', x.1 < y.1) (c : Nat) :
    Apart (fun x => x.1.channel = c) tasks := by
  refine hpair.imp_of_mem fun hl hl' hlt x hx y hy => ?_
  rintro ⟨hxc, hyc⟩
  have hxt := htime x (List.mem_flatten.2 ⟨_, hl, hx⟩)
  have hyt := htime y (List.mem_flatten.2 ⟨_, hl', hy⟩)
  simp only [decide_eq_true_eq] at hxc hyc
  have heq : x.1 = y.1 := ofLex.injective (Prod.ext (hxt.trans hyt.symm) (hxc.trans hyc.symm))
  exact (hlt x hx y hy).ne heq

/-- No action that is not cancelled is due by the bound. -/
def Idle (s : Simulation F) (bound : Nat) : Prop :=
  ∀ i ∈ s.schedulerQueue.heap, i.live s.flags → bound < i.key.time

/-- The earliest action that is not cancelled is for time `t`, which is within the bound. -/
structure EarliestDue (s : Simulation F) (bound t : Nat) : Prop where
  within : t ≤ bound
  exists_due : ∃ i ∈ s.schedulerQueue.heap, i.live s.flags ∧ i.key.time = t
  earliest : ∀ i ∈ s.schedulerQueue.heap, i.live s.flags → t ≤ i.key.time

/-- The actions for time `t` and a channel that are not cancelled. -/
def dueFor (flags : Nat → Bool) (t c : Nat) (q : SchedulerQueue F) :
    List (Item Key (Action F)) :=
  (dueAt flags t q).filter fun i => i.key.channel = c

/-- What a step to time `t` does, if it runs the actions in the given order. -/
structure Stepped (s : Simulation F) (t : Nat) (order : List (Entry F)) (s' : Simulation F) :
    Prop where
  time : s'.time = t
  ran : s'.ran = s.ran ++ order
  /-- Exactly the actions for time `t` that are not cancelled are run. -/
  exactly : order.Perm ((dueAt s.flags t s.schedulerQueue).map Item.entry)
  /-- Those for the same channel are run in the order they were inserted in. -/
  inOrder : ∀ c, order.filter (·.1.channel = c) =
      (dueFor s.flags t c s.schedulerQueue).map Item.entry ∧
    (dueFor s.flags t c s.schedulerQueue).Pairwise (·.epoch < ·.epoch)
  /-- Periodic actions are put back, models schedule some, later ones stay; what else is gone
  was cancelled. -/
  queue : ∃ gone new, (∀ x ∈ gone, x.2.isCancelled s.flags) ∧
    s'.scheduled = s.scheduled ++ new ∧
    (s'.schedulerQueue.entries ++ gone).Perm
      (laterThan t s.schedulerQueue ++ order.filterMap Entry.again ++ new)
  flags : ∀ k, s.flags k → s'.flags k
  later : Upcoming (t + 1) s'.schedulerQueue

theorem EarliestDue.not_idle (h : EarliestDue s bound t) : ¬ Idle s bound := by
  obtain ⟨i, hi, hlive, rfl⟩ := h.exists_due
  exact fun hidle => absurd (hidle i hi hlive) (not_lt.2 h.within)

theorem EarliestDue.unique {t' : Nat} (h : EarliestDue s bound t) (h' : EarliestDue s bound t') :
    t = t' := by
  obtain ⟨i, hi, hlive, rfl⟩ := h.exists_due
  obtain ⟨j, hj, hjlive, rfl⟩ := h'.exists_due
  exact le_antisymm (h.earliest j hj hjlive) (h'.earliest i hi hlive)

/-- A peek finds nothing if nothing is due, and otherwise a key for the earliest time. -/
theorem peek_cases (s : Simulation F) (bound : Nat) :
    ((peekNextKey s.flags bound s.schedulerQueue).1 = none ∧ Idle s bound) ∨
      ∃ k, (peekNextKey s.flags bound s.schedulerQueue).1 = some k ∧
        EarliestDue s bound k.time := by
  have hpeeked := (peekNextKey_spec s.flags bound s.schedulerQueue).2
  obtain ⟨gone, hgone, hsplit⟩ := exists_append_peek s.flags bound s.schedulerQueue
  have hstays : ∀ i ∈ s.schedulerQueue.heap, i.live s.flags →
      i ∈ (peekNextKey s.flags bound s.schedulerQueue).2.heap := by
    intro i hi hlive
    rcases List.mem_append.1 (hsplit ▸ hi) with hi | hi
    · exact absurd (hgone i hi) (by simpa [Item.live] using hlive)
    · exact hi
  cases hnext : (peekNextKey s.flags bound s.schedulerQueue).1 with
  | none =>
    rw [hnext] at hpeeked
    exact .inl ⟨rfl, fun i hi hlive => hpeeked i (hstays i hi hlive)⟩
  | some k =>
    rw [hnext] at hpeeked
    obtain ⟨j, rest, hj, rfl, hbound, hjlive⟩ := hpeeked
    have hmem : j ∈ s.schedulerQueue.heap := by
      rw [← hsplit, hj]
      exact List.mem_append_right _ List.mem_cons_self
    exact .inr ⟨j.key, rfl, hbound, ⟨j, hmem, hjlive, rfl⟩,
      fun i hi hlive => Key.time_le (key_le_of_head hj i (hstays i hi hlive))⟩

theorem idle_or_earliestDue (s : Simulation F) (bound : Nat) :
    Idle s bound ∨ ∃ t, EarliestDue s bound t := by
  rcases peek_cases s bound with ⟨-, h⟩ | ⟨k, -, h⟩
  · exact .inl h
  · exact .inr ⟨k.time, h⟩

theorem pairwise_epoch (q : SchedulerQueue F) (flags : Nat → Bool) (t c : Nat) :
    (dueFor flags t c q).Pairwise (·.epoch < ·.epoch) := by
  refine ((q.sorted.filter _).filter _).imp_of_mem fun hi hj hbefore => ?_
  simp only [dueFor, dueAt, List.mem_filter, decide_eq_true_eq] at hi hj
  rcases hbefore with hlt | ⟨-, hlt⟩
  · have heq := ofLex.injective (Prod.ext (hi.1.2.1.trans hj.1.2.1.symm) (hi.2.trans hj.2.symm))
    exact absurd heq hlt.ne
  · exact hlt

/-- **Step, nothing due**: only cancelled actions are thrown away. -/
theorem step_idle (h : Idle s bound) (act : Activity F) :
    ∃ q' gone, s.stepToNextBounded act bound = some (none, { s with schedulerQueue := q' }) ∧
      (∀ i ∈ gone, i.value.isCancelled s.flags) ∧ gone ++ q'.heap = s.schedulerQueue.heap ∧
      ∀ i ∈ q'.heap, bound < i.key.time := by
  rcases peek_cases s bound with ⟨hnone, -⟩ | ⟨k, -, hdue⟩
  · have hpeek : peekNextKey s.flags bound s.schedulerQueue =
        (none, (peekNextKey s.flags bound s.schedulerQueue).2) := Prod.ext hnone rfl
    have hpeeked := (peekNextKey_spec s.flags bound s.schedulerQueue).2
    rw [hnone] at hpeeked
    obtain ⟨gone, hgone, hsplit⟩ := exists_append_peek s.flags bound s.schedulerQueue
    refine ⟨_, gone, ?_, hgone, hsplit, hpeeked⟩
    rw [Simulation.stepToNextBounded, hpeek]
  · exact absurd h hdue.not_idle

/-- The first key is for the time of the earliest action, and nothing in the queue is earlier. -/
theorem peek_earliest (hs : s.Valid) (h : EarliestDue s bound t) :
    ∃ k q, peekNextKey s.flags bound s.schedulerQueue = (some k, q) ∧ k.time = t ∧
      Peeked s.flags bound q (some k) ∧ Pulled s.flags t s.schedulerQueue q [] ∧
      Upcoming t q := by
  obtain ⟨k, hnext, hk⟩ : ∃ k, (peekNextKey s.flags bound s.schedulerQueue).1 = some k ∧
      k.time = t := by
    rcases peek_cases s bound with ⟨-, hidle⟩ | ⟨k, hnext, hdue⟩
    · exact absurd hidle h.not_idle
    · exact ⟨k, hnext, hdue.unique h⟩
  have hpeeked := (peekNextKey_spec s.flags bound s.schedulerQueue).2
  rw [hnext] at hpeeked
  refine ⟨k, _, Prod.ext hnext rfl, hk, hpeeked, pulled_peek s.flags bound t s.schedulerQueue,
    ⟨?_, (hs.peek s.flags bound).period_pos⟩⟩
  obtain ⟨i, rest, hheap, rfl, -⟩ := hpeeked
  exact fun j hj => hk ▸ Key.time_le (key_le_of_head hheap j hj)

/-- A step makes tasks of exactly the actions due, and leaves later ones in the queue. -/
theorem step_eq_runTasks (hs : s.Valid) (h : EarliestDue s bound t) (act : Activity F) :
    ∃ tasks q, s.stepToNextBounded act bound = some (some t, Simulation.runTasks
        { s with time := t, schedulerQueue := q } act tasks) ∧
      TasksOf tasks (dueAt s.flags t s.schedulerQueue) ∧
      Pulled s.flags t s.schedulerQueue q (dueAt s.flags t s.schedulerQueue) ∧
      Upcoming (t + 1) q := by
  obtain ⟨k, q₁, hpeek, hk, hpeeked, hpulled₁, hup⟩ := peek_earliest hs h
  obtain ⟨run, tasks, q₂, hloop, htasks, hpulled₂, hup₂, hlater⟩ :=
    spawnLoop_spec s.inlineLoneActions true [] hup hpeeked hk h.within
      (n := q₁.heap.length) (List.length_filter_le _ _)
  have hpulled := hpulled₁.trans hpulled₂
  rw [List.nil_append] at hpulled
  have hrun : dueAt s.flags t s.schedulerQueue = run := by
    rw [hpulled.due, dueAt_eq_nil hlater, List.append_nil]
  rw [hrun]
  refine ⟨tasks, q₂, ?_, htasks, hpulled, hlater, hup₂.period_pos⟩
  simp only [Simulation.stepToNextBounded, hpeek, hloop, Option.bind_eq_bind, Option.bind_some,
    List.nil_append, hk]

/-- The executor runs the actions of the tasks, in their order for each channel, and models act
meanwhile. -/
theorem runTasks_spec (s : Simulation F) (act : Activity F) {tasks : List (List (Entry F))}
    {run : List (Item Key (Action F))} (htasks : TasksOf tasks run)
    (htime : ∀ i ∈ run, i.key.time = t) :
    ∃ order : List (Entry F), order.Perm (run.map Item.entry) ∧
      (∀ c, order.filter (·.1.channel = c) =
        (run.filter fun i => i.key.channel = c).map Item.entry) ∧
      Served { s with ran := s.ran ++ order } (s.runTasks act tasks) := by
  have hout := outputs_futures act.pending tasks
  unfold Simulation.runTasks
  generalize (tasks.mapIdx fun i task => task.mapIdx fun j x =>
    (⟨x, act.pending i j⟩ : Fut (Entry F))) = futures at hout ⊢
  refine ⟨Kernel.run act.polls futures, ?_, fun c => ?_, served_requests _ act.requests⟩
  · have hperm := perm_run act.polls futures
    rwa [hout, htasks.flatten] at hperm
  · have htime' : ∀ x ∈ tasks.flatten, x.1.time = t := by
      rw [htasks.flatten]
      exact List.forall_mem_map.2 htime
    rw [filter_run act.polls (hout ▸ apart_channel htime' htasks.inOrder c), hout, htasks.flatten,
      List.filter_map]
    rfl

/-- **Step, something due**. -/
theorem step_moves (hs : s.Valid) (h : EarliestDue s bound t) (act : Activity F) :
    ∃ order s', s.stepToNextBounded act bound = some (some t, s') ∧ Stepped s t order s' := by
  obtain ⟨tasks, q, hstep, htasks, hpulled, hup⟩ := step_eq_runTasks hs h act
  have htime : ∀ i ∈ dueAt s.flags t s.schedulerQueue, i.key.time = t := by
    intro i hi
    have hdue := (List.mem_filter.1 hi).2
    simp only [decide_eq_true_eq] at hdue
    exact hdue.1
  obtain ⟨order, hexact, hchannel, hserved⟩ := runTasks_spec
    { s with time := t, schedulerQueue := q } act htasks htime
  refine ⟨order, _, hstep, hserved.time, hserved.ran, hexact,
    fun c => ⟨hchannel c, pairwise_epoch _ _ _ _⟩, ?_, hserved.flags,
    hserved.later (t + 1) le_rfl hup⟩
  -- All that is left in the queue is later.
  have hentries : laterThan t q = q.entries :=
    congrArg _ (List.filter_eq_self.2 fun i hi => decide_eq_true (hup.time_le i hi))
  obtain ⟨gone, hgone, hperm⟩ := hpulled.later
  obtain ⟨new, hnew, hserved⟩ := hserved.scheduled
  refine ⟨gone, new, hgone, hnew, (hserved.append_right _).trans ?_⟩
  rw [List.append_assoc]
  refine (List.perm_append_comm.append_left _).trans ?_
  rw [← List.append_assoc]
  refine List.Perm.append_right _ ?_
  rw [← hentries]
  exact hperm.trans ((hexact.symm.filterMap _).append_left _)

/-! ## Many steps -/

/-- The states in which the loop of `stepUntilUnchecked` makes its steps. -/
def Simulation.stepsUntil (target : Nat) :
    Nat → (Nat → Activity F) → Simulation F → List (Simulation F)
  | 0, _, _ => []
  | n + 1, world, s =>
    s :: match s.stepToNextBounded (world 0) target with
      | some (some t, s') =>
        if t = target then [] else stepsUntil target n (fun i => world (i + 1)) s'
      | _ => []

/-- What each step threw away was cancelled when the step was made. -/
def ThrownAway (steps : List (Simulation F)) (gone : List (List (Entry F))) : Prop :=
  List.Forall₂ (fun s gone => ∀ x ∈ gone, x.2.isCancelled s.flags) steps gone

/-- From `s` to `s'`, by steps made in the given states, the actions of `order` are run, in this
order. -/
structure Progress (s s' : Simulation F) (steps : List (Simulation F)) (order : List (Entry F)) :
    Prop where
  ran : s'.ran = s.ran ++ order
  flags : ∀ k, s.flags k → s'.flags k
  /-- Time does not go backwards. -/
  time_le : s.time ≤ s'.time
  times : order.Pairwise (·.1.time ≤ ·.1.time)
  between : ∀ x ∈ order, s.time ≤ x.1.time ∧ x.1.time ≤ s'.time
  /-- What was cancelled before is not run. -/
  live : ∀ x ∈ order, ¬ x.2.isCancelled s.flags
  /-- What was in the queue, was put back one period later, or was scheduled by models: all of
  it was run, was thrown away as cancelled, or is in the queue, exactly once. -/
  ledger : ∃ gone new, ThrownAway steps gone ∧ s'.scheduled = s.scheduled ++ new ∧
    (order ++ gone.flatten ++ s'.schedulerQueue.entries).Perm
      (s.schedulerQueue.entries ++ order.filterMap Entry.again ++ new)

theorem Progress.trans {steps steps' : List (Simulation F)} {order order' : List (Entry F)}
    (h : Progress s s' steps order) (h' : Progress s' s'' steps' order') :
    Progress s s'' (steps ++ steps') (order ++ order') := by
  obtain ⟨gone, new, hgone, hnew, hperm⟩ := h.ledger
  obtain ⟨gone', new', hgone', hnew', hperm'⟩ := h'.ledger
  refine ⟨by rw [h'.ran, h.ran, List.append_assoc], fun k hk => h'.flags k (h.flags k hk),
    h.time_le.trans h'.time_le, List.pairwise_append.2 ⟨h.times, h'.times, fun x hx y hy =>
      (h.between x hx).2.trans (h'.between y hy).1⟩, ?_, ?_, gone ++ gone', new ++ new',
    List.rel_append hgone hgone', by rw [hnew', hnew, List.append_assoc], ?_⟩
  · intro x hx
    rcases List.mem_append.1 hx with hx | hx
    · exact ⟨(h.between x hx).1, (h.between x hx).2.trans h'.time_le⟩
    · exact ⟨h.time_le.trans (h'.between x hx).1, (h'.between x hx).2⟩
  · intro x hx
    rcases List.mem_append.1 hx with hx | hx
    · exact h.live x hx
    · -- cancelled before the first steps, it would be cancelled before these
      exact fun hc => h'.live x hx (Action.isCancelled_mono h.flags hc)
  · -- what is in the queue in between is an entry on both sides
    rw [← Multiset.coe_eq_coe] at hperm hperm' ⊢
    simp only [← Multiset.coe_add, List.filterMap_append, List.flatten_append] at hperm hperm' ⊢
    calc (↑order + ↑order' + (↑gone.flatten + ↑gone'.flatten) +
            ↑s''.schedulerQueue.entries : Multiset (Entry F))
        = ↑order + ↑gone.flatten + (↑order' + ↑gone'.flatten + ↑s''.schedulerQueue.entries) := by
          abel
      _ = ↑order + ↑gone.flatten + ↑s'.schedulerQueue.entries +
            ↑(order'.filterMap Entry.again) + ↑new' := by rw [hperm']; abel
      _ = _ := by rw [hperm]; abel

/-- What is not due at the earliest time is later or cancelled. -/
theorem EarliestDue.perm_entries (h : EarliestDue s bound t) :
    ∃ early : List (Entry F), (∀ x ∈ early, x.2.isCancelled s.flags) ∧
      s.schedulerQueue.entries.Perm ((dueAt s.flags t s.schedulerQueue).map Item.entry ++
        (laterThan t s.schedulerQueue ++ early)) := by
  let notDue := s.schedulerQueue.heap.filter fun i => !decide (i.key.time = t ∧ i.live s.flags)
  let early := notDue.filter fun i => !decide (t < i.key.time)
  refine ⟨early.map Item.entry, ?_, ?_⟩
  · intro x hx
    obtain ⟨i, hi, rfl⟩ := List.mem_map.1 hx
    obtain ⟨hi, hnot⟩ := List.mem_filter.1 hi
    obtain ⟨hi, hdue⟩ := List.mem_filter.1 hi
    by_contra hcancelled
    have hlive : i.live s.flags := by simpa [Item.live, Item.entry] using hcancelled
    have hge := h.earliest i hi hlive
    simp only [hlive, and_true, Bool.not_eq_true', decide_eq_false_iff_not] at hdue hnot
    omega
  · have hlater : laterThan t s.schedulerQueue =
        (notDue.filter fun i => t < i.key.time).map Item.entry := by
      rw [laterThan, List.filter_filter]
      congr 1
      refine List.filter_congr fun i _ => ?_
      by_cases hlt : t < i.key.time
      · simp [hlt, Nat.ne_of_gt hlt]
      · simp [hlt]
    rw [hlater, ← List.map_append, dueAt, ← List.map_append]
    refine List.Perm.map _ ?_
    refine (List.filter_append_perm _ _).symm.trans (List.Perm.append_left _ ?_)
    exact (List.filter_append_perm _ _).symm

/-- A step is progress. -/
theorem Stepped.progress {order : List (Entry F)} (hs : s.Valid) (hdue : EarliestDue s bound t)
    (h : Stepped s t order s') : Progress s s' [s] order := by
  obtain ⟨gone, new, hgone, hnew, hperm⟩ := h.queue
  obtain ⟨early, hearly, hentries⟩ := hdue.perm_entries
  -- all that is run was due at `t` and not cancelled
  have hmem : ∀ x ∈ order, x.1.time = t ∧ ¬ x.2.isCancelled s.flags := by
    intro x hx
    obtain ⟨i, hi, rfl⟩ := List.mem_map.1 (h.exactly.mem_iff.1 hx)
    have hprop := (List.mem_filter.1 hi).2
    simp only [decide_eq_true_eq] at hprop
    exact ⟨hprop.1, by simpa [Item.live, Item.entry] using hprop.2⟩
  have hle : s.time ≤ t := by
    obtain ⟨i, hi, -, rfl⟩ := hdue.exists_due
    exact hs.time_le i hi
  refine ⟨h.ran, h.flags, h.time ▸ hle, List.pairwise_of_forall_mem_list fun x hx y hy => ?_,
    fun x hx => ?_, fun x hx => (hmem x hx).2, [gone ++ early], new, .cons ?_ .nil, hnew, ?_⟩
  · rw [(hmem x hx).1, (hmem y hy).1]
  · rw [(hmem x hx).1, h.time]
    exact ⟨hle, le_rfl⟩
  · -- thrown away between later actions, or before the first that is due
    exact fun x hx => (List.mem_append.1 hx).elim (hgone x) (hearly x)
  · -- the queue is what is due, what is later and what was before them; the first is run
    have hexact := h.exactly
    rw [List.flatten_singleton]
    rw [← Multiset.coe_eq_coe] at hperm hentries hexact ⊢
    simp only [← Multiset.coe_add] at hperm hentries hexact ⊢
    calc (↑order + (↑gone + ↑early) + ↑s'.schedulerQueue.entries : Multiset (Entry F))
        = ↑order + ↑early + (↑s'.schedulerQueue.entries + ↑gone) := by abel
      _ = _ := by rw [hperm, hentries, hexact]; abel

/-- The last step of `stepUntilUnchecked`, when nothing is due any more. -/
theorem progress_idle {q : SchedulerQueue F} {gone : List (Item Key (Action F))}
    (htime : s.time ≤ target) (hgone : ∀ i ∈ gone, i.value.isCancelled s.flags)
    (hsplit : gone ++ q.heap = s.schedulerQueue.heap) :
    Progress s { s with schedulerQueue := q, time := target } [s] [] := by
  refine ⟨by simp, fun _ h => h, htime, .nil, by simp, by simp, [gone.map Item.entry], [],
    .cons (fun x hx => ?_) .nil, by simp, ?_⟩
  · obtain ⟨i, hi, rfl⟩ := List.mem_map.1 hx
    exact hgone i hi
  · simp only [PriorityQueue.entries, ← hsplit, List.map_append, List.nil_append,
      List.filterMap_nil, List.append_nil, List.flatten_singleton]
    exact .refl _

/-- **Run**: the steps up to a target time end, and are progress. Time moves on from `lo`, which
nothing in the queue is before, so that the steps are bounded by the time that is left. -/
theorem stepUntilLoop_spec {lo n : Nat} (world : Nat → Activity F) (hs : s.Valid)
    (hlo : Upcoming lo s.schedulerQueue) (htime : s.time ≤ target) (hn : target + 1 - lo < n) :
    ∃ order s', Simulation.stepUntilLoop target n world s = some s' ∧ s'.time = target ∧
      Progress s s' (Simulation.stepsUntil target n world s) order ∧
      ∀ i ∈ s'.schedulerQueue.heap, target < i.key.time := by
  induction n generalizing s lo world with
  | zero => exact absurd hn (Nat.not_lt_zero _)
  | succ n ih =>
    rcases idle_or_earliestDue s target with hidle | ⟨t, hdue⟩
    · obtain ⟨q', gone, hstep, hgone, hsplit, hlater⟩ := step_idle hidle (world 0)
      simp only [Simulation.stepUntilLoop, Simulation.stepsUntil, hstep, Option.bind_eq_bind,
        Option.bind_some]
      exact ⟨[], _, rfl, rfl, progress_idle htime hgone hsplit, hlater⟩
    · obtain ⟨order, s₁, hstep, hstepped⟩ := step_moves hs hdue (world 0)
      have hprogress := hstepped.progress hs hdue
      have hge : lo ≤ t := by
        obtain ⟨i, hi, -, rfl⟩ := hdue.exists_due
        exact hlo.time_le i hi
      have hle := hdue.within
      simp only [Simulation.stepUntilLoop, Simulation.stepsUntil, hstep, Option.bind_eq_bind,
        Option.bind_some]
      by_cases ht : t = target
      · rw [if_pos ht, if_pos ht]
        exact ⟨order, s₁, rfl, hstepped.time.trans ht, hprogress,
          fun i hi => ht ▸ hstepped.later.time_le i hi⟩
      · rw [if_neg ht, if_neg ht]
        -- after the step nothing is due before `t + 1`, which bounds the steps that follow
        have hvalid : s₁.Valid := by
          refine ⟨fun i hi => ?_, hstepped.later.period_pos⟩
          rw [hstepped.time]
          exact (Nat.le_succ t).trans (hstepped.later.time_le i hi)
        obtain ⟨order', s', hloop, hs', hprogress', hlater⟩ :=
          ih (fun i => world (i + 1)) hvalid hstepped.later (hstepped.time.trans_le hle) (by omega)
        exact ⟨order ++ order', s', hloop, hs', hprogress.trans hprogress', hlater⟩

/-- **The kernel steps correctly.** For every queue with nothing scheduled for the past and
positive periods, whatever is cancelled and whatever the models do: a bounded step does nothing
if nothing that is not cancelled is due by the bound (cancelled actions may be thrown away);
otherwise it moves to the earliest time and does what `Stepped` says; and steps until a target
time end there, having run everything due exactly once and without going back in time. -/
theorem kernel_steps (hs : s.Valid) :
    (∀ bound act, Idle s bound →
      ∃ q' gone, s.stepToNextBounded act bound = some (none, { s with schedulerQueue := q' }) ∧
        (∀ i ∈ gone, i.value.isCancelled s.flags) ∧ gone ++ q'.heap = s.schedulerQueue.heap) ∧
    (∀ bound act, ¬ Idle s bound →
      ∃ t order s', EarliestDue s bound t ∧ s.stepToNextBounded act bound = some (some t, s') ∧
        Stepped s t order s') ∧
    ∀ target world, s.time ≤ target →
      ∃ order s', s.stepUntilUnchecked world target = some s' ∧ s'.time = target ∧
        Progress s s' (Simulation.stepsUntil target (target - s.time + 2) world s) order ∧
        ∀ i ∈ s'.schedulerQueue.heap, target < i.key.time := by
  refine ⟨fun bound act hidle => ?_, fun bound act hbusy => ?_, fun target world htime => ?_⟩
  · obtain ⟨q', gone, hstep, hgone, hsplit, -⟩ := step_idle hidle act
    exact ⟨q', gone, hstep, hgone, hsplit⟩
  · obtain ⟨t, hdue⟩ := (idle_or_earliestDue s bound).resolve_left hbusy
    obtain ⟨order, s', hstep, hstepped⟩ := step_moves hs hdue act
    exact ⟨t, order, s', hdue, hstep, hstepped⟩
  · exact stepUntilLoop_spec world hs hs htime (by omega)

/-- At time 2, two actions for channel 1 at time 5, the second of them periodic, and two for
channel 2, the first of them cancelled. -/
def smallSimulation : Simulation Nat where
  schedulerQueue := PriorityQueue.new
    |>.insert (toLex (5, 1)) (.once 10)
    |>.insert (toLex (5, 2)) (.keyedOnce 20 0)
    |>.insert (toLex (9, 2)) (.once 30)
    |>.insert (toLex (5, 1)) (.periodic 40 3)
  time := 2
  flags := fun k => k = 0

theorem kernel_steps_small : smallSimulation.Valid ∧ ¬ Idle smallSimulation 6 ∧
    ∃ order s', smallSimulation.stepUntilUnchecked (fun _ => {}) 8 = some s' ∧
      order.map (fun x => (x.1.time, x.2)) =
        [(5, .once 10), (5, .periodic 40 3), (8, .periodic 40 3)] ∧
      Progress smallSimulation s' (Simulation.stepsUntil 8 8 (fun _ => {}) smallSimulation)
        order := by
  have hvalid : smallSimulation.Valid := ⟨by decide, by decide⟩
  obtain ⟨-, -, huntil⟩ := kernel_steps hvalid
  obtain ⟨order, s', hstep, -, hprogress, -⟩ := huntil 8 (fun _ => {}) (by decide)
  refine ⟨hvalid, by unfold Idle; decide, order, s', hstep, ?_, hprogress⟩
  have hran : (smallSimulation.stepUntilUnchecked (fun _ => {}) 8).map
      (fun s => s.ran.map fun x => (x.1.time, x.2)) =
        some [(5, .once 10), (5, .periodic 40 3), (8, .periodic 40 3)] := by decide
  rw [hstep, Option.map_some, Option.some.injEq, hprogress.ran] at hran
  exact hran

end SiestaVR.Kernel
