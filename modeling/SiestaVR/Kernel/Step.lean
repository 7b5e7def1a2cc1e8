import SiestaVR.Kernel.Simulation

/-!
# What one step of the kernel takes off the queue

At the time `t` of a step the queue begins with the actions of that time, which come off
it one by one, those that are cancelled being thrown away. Everything that is put back is for
a later time and goes behind them. So the effect of any part of the loops is told by two
equations (`Pulled`): which of the actions due at `t` came off in which order, and what
became of the later part of the queue. The equations compose, and both loops of the step
are compositions of one round, a pull and a peek (`pulled_round`). `Gathered` is what is
known after any number of rounds under one key.
-/

namespace SiestaVR.Kernel

variable {F : Type} {flags : Nat → Bool} {bound t : Nat} {q q' q'' : SchedulerQueue F}

variable {k : Key} {run : List (Item Key (Action F))} {n : Nat} {a : Action F}

theorem Key.time_le {k' : Key} (h : k ≤ k') : k.time ≤ k'.time := by
  rcases (Prod.Lex.le_iff).1 h with h | ⟨h, -⟩
  · exact h.le
  · exact h.le

/-! ## Parts of the queue -/

/-- The item's action is not cancelled. -/
def Item.live (flags : Nat → Bool) (i : Item Key (Action F)) : Bool := !i.value.isCancelled flags

/-- The actions for time `t` that are not cancelled. -/
def dueAt (flags : Nat → Bool) (t : Nat) (q : SchedulerQueue F) : List (Item Key (Action F)) :=
  q.heap.filter fun i => i.key.time = t ∧ i.live flags

/-- The actions for times after `t`. -/
def laterThan (t : Nat) (q : SchedulerQueue F) : List (Entry F) :=
  (q.heap.filter fun i => t < i.key.time).map Item.entry

/-- Nothing is scheduled for a time before `t`, and periods are positive. -/
structure Upcoming (t : Nat) (q : SchedulerQueue F) : Prop where
  time_le : ∀ i ∈ q.heap, t ≤ i.key.time
  period_pos : ∀ i ∈ q.heap, ∀ x ∈ i.value.next, 0 < x.2

/-- What has been found out when the next key has been looked up. -/
def Peeked (flags : Nat → Bool) (bound : Nat) (q : SchedulerQueue F) : Option Key → Prop
  | some k => ∃ i rest, q.heap = i :: rest ∧ i.key = k ∧ k.time ≤ bound ∧ i.live flags
  | none => ∀ i ∈ q.heap, bound < i.key.time

/-- From `q` to `q'` the actions of `run` came off the front, due at `t`, and were put back if
periodic. What else is gone was cancelled. -/
structure Pulled (flags : Nat → Bool) (t : Nat) (q q' : SchedulerQueue F)
    (run : List (Item Key (Action F))) : Prop where
  due : dueAt flags t q = run ++ dueAt flags t q'
  later : ∃ gone : List (Entry F), (∀ x ∈ gone, x.2.isCancelled flags) ∧
    (laterThan t q' ++ gone).Perm
      (laterThan t q ++ (run.map Item.entry).filterMap Entry.again)

theorem Pulled.trans {run' : List (Item Key (Action F))} (h : Pulled flags t q q' run)
    (h' : Pulled flags t q' q'' run') : Pulled flags t q q'' (run ++ run') := by
  refine ⟨by rw [h.due, h'.due, List.append_assoc], ?_⟩
  obtain ⟨gone, hgone, hperm⟩ := h.later
  obtain ⟨gone', hgone', hperm'⟩ := h'.later
  refine ⟨gone' ++ gone, fun x hx => (List.mem_append.1 hx).elim (hgone' x) (hgone x), ?_⟩
  rw [← List.append_assoc, List.map_append, List.filterMap_append, ← List.append_assoc]
  refine (hperm'.append_right _).trans ?_
  rw [List.append_assoc]
  refine (List.perm_append_comm.append_left _).trans ?_
  rw [← List.append_assoc]
  exact hperm.append_right _

theorem key_le_of_head {i : Item Key (Action F)} {rest : List (Item Key (Action F))}
    (h : q.heap = i :: rest) : ∀ j ∈ q.heap, i.key ≤ j.key := by
  intro j hj
  rw [h] at hj
  rcases List.mem_cons.1 hj with rfl | hj
  · exact le_rfl
  · exact PriorityQueue.key_le_of_append (l := [i]) h List.mem_cons_self hj

theorem Peeked.later {next : Option Key} (h : Peeked flags bound q next) (hbound : t ≤ bound)
    (hnext : ∀ k ∈ next, t < k.time) : ∀ i ∈ q.heap, t < i.key.time := by
  intro j hj
  cases next with
  | none => exact hbound.trans_lt (h j hj)
  | some k =>
    obtain ⟨i, rest, hheap, rfl, -⟩ := h
    exact (hnext i.key rfl).trans_le (Key.time_le (key_le_of_head hheap j hj))

theorem dueAt_eq_nil (h : ∀ i ∈ q.heap, t < i.key.time) : dueAt flags t q = [] := by
  refine List.filter_eq_nil_iff.2 fun i hi => ?_
  have hlt := h i hi
  simp only [decide_eq_true_eq, not_and]
  omega

/-! ## Peeking -/

/-- Which items a peek throws away. -/
def discarded (flags : Nat → Bool) (bound : Nat) (i : Item Key (Action F)) : Bool :=
  i.key.time ≤ bound && i.value.isCancelled flags

theorem peekLoop_spec (hn : q.heap.length ≤ n) :
    (peekLoop flags bound n q).2.heap = q.heap.dropWhile (discarded flags bound) ∧
      Peeked flags bound (peekLoop flags bound n q).2 (peekLoop flags bound n q).1 := by
  induction n generalizing q with
  | zero =>
    have hnil : q.heap = [] := List.length_eq_zero_iff.1 (Nat.le_zero.1 hn)
    refine ⟨by rw [peekLoop, hnil, List.dropWhile_nil], fun i hi => ?_⟩
    rw [peekLoop, hnil] at hi
    exact absurd hi List.not_mem_nil
  | succ n ih =>
    cases hheap : q.heap with
    | nil =>
      simp only [peekLoop, PriorityQueue.peek, hheap, List.head?_nil, Option.map_none,
        List.dropWhile_nil, true_and]
      exact fun i hi => absurd (hheap ▸ hi) List.not_mem_nil
    | cons i rest =>
      simp only [peekLoop, PriorityQueue.peek, hheap, List.head?_cons, Option.map_some,
        Item.entry, List.dropWhile_cons, discarded]
      -- Within the bound, a cancelled action is thrown away; behind it nothing is looked at.
      by_cases htime : i.key.time ≤ bound
      · by_cases hlive : i.value.isCancelled flags
        · simp only [htime, hlive, if_true, Bool.not_true, Bool.false_eq_true, if_false,
            decide_true, Bool.and_self]
          have htail : q.tail.heap = rest := by
            rw [PriorityQueue.heap_tail, hheap, List.tail_cons]
          have hlen : q.tail.heap.length ≤ n := by
            rw [htail]
            rw [hheap] at hn
            exact Nat.le_of_succ_le_succ hn
          rw [← htail]
          exact ih hlen
        · simp only [htime, hlive, if_true, Bool.not_false, decide_true, Bool.and_false,
            Bool.false_eq_true, if_false, hheap, true_and]
          exact ⟨i, rest, hheap, rfl, htime, by simp [Item.live, hlive]⟩
      · simp only [htime, if_false, decide_false, Bool.false_and, Bool.false_eq_true, hheap,
          true_and]
        exact fun j hj => (not_le.1 htime).trans_le (Key.time_le (key_le_of_head hheap j hj))

theorem peekNextKey_spec (flags : Nat → Bool) (bound : Nat) (q : SchedulerQueue F) :
    (peekNextKey flags bound q).2.heap = q.heap.dropWhile (discarded flags bound) ∧
      Peeked flags bound (peekNextKey flags bound q).2 (peekNextKey flags bound q).1 :=
  peekLoop_spec le_rfl

/-- Looking up the next key throws cancelled actions away only. -/
theorem exists_append_peek (flags : Nat → Bool) (bound : Nat) (q : SchedulerQueue F) :
    ∃ gone, (∀ i ∈ gone, i.value.isCancelled flags) ∧
      gone ++ (peekNextKey flags bound q).2.heap = q.heap := by
  obtain ⟨hheap, -⟩ := peekNextKey_spec flags bound q
  refine ⟨q.heap.takeWhile (discarded flags bound), fun i hi => ?_, ?_⟩
  · have hdiscarded := List.all_eq_true.1 List.all_takeWhile i hi
    simp only [discarded, Bool.and_eq_true] at hdiscarded
    exact hdiscarded.2
  · rw [hheap, List.takeWhile_append_dropWhile]

theorem pulled_peek (flags : Nat → Bool) (bound t : Nat) (q : SchedulerQueue F) :
    Pulled flags t q (peekNextKey flags bound q).2 [] := by
  obtain ⟨gone, hgone, hsplit⟩ := exists_append_peek flags bound q
  refine ⟨?_, (gone.filter fun i => t < i.key.time).map Item.entry, ?_, ?_⟩
  · rw [dueAt, ← hsplit, List.filter_append, List.filter_eq_nil_iff.2, dueAt]
    intro i hi
    simp [Item.live, hgone i hi]
  · intro x hx
    obtain ⟨i, hi, rfl⟩ := List.mem_map.1 hx
    exact hgone i (List.mem_filter.1 hi).1
  · rw [List.map_nil, List.filterMap_nil, List.append_nil, laterThan, laterThan, ← List.map_append,
      ← List.filter_append]
    conv_rhs => rw [← hsplit]
    exact (List.perm_append_comm.filter _).map _

theorem Upcoming.peek (h : Upcoming t q) (flags : Nat → Bool) (bound : Nat) :
    Upcoming t (peekNextKey flags bound q).2 := by
  have hsub : (peekNextKey flags bound q).2.heap ⊆ q.heap := by
    obtain ⟨gone, -, hsplit⟩ := exists_append_peek flags bound q
    rw [← hsplit]
    exact List.subset_append_right _ _
  exact ⟨fun i hi => h.time_le i (hsub hi), fun i hi => h.period_pos i (hsub hi)⟩

/-! ## Pulling -/

theorem again_time {x y : Entry F} (h : Entry.again x = some y) :
    ∃ p, x.2.next = some (y.2, p) ∧ y.1 = toLex (x.1.time + p, x.1.channel) := by
  obtain ⟨⟨a, p⟩, hnext, rfl⟩ := Option.map_eq_some_iff.1 h
  exact ⟨p, hnext, rfl⟩

theorem Action.next_next {a' : Action F} {p : Nat} (h : a.next = some (a', p)) :
    a'.next = some (a', p) := by
  cases a <;> cases h <;> rfl

theorem Upcoming.tail (h : Upcoming t q) : Upcoming t q.tail :=
  ⟨fun j hj => h.time_le j (List.mem_of_mem_tail hj),
    fun j hj => h.period_pos j (List.mem_of_mem_tail hj)⟩

theorem Upcoming.insert (h : Upcoming t q) (hk : t ≤ k.time)
    (hpos : ∀ x ∈ a.next, 0 < x.2) : Upcoming t (q.insert k a) := by
  have hperm := q.perm_insert k a
  constructor
  · intro i hi
    rcases List.mem_cons.1 (hperm.mem_iff.1 hi) with rfl | hi
    · exact hk
    · exact h.time_le i hi
  · intro i hi
    rcases List.mem_cons.1 (hperm.mem_iff.1 hi) with rfl | hi
    · exact hpos
    · exact h.period_pos i hi

theorem dueAt_insert_of_lt (hk : t < k.time) :
    dueAt flags t (q.insert k a) = dueAt flags t q := by
  refine PriorityQueue.filter_insert_of_not ?_
  simp [PriorityQueue.nextItem, hk.ne']

theorem perm_laterThan_insert (hk : t < k.time) :
    (laterThan t (q.insert k a)).Perm ((k, a) :: laterThan t q) := by
  refine (((q.perm_insert k a).filter _).map _).trans ?_
  rw [List.filter_cons_of_pos (by simp [PriorityQueue.nextItem, hk]), List.map_cons]
  exact .refl _

/-- Pulling an action due at `t` takes it off, and puts it back for later if it is periodic. -/
theorem pulled_pull {i : Item Key (Action F)} {rest : List (Item Key (Action F))}
    (h : Upcoming t q) (hheap : q.heap = i :: rest) (htime : i.key.time = t)
    (hlive : i.live flags) :
    ∃ q', pullNextAction q = some (i.entry, q') ∧ Pulled flags t q q' [i] ∧ Upcoming t q' := by
  have htail : q.tail.heap = rest := by rw [PriorityQueue.heap_tail, hheap, List.tail_cons]
  have hdue : dueAt flags t q = i :: dueAt flags t q.tail := by
    rw [dueAt, hheap, List.filter_cons_of_pos (by simp [htime, hlive]), dueAt, htail]
  have hlater : laterThan t q = laterThan t q.tail := by
    rw [laterThan, hheap, List.filter_cons_of_neg (by simp [htime]), laterThan, htail]
  have hpull : pullNextAction q = some (i.entry,
      (Entry.again i.entry).elim q.tail fun y => q.tail.insert y.1 y.2) := by
    rw [pullNextAction, PriorityQueue.pull, hheap]
    rfl
  refine ⟨_, hpull, ?_⟩
  cases hagain : Entry.again i.entry with
  | none =>
    refine ⟨⟨hdue, [], by simp, ?_⟩, h.tail⟩
    rw [hlater, List.map_singleton, List.filterMap_cons_none hagain]
    exact .refl _
  | some y =>
    -- The action put back is for a time after `t`.
    obtain ⟨p, hnext, hy⟩ := again_time hagain
    have hpos : 0 < p := h.period_pos i (hheap ▸ List.mem_cons_self) (y.2, p) hnext
    have hytime : y.1.time = t + p := by rw [hy, ← htime]; rfl
    have hlt : t < y.1.time := by omega
    have hpos' : ∀ x ∈ y.2.next, 0 < x.2 := by
      rw [Action.next_next hnext]
      rintro _ ⟨⟩
      exact hpos
    refine ⟨⟨?_, [], by simp, ?_⟩, h.tail.insert hlt.le hpos'⟩
    · rw [hdue, Option.elim_some, dueAt_insert_of_lt hlt, List.singleton_append]
    · rw [List.append_nil, hlater, List.map_singleton, List.filterMap_cons_some hagain,
        List.filterMap_nil, Option.elim_some]
      exact (perm_laterThan_insert hlt).trans (List.perm_append_singleton y _).symm

/-- Actions under the key `k` have come off the queue, and the next key has been looked up. -/
structure Gathered (flags : Nat → Bool) (bound t : Nat) (k : Key) (q : SchedulerQueue F)
    (run : List (Item Key (Action F))) (next : Option Key) (q' : SchedulerQueue F) : Prop where
  keys : ∀ i ∈ run, i.key = k
  ne_nil : run ≠ []
  pulled : Pulled flags t q q' run
  upcoming : Upcoming t q'
  peeked : Peeked flags bound q' next

theorem Gathered.trans {run' : List (Item Key (Action F))} {next next' : Option Key}
    (h : Gathered flags bound t k q run next q')
    (h' : Gathered flags bound t k q' run' next' q'') :
    Gathered flags bound t k q (run ++ run') next' q'' where
  keys i hi := (List.mem_append.1 hi).elim (h.keys i) (h'.keys i)
  ne_nil := List.append_ne_nil_of_left_ne_nil h.ne_nil run'
  pulled := h.pulled.trans h'.pulled
  upcoming := h'.upcoming
  peeked := h'.peeked

/-- Each action that comes off is one less that is due. -/
theorem Gathered.length_lt {next : Option Key} (h : Gathered flags bound t k q run next q') :
    (dueAt flags t q').length < (dueAt flags t q).length := by
  rw [h.pulled.due, List.length_append]
  exact Nat.lt_add_of_pos_left (List.length_pos_of_ne_nil h.ne_nil)

/-- **One round** of either loop: an action due at `t` is pulled and the next key looked up. -/
theorem pulled_round (h : Upcoming t q) (hpeeked : Peeked flags bound q (some k))
    (hk : k.time = t) :
    ∃ i q₁ q' next, pullNextAction q = some (i.entry, q₁) ∧
      peekNextKey flags bound q₁ = (next, q') ∧ Gathered flags bound t k q [i] next q' := by
  obtain ⟨i, rest, hheap, hik, -, hlive⟩ := hpeeked
  obtain ⟨q₁, hpull, hpulled, hup⟩ := pulled_pull h hheap (hik ▸ hk) hlive
  exact ⟨i, q₁, _, _, hpull, rfl, by simpa using hik, List.cons_ne_nil _ _,
    hpulled.trans (pulled_peek flags bound t q₁), hup.peek flags bound,
    (peekNextKey_spec flags bound q₁).2⟩

/-! ## The loops -/

/-- The inner loop collects the actions under the current key. -/
theorem gather_spec (sequence : List (Entry F)) (h : Upcoming t q)
    (hpeeked : Peeked flags bound q (some k)) (hk : k.time = t)
    (hn : (dueAt flags t q).length ≤ n) :
    ∃ run next q', gather flags bound k n sequence q =
        some (sequence ++ run.map Item.entry, next, q') ∧
      next ≠ some k ∧ Gathered flags bound t k q run next q' := by
  induction n generalizing q sequence with
  | zero =>
    obtain ⟨i, q₁, q', next, -, -, hround⟩ := pulled_round h hpeeked hk
    exact absurd hround.length_lt (by omega)
  | succ n ih =>
    obtain ⟨i, q₁, q', next, hpull, hpeek, hround⟩ := pulled_round h hpeeked hk
    have hlt := hround.length_lt
    simp only [gather, hpull, hpeek, Option.bind_eq_bind, Option.bind_some]
    by_cases hnext : next = some k
    · rw [if_neg (not_not.2 hnext)]
      obtain ⟨run, next', q'', hgather, hnext', hrest⟩ :=
        ih (sequence ++ [i.entry]) hround.upcoming (hnext ▸ hround.peeked) (by omega)
      refine ⟨i :: run, next', q'', ?_, hnext', hround.trans hrest⟩
      rw [hgather, List.append_assoc]
      rfl
    · rw [if_pos hnext]
      exact ⟨[i], next, q', rfl, hnext, hround⟩

/-- A round of the outer loop makes one task, with all the actions under the current key. -/
theorem spawn_round (h : Upcoming t q) (hpeeked : Peeked flags bound q (some k)) (hk : k.time = t)
    (hn : (dueAt flags t q).length ≤ n + 1) :
    ∃ i q₁ q₂ next, pullNextAction q = some (i.entry, q₁) ∧
      peekNextKey flags bound q₁ = (next, q₂) ∧ Gathered flags bound t k q [i] next q₂ ∧
      ∃ run next' q', taskOf flags bound k n i.entry next q₂ =
          some (run.map Item.entry, next', q') ∧
        next' ≠ some k ∧ Gathered flags bound t k q run next' q' := by
  obtain ⟨i, q₁, q₂, next, hpull, hpeek, hround⟩ := pulled_round h hpeeked hk
  have hlt := hround.length_lt
  refine ⟨i, q₁, q₂, next, hpull, hpeek, hround, ?_⟩
  by_cases hnext : next = some k
  · rw [taskOf, if_neg (not_not.2 hnext)]
    obtain ⟨run, next', q', hgather, hnext', hrest⟩ :=
      gather_spec [i.entry] hround.upcoming (hnext ▸ hround.peeked) hk (n := n) (by omega)
    exact ⟨i :: run, next', q', hgather, hnext', hround.trans hrest⟩
  · rw [taskOf, if_pos hnext]
    exact ⟨[i], next, q₂, rfl, hnext, hround⟩

theorem lt_key_of_pulled {k' : Key}
    (hpeeked : Peeked flags bound q (some k)) (hpulled : Pulled flags t q q' run)
    (hpeeked' : Peeked flags bound q' (some k')) (hne : k' ≠ k) (hk' : k'.time = t) :
    ∀ i ∈ q'.heap, k < i.key := by
  obtain ⟨i, rest, hheap, rfl, -⟩ := hpeeked
  obtain ⟨j, rest', hheap', rfl, -, hlive⟩ := hpeeked'
  have hj : j ∈ dueAt flags t q := by
    rw [hpulled.due]
    refine List.mem_append_right _ (List.mem_filter.2 ⟨hheap' ▸ List.mem_cons_self, ?_⟩)
    simp [hk', hlive]
  have hij : i.key < j.key :=
    lt_of_le_of_ne (key_le_of_head hheap j (List.mem_filter.1 hj).1) (Ne.symm hne)
  exact fun m hm => hij.trans_le (key_le_of_head hheap' m hm)

theorem lt_of_pulled_behind {k' : Key} {run' : List (Item Key (Action F))}
    (hpeeked : Peeked flags bound q (some k)) (htask : Gathered flags bound t k q run (some k') q')
    (hne : k' ≠ k) (hk' : k'.time = t) (hpulled' : Pulled flags t q' q'' run') :
    ∀ x ∈ run.map Item.entry, ∀ y ∈ run'.map Item.entry, x.1 < y.1 := by
  intro x hx y hy
  obtain ⟨i, hi, rfl⟩ := List.mem_map.1 hx
  obtain ⟨j, hj, rfl⟩ := List.mem_map.1 hy
  have hj' : j ∈ dueAt flags t q' := hpulled'.due ▸ List.mem_append_left _ hj
  show i.key < j.key
  rw [htask.keys i hi]
  exact lt_key_of_pulled hpeeked htask.pulled htask.peeked hne hk' j (List.mem_filter.1 hj').1

/-- The tasks hold the actions of `run`, a task for each key, in the order of the keys. -/
structure TasksOf (tasks : List (List (Entry F))) (run : List (Item Key (Action F))) : Prop where
  flatten : tasks.flatten = run.map Item.entry
  inOrder : tasks.Pairwise fun l l' => ∀ x ∈ l, ∀ y ∈ l', x.1 < y.1

theorem TasksOf.singleton (run : List (Item Key (Action F))) :
    TasksOf [run.map Item.entry] run :=
  ⟨List.flatten_singleton, List.pairwise_singleton _ _⟩

theorem TasksOf.cons {tasks : List (List (Entry F))} {run' : List (Item Key (Action F))}
    (h : TasksOf tasks run')
    (hlt : ∀ x ∈ run.map Item.entry, ∀ y ∈ run'.map Item.entry, x.1 < y.1) :
    TasksOf (run.map Item.entry :: tasks) (run ++ run') where
  flatten := by rw [List.flatten_cons, h.flatten, List.map_append]
  inOrder := List.pairwise_cons.2 ⟨fun l hl x hx y hy =>
    hlt x hx y (h.flatten ▸ List.mem_flatten.2 ⟨l, hl, hy⟩), h.inOrder⟩

/-- The outer loop makes one task of the actions under each key, and goes on for as long as
there are actions due at `t`. -/
theorem spawnLoop_spec (inline first : Bool) (tasks : List (List (Entry F)))
    (h : Upcoming t q) (hpeeked : Peeked flags bound q (some k)) (hk : k.time = t)
    (hbound : t ≤ bound) (hn : (dueAt flags t q).length ≤ n) :
    ∃ run tasks' q', spawnLoop flags bound inline n first k tasks q = some (tasks ++ tasks', q') ∧
      TasksOf tasks' run ∧ Pulled flags t q q' run ∧ Upcoming t q' ∧
      ∀ i ∈ q'.heap, t < i.key.time := by
  induction n generalizing q k first tasks with
  | zero =>
    obtain ⟨i, q₁, q', next, -, -, hround⟩ := pulled_round h hpeeked hk
    exact absurd hround.length_lt (by omega)
  | succ n ih =>
    obtain ⟨i, q₁, q₂, next, hpull, hpeek, hround, run, next', q', hseq, hnext', htask⟩ :=
      spawn_round h hpeeked hk hn
    simp only [spawnLoop, hpull, hpeek, Option.bind_eq_bind, Option.bind_some]
    split
    · -- The lone action of this time.
      rename_i hlone
      refine ⟨[i], [[i.entry]], q₂, rfl, .singleton [i], hround.pulled, hround.upcoming,
        hround.peeked.later hbound fun k' hk' => ?_⟩
      have hlater := hlone.2.1
      rw [hk'] at hlater
      simpa [hk] using hlater
    · rw [hseq, Option.bind_some]
      -- The loop ends unless the next key is for this time too.
      have hdone (hlater : ∀ k' ∈ next', t < k'.time) :
          ∃ run' tasks' q'',
            some (tasks ++ [run.map Item.entry], q') = some (tasks ++ tasks', q'') ∧
            TasksOf tasks' run' ∧ Pulled flags t q q'' run' ∧ Upcoming t q'' ∧
            ∀ i ∈ q''.heap, t < i.key.time :=
        ⟨run, [run.map Item.entry], q', rfl, .singleton run, htask.pulled, htask.upcoming,
          htask.peeked.later hbound hlater⟩
      cases next' with
      | none => exact hdone (by simp)
      | some k' =>
        simp only
        split
        · rename_i htime
          have hk' : k'.time = t := htime.trans hk
          have hfewer := htask.length_lt
          obtain ⟨run', tasks', q'', hloop, htasks, hpulled', hup', hlater⟩ :=
            ih false (tasks ++ [run.map Item.entry]) htask.upcoming htask.peeked hk' (by omega)
          have hlt := lt_of_pulled_behind hpeeked htask (fun heq => hnext' (heq ▸ rfl)) hk' hpulled'
          refine ⟨run ++ run', run.map Item.entry :: tasks', q'', ?_, htasks.cons hlt,
            htask.pulled.trans hpulled', hup', hlater⟩
          rw [hloop, List.append_assoc]
          rfl
        · rename_i htime
          refine hdone fun k'' hk'' => ?_
          obtain rfl : k' = k'' := Option.some.inj hk''
          obtain ⟨j, rest, hheap, rfl, -⟩ := htask.peeked
          have hge := htask.upcoming.time_le j (hheap ▸ List.mem_cons_self)
          omega

end SiestaVR.Kernel
