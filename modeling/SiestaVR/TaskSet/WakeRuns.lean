import SiestaVR.Lib.Runs
import SiestaVR.TaskSet.WakeInvariant

/-!
# Results on task sets

They hold in whatever order the threads that wake tasks and the parent take their accesses, by
`Inv.step` along the run. A call that wakes a task either finds it awake or puts it on the stack:
so a wake-up is kept until the parent puts the task to sleep, the iterator returns each task it has
taken once, and the parent is notified whenever the wake-ups come to the number asked for.
-/

namespace SiestaVR.TaskSet

open SiestaVR.Lib

variable {s s' : State} {len k : Nat} {weak : Bool} {es : List Event}

/-- The runs of a set of tasks of a size that `with_len` accepts. -/
def TaskSetRun (len : Nat) (es : List Event) (s : State) : Prop :=
  len ≤ empty.toNat ∧ Run State.step (fun _ _ => True) (withLen len) es s

theorem fault_of_step {e : Event} (hstep : s.step e = some s') : s.fault = none := by
  by_contra hf
  unfold State.step at hstep
  rw [if_neg hf] at hstep
  cases hstep

theorem Safe.inv (h : Safe s) (hfault : s.fault = none) : Inv s := by
  obtain hinv | hf | hf := h
  · exact hinv
  · rw [hfault] at hf; cases hf
  · rw [hfault] at hf; cases hf

theorem TaskSetRun.safe (h : TaskSetRun len es s) : Safe s :=
  h.2.state_invariant (P := Safe) (.inl (inv_withLen h.1)) fun _ _ _ hs _ hstep =>
    (hs.inv (fault_of_step hstep)).step hstep

theorem TaskSetRun.inv (h : TaskSetRun len es s) (hfault : s.fault = none) : Inv s :=
  h.safe.inv hfault

/-! ## The threads -/

/-- The call has had its effect. -/
def Waker.done (w : Waker) : Bool :=
  match w.stage with
  | .notifying => true
  | .returned => true
  | _ => false

/-- The task that a thread wakes with its access. -/
def wokenBy (s s' : State) (k : Nat) : Option Nat :=
  match s.wakers[k]?, s'.wakers[k]? with
  | some w, some w' => if w'.done && !w.done then some w.idx else none
  | _, _ => none

/-- The stack and the requests that are fulfilled stay, or a task is pushed. -/
def Pushes (s s' : State) : Prop :=
  s'.pushed = s.pushed ∧ s'.fulfilled = s.fulfilled ∨ s'.pushed ≠ [] ∧
    s'.fulfilled = if s.pushed.length + 1 = s.asked then s.fulfilled + 1 else s.fulfilled

/-- What a thread that wakes a task changes for the broadcast. -/
structure Wakes (s s' : State) (k : Nat) : Prop where
  parent : s'.parent = s.parent
  taskCount : s'.taskCount = s.taskCount
  asked : s'.asked = s.asked
  due : ∀ i, s.isDue i = true → s'.isDue i = true
  woken : ∀ i, wokenBy s s' k = some i → s'.isDue i = true
  pushes : Pushes s s'

theorem wokenBy_set {w : Waker} {stage : WakeState} (hk : s.wakers[k]? = some w)
    (hs : s'.wakers = s.wakers.set k ⟨w.idx, stage⟩) :
    wokenBy s s' k = if Waker.done ⟨w.idx, stage⟩ && !w.done then some w.idx else none := by
  have hlt := (List.getElem?_eq_some_iff.mp hk).1
  rw [wokenBy, hs, List.getElem?_set_self hlt, hk]

theorem wakes_of_not_done {w : Waker} {stage : WakeState} (hk : s.wakers[k]? = some w)
    (hstage : Waker.done ⟨w.idx, stage⟩ = false ∨ w.done = true) {next : List UInt32}
    {notified : Nat} :
    Wakes s { s.setStage k w stage with next, notified } k := by
  refine ⟨rfl, rfl, rfl, fun _ => id, fun i hi => ?_, .inl ⟨rfl, rfl⟩⟩
  rw [wokenBy_set hk rfl] at hi
  obtain hd | hd := hstage <;> simp [hd] at hi

theorem wakes_of_due (hinv : Inv s) {w : Waker} {stage : WakeState} (hk : s.wakers[k]? = some w)
    (hw : s'.wakers = s.wakers.set k ⟨w.idx, stage⟩) (hdue : s'.due = s.due.set w.idx true)
    (hparent : s'.parent = s.parent) (hcount : s'.taskCount = s.taskCount)
    (hasked : s'.asked = s.asked) (hpushes : Pushes s s') : Wakes s s' k := by
  have hlt := (hinv.wakers w (List.mem_of_getElem? hk)).idx
  have hset := isDue_set (hinv.dueLength ▸ hlt) hdue
  refine ⟨hparent, hcount, hasked, fun i hi => ?_, fun i hi => ?_, hpushes⟩
  · rw [hset]
    split
    · rfl
    · exact hi
  · rw [wokenBy_set hk hw] at hi
    obtain ⟨-, hi⟩ := Option.ite_none_right_eq_some.mp hi
    cases hi
    rw [hset, if_pos rfl]

theorem wakes_stepWaker (hinv : Inv s) (h : s.stepWaker k weak = some s') : Wakes s s' k := by
  unfold State.stepWaker at h
  cases hk : s.wakers[k]? with
  | none => rw [hk] at h; cases h
  | some w =>
    obtain ⟨idx, stage⟩ := w
    have hlt : idx < s.next.length := (hinv.wakers _ (List.mem_of_getElem? hk)).idx
    rw [hk] at h
    simp only [List.getElem?_eq_getElem hlt] at h
    -- A call has its effect in one access: with a task that is awake, or when the push succeeds.
    cases stage with
    | called => cases h; exact wakes_of_not_done hk (.inl rfl)
    | seen next =>
      cases h
      unfold State.wakeSeen
      split
      · exact wakes_of_not_done hk (.inl rfl)
      · split
        · exact wakes_of_due hinv hk rfl rfl rfl rfl rfl (.inl ⟨rfl, rfl⟩)
        · exact wakes_of_not_done hk (.inl rfl)
    | linking head =>
      cases h
      unfold State.wakeLinking
      split <;> exact wakes_of_not_done hk (.inl rfl)
    | pushing head =>
      cases h
      unfold State.wakePushing
      dsimp only
      split
      · exact wakes_of_due hinv hk rfl rfl rfl rfl rfl (.inr ⟨List.cons_ne_nil _ _, rfl⟩)
      · exact wakes_of_not_done hk (.inl rfl)
    | relinking head => cases h; exact wakes_of_not_done hk (.inl rfl)
    | notifying => cases h; exact wakes_of_not_done hk (.inr rfl)
    | returned => cases h

/-! ## Results -/

/-- The parent asks to be notified of one wake-up. Two threads wake two tasks; both have seen the
empty stack, and the second comes first. The parent takes the stack, and the first task is woken
again while the second is still to be returned. -/
def twoWakes : List Event :=
  [.take 1, .parent false, .parent false, .wake 0, .wake 1,
    .waker 0 false, .waker 1 false, .waker 0 false, .waker 1 false, .waker 0 false, .waker 1 false,
    .waker 1 false, .waker 0 false, .waker 0 false, .waker 0 false, .waker 1 false,
    .take 2, .parent false, .parent false, .parent false,
    .wake 0, .waker 2 false, .waker 2 false, .waker 2 false, .waker 2 false]

/-- The state after `twoWakes`. -/
def afterTwoWakes : State where
  next := [empty, empty]
  taskCount := 2
  head := 0
  wakers := [⟨0, .returned⟩, ⟨1, .returned⟩, ⟨0, .returned⟩]
  parent := .iterating 1
  due := [true, true]
  pushed := [0]
  taken := [0, 1]
  slept := [0]
  yielded := [0]
  fulfilled := 1
  notified := 1

theorem twoWakes_run : TaskSetRun 2 twoWakes afterTwoWakes :=
  ⟨by decide, Run.of_runs (allOk_true _ _ _) (by decide +kernel)⟩

/-- **No wake-up of a task is lost or counted twice.** Links never lead out of the set. A task
that was woken and not put to sleep since is at exactly one place: on the stack that the links
show, among the tasks that the parent has taken and still looks at, or with one thread that is
about to push it. -/
theorem taskSet_wakes_kept (h : TaskSetRun len es s) :
    (s.fault = none ∨ s.fault = some .notifyCount ∨ s.fault = some .resize) ∧
    (s.fault = none →
      Linked s.link empty.toNat (headIndex s.head).toNat s.pushed ∧
      ∀ i, s.places i ≤ 1 ∧ (s.isDue i = true → s.places i = 1) ∧
        (i ∈ s.pushed ++ s.waiting → s.isDue i = true)) := by
  refine ⟨h.safe.imp_left Inv.fault, fun hfault => ?_⟩
  have hinv := h.inv hfault
  refine ⟨by rw [hinv.headIndex_eq]; exact hinv.stack, fun i => ?_⟩
  by_cases hi : i < s.next.length
  · refine ⟨hinv.places_le hi, fun hdue => ?_, hinv.dueOf i⟩
    rw [hinv.places i hi, if_neg (hinv.due i hdue)]
  · refine ⟨by rw [hinv.places_eq_zero hi]; omega, fun hdue => ?_, hinv.dueOf i⟩
    exact absurd (List.getD_eq_default _ _ (by omega)) (hinv.due i hdue)

theorem taskSet_wakes_kept_two : TaskSetRun 2 twoWakes afterTwoWakes ∧
    afterTwoWakes.places 1 = 1 :=
  ⟨twoWakes_run, (((taskSet_wakes_kept twoWakes_run).2 rfl).2 1).2.1 (by decide)⟩

/-- **The iterator returns what was on the stack when it was taken**, the last woken first, each
task once, whoever is woken in the meantime: what it has put to sleep is the beginning of that,
the links lead to the rest, and what it has returned are the active tasks among those. -/
theorem taskSet_iterates (h : TaskSetRun len es s) (hfault : s.fault = none) {nextIndex : UInt32}
    (hp : s.parent = .iterating nextIndex) :
    s.taken.Nodup ∧ s.yielded = s.slept.filter (· < s.taskCount) ∧
      ∃ rest, s.taken = s.slept ++ rest ∧ Linked s.link empty.toNat nextIndex.toNat rest := by
  have hinv := h.inv hfault
  have hrest := hinv.remaining
  rw [hp] at hrest
  refine ⟨hinv.nodup, hinv.yielded nextIndex hp, s.waiting, ?_, hrest⟩
  exact (List.prefix_iff_eq_append.mp hinv.prefixed).symm

theorem taskSet_iterates_two : afterTwoWakes.taken = [0, 1] ∧
    ∃ rest, afterTwoWakes.taken = afterTwoWakes.slept ++ rest ∧
      Linked afterTwoWakes.link empty.toNat 1 rest :=
  ⟨rfl, (taskSet_iterates twoWakes_run rfl rfl).2.2⟩

/-- **The parent is notified once for each request that is fulfilled.** The countdown is what is
missing to the number of wake-ups asked for, and there are as many notifications, sent or about
to be sent, as there were wake-ups that made up the number asked for. -/
theorem taskSet_notifies (h : TaskSetRun len es s) (hfault : s.fault = none) :
    (s.head &&& countdownMask).toNat = 2 ^ 32 * (s.asked - s.pushed.length) ∧
      s.notified + s.wakers.countP Waker.notifies = s.fulfilled := by
  have hinv := h.inv hfault
  refine ⟨?_, hinv.notices⟩
  have hlt := first_lt hinv
  rw [toNat_land_countdownMask, hinv.head, toNat_pack hinv.countdown_lt hlt]
  omega

theorem taskSet_notifies_two : TaskSetRun 2 twoWakes afterTwoWakes ∧
    afterTwoWakes.notified + afterTwoWakes.wakers.countP Waker.notifies = 1 :=
  ⟨twoWakes_run, (taskSet_notifies twoWakes_run rfl).2⟩

end SiestaVR.TaskSet
