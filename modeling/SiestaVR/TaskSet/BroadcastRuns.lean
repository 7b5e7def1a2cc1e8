import SiestaVR.TaskSet.Broadcast

/-!
# Broadcasts miss no wake-up

The invariant of the task set says where a task that was woken is. Here it is carried to the
broadcast: a future that was woken since its last poll is scheduled, or the poll has yet to come to
it, and a poll returns only when a notification is asked for.

The invariant has three parts: `Core` is what holds at any time, `Fits` ties the stage of the poll
to what the parent of the task set does, and `Served` is the promise to the futures that were
woken. Each access of the poll has its lemma, by the stage it starts from.
-/

namespace SiestaVR.TaskSet.Broadcast

open SiestaVR.Lib

variable {R : Type} {s s' : TaskSet.State} {k : Nat} {weak : Bool} {b b' : State R}

/-! ## What the task set does for a broadcast -/

/-- An access of `take_scheduled`: it finds no task and has asked for a notification, or takes the
tasks, or goes on. -/
theorem stepParent_takes (hinv : TaskSet.Inv s)
    (hp : s.parent = .entered 1 false ∨ ∃ head, s.parent = .taking 1 false head)
    (h : s.stepParent weak = some s') :
    s'.due = s.due ∧ s'.taskCount = s.taskCount ∧
      (s'.parent = .idle ∧ s.pushed = [] ∧ s'.pushed = [] ∧ s'.asked = 1 ∨
        (∃ i, s'.parent = .iterating i) ∨
        (∃ head, s'.parent = .taking 1 false head) ∧ s'.pushed = s.pushed) := by
  unfold State.stepParent at h
  obtain hp | ⟨head, hp⟩ := hp
  · rw [hp] at h
    cases h
    exact ⟨rfl, rfl, .inr (.inr ⟨⟨_, rfl⟩, rfl⟩)⟩
  · rw [hp] at h
    cases h
    unfold State.takeHead
    dsimp only
    split
    case isTrue hc =>
      split
      case isTrue hempty =>
        have hnil : s.pushed = [] := by
          rw [hinv.stack.nil_iff, ← hinv.headIndex_eq, hc.1, hempty]
        exact ⟨rfl, rfl, .inl ⟨rfl, hnil, hnil, rfl⟩⟩
      case isFalse => exact ⟨rfl, rfl, .inr (.inl ⟨_, rfl⟩)⟩
    case isFalse => exact ⟨rfl, rfl, .inr (.inr ⟨⟨_, rfl⟩, rfl⟩)⟩

/-- An access of the iterator: it is at its end, or puts a task to sleep and returns it if it is
active. -/
theorem stepParent_iterates (hinv : TaskSet.Inv s) {i : UInt32} (hp : s.parent = .iterating i)
    (h : s.stepParent weak = some s') :
    s'.taskCount = s.taskCount ∧
      (s'.parent = .idle ∧ s'.due = s.due ∨
        (∃ i', s'.parent = .iterating i') ∧ (∀ j, j ≠ i.toNat → s'.isDue j = s.isDue j) ∧
          s'.yielded = if i.toNat < s.taskCount then s.yielded ++ [i.toNat] else s.yielded) := by
  have hrest := hinv.remaining
  unfold State.stepParent at h
  rw [hp] at h hrest
  cases h
  unfold State.iterate
  split
  case isTrue => exact ⟨rfl, .inl ⟨rfl, rfl⟩⟩
  case isFalse hne =>
    obtain ⟨hnext, rest, hw, -⟩ := hinv.exists_waiting hne hrest
    have hlt : i.toNat < s.due.length :=
      (hinv.bound _ (by simp [hw])).trans_eq hinv.dueLength.symm
    rw [hnext]
    refine ⟨rfl, .inr ⟨⟨_, rfl⟩, fun j hj => ?_, rfl⟩⟩
    exact (getD_set hlt).trans (if_neg hj)

theorem stepParent_taskCount (h : s.stepParent weak = some s') : s'.taskCount = s.taskCount := by
  unfold State.stepParent at h
  split at h <;> cases h
  · rfl
  · unfold State.takeHead
    dsimp only
    split
    · split <;> rfl
    · rfl
  · unfold State.iterate
    split
    · rfl
    · split <;> rfl
  · unfold State.dropNext
    split
    · rfl
    · split <;> rfl
  · rfl

theorem pushed_of_hasScheduled (hinv : TaskSet.Inv s) (h : s.hasScheduled = true) :
    s.pushed ≠ [] := by
  intro hnil
  rw [State.hasScheduled, decide_eq_true_eq, Ne, land_indexMask_eq_empty] at h
  apply h
  rw [← UInt32.toNat_inj, hinv.headIndex_eq, hnil, first_nil]

theorem step_parent (h : TaskSet.Inv s) :
    TaskSet.State.step s (.parent weak) = s.stepParent weak := by
  unfold TaskSet.State.step
  rw [if_pos h.fault]

/-! ## The invariant -/

namespace State

/-- The futures from `idx` on have no output yet. -/
def Fresh (b : State R) (idx : Nat) : Prop :=
  ∀ i, idx ≤ i → i < b.futures → b.outputs[i]? = some none

/-- The broadcast is among the tasks that it has taken. -/
def Visits (b : State R) : Prop := b.state = .pending ∧ ∃ i, b.set.parent = .iterating i

/-- What is known at a stage. -/
def Fits (b : State R) : Stage → Prop
  | .idle => b.set.parent = .idle ∧ (b.state = .uninit → b.Fresh 0) ∧
    (b.state = .pending → b.registered = true ∧ b.set.asked = 1 ∧
      b.set.fulfilled = b.sent + if b.set.pushed = [] then 0 else 1)
  | .discarding => b.state = .uninit ∧ b.Fresh 0
  | .first idx => b.set.parent = .idle ∧ b.state = .uninit ∧ b.Fresh idx
  | .looping => b.set.parent = .idle ∧ b.state = .pending
  | .taking => b.state = .pending ∧ (b.registered = true ∨ b.set.pushed ≠ []) ∧
    (b.set.parent = .entered 1 false ∨ ∃ head, b.set.parent = .taking 1 false head)
  | .visiting => b.Visits
  | .visited idx => b.Visits ∧ idx < b.futures
  | .polling true idx =>
    b.set.parent = .idle ∧ b.state = .uninit ∧ idx < b.futures ∧ b.Fresh idx
  | .polling false idx => b.Visits ∧ idx < b.futures ∧ b.outputs[idx]? = some none
  | .leaving => b.state = .completed

/-- The future is to be polled whether it is woken or not. -/
def Unserved (b : State R) (i : Nat) : Stage → Prop
  | .idle => b.state = .uninit
  | .discarding => True
  | .first idx => idx ≤ i
  | .polling true idx => idx < i
  | .visited idx => idx = i
  | _ => False

/-- A future that was woken is scheduled or will be polled. -/
def Served (b : State R) (stage : Stage) : Prop :=
  b.state ≠ .completed → ∀ i < b.futures, b.outputs[i]? = some none → b.owed i = true →
    b.set.isDue i = true ∨ b.Unserved i stage

end State

/-- What holds at all stages. -/
structure Core (b : State R) : Prop where
  fault : b.fault = none
  set : TaskSet.Inv b.set
  tasks : b.set.taskCount = b.futures
  slots : b.futures ≤ b.outputs.length
  count : b.state ≠ .completed →
    (b.outputs.take b.futures).countP Option.isNone = b.pendingFuturesCount
  ended : b.result ≠ none → b.state = .completed
  result : b.result = some (.ok ()) → ∀ i < b.futures, ∃ r, b.outputs[i]? = some (some r)

/-- The invariant of a broadcast. -/
structure Inv (b : State R) : Prop extends Core b where
  fits : b.Fits b.stage
  served : b.Served b.stage

theorem Core.withSet (h : Core b) (hs : TaskSet.Inv s') (ht : s'.taskCount = b.set.taskCount)
    {stage : Stage} {registered : Bool} {owed : Nat → Bool} {sent : Nat} :
    Core { b with set := s', stage, registered, owed, sent } :=
  { h with set := hs, tasks := ht.trans h.tasks }

theorem Core.complete (h : Core b) {stage : Stage} {result : Except Unit Unit}
    (hresult : result = .ok () → ∀ i < b.futures, ∃ r, b.outputs[i]? = some (some r)) :
    Core (b.complete stage result) :=
  { h with
    count := fun hc => absurd rfl hc
    ended := fun _ => rfl
    result := fun hr => hresult (Option.some.inj hr) }

theorem Core.endRound (h : Core b) (hparent : b.set.parent = .idle) (hstate : b.state ≠ .completed)
    (hserved : ∀ i < b.futures, b.outputs[i]? = some none → b.owed i = true →
      b.set.isDue i = true) : Inv b.endRound := by
  unfold State.endRound
  split
  case isTrue hzero =>
    refine ⟨h.complete fun _ i hi => ?_, ⟨hparent, nofun, nofun⟩, fun hc => absurd rfl hc⟩
    have hlt := hi.trans_le h.slots
    have hall := h.count hstate
    rw [hzero, List.countP_eq_zero] at hall
    have hsome := hall b.outputs[i] (List.mem_take_iff_getElem.mpr ⟨i, lt_min hi hlt, rfl⟩)
    obtain ⟨r, hr⟩ := Option.ne_none_iff_exists'.mp (mt Option.isNone_iff_eq_none.mpr hsome)
    exact ⟨r, (List.getElem?_eq_getElem hlt).trans (congrArg some hr)⟩
  case isFalse =>
    exact ⟨{ h with
      count := fun _ => h.count hstate, ended := fun hr => absurd (h.ended hr) hstate },
      ⟨hparent, rfl⟩, fun _ i hi ho how => .inl (hserved i hi ho how)⟩

/-! ## Steps -/

theorem Fits.wakes {stage : Stage} (h : b.Fits stage) (hw : Wakes b.set s' k)
    (owed : Nat → Bool) : State.Fits { b with set := s', owed } stage := by
  have hparent := hw.parent
  cases stage with
  | idle =>
    obtain ⟨hidle, hfresh, hpending⟩ := h
    refine ⟨hparent.trans hidle, hfresh, fun hp => ?_⟩
    obtain ⟨hreg, hasked, hsent⟩ := hpending hp
    refine ⟨hreg, hw.asked.trans hasked, ?_⟩
    -- Only the first task on the stack fulfils the notification asked for.
    obtain ⟨hpush, hful⟩ | ⟨hne, hful⟩ := hw.pushes
    · rw [hpush, hful, hsent]
    · rw [hful, hsent, if_neg hne, hasked]
      by_cases hnil : b.set.pushed = []
      · simp [hnil]
      · have := List.length_pos_iff.mpr hnil
        rw [if_neg (by omega), if_neg hnil]
  | taking =>
    obtain ⟨hstate, hreg, hp⟩ := h
    refine ⟨hstate, hreg.imp_right fun hne => ?_, hparent ▸ hp⟩
    obtain ⟨hpush, -⟩ | ⟨hne', -⟩ := hw.pushes
    · exact hpush ▸ hne
    · exact hne'
  | discarding => exact h
  | leaving => exact h
  | first idx => exact ⟨hparent.trans h.1, h.2⟩
  | looping => exact ⟨hparent.trans h.1, h.2⟩
  | visiting => exact ⟨h.1, hparent ▸ h.2⟩
  | visited idx => exact ⟨⟨h.1.1, hparent ▸ h.1.2⟩, h.2⟩
  | polling first idx =>
    cases first with
    | true => exact ⟨hparent.trans h.1, h.2⟩
    | false => exact ⟨⟨h.1.1, hparent ▸ h.1.2⟩, h.2⟩

theorem Inv.waker (h : Inv b) (hstep : b.set.stepWaker k weak = some s') :
    Inv { b with
      set := s'
      owed := match wokenBy b.set s' k with
        | some i => Function.update b.owed i true
        | none => b.owed } := by
  have hw := wakes_stepWaker h.set hstep
  refine ⟨h.toCore.withSet (h.set.stepWaker hstep) hw.taskCount, Fits.wakes h.fits hw _,
    fun hc i hi ho how => ?_⟩
  have hold : b.owed i = true → s'.isDue i = true ∨ b.Unserved i b.stage := fun how =>
    (h.served hc i hi ho how).imp_left (hw.due i)
  cases hwoken : wokenBy b.set s' k with
  | none => rw [hwoken] at how; exact hold how
  | some j =>
    simp only [hwoken] at how
    by_cases hij : i = j
    · exact .inl (hw.woken i (hij ▸ hwoken))
    · rw [Function.update_of_ne hij] at how
      exact hold how

/-- A new broadcast. -/
theorem Inv.new (h : Inv b) {futures : Nat} (hidle : b.stage = .idle)
    (hle : futures ≤ b.outputs.length) (hsize : futures ≤ empty.toNat)
    (hstep : b.new futures = some b') : Inv b' := by
  obtain ⟨hparent, -⟩ : b.Fits .idle := hidle ▸ h.fits
  obtain ⟨set, hset, rfl⟩ := Option.map_eq_some_iff.mp hstep
  have hsafe := h.set.step hset
  unfold TaskSet.State.step State.resizeTo at hset
  rw [if_pos h.set.fault] at hset
  simp only [hparent, if_true, hsize, hsize.trans (show empty.toNat ≤ sleeping.toNat by decide),
    and_self] at hset
  cases hset
  have hlen : (List.replicate (min futures b.outputs.length) (none : Option R)).length =
      futures := by
    rw [List.length_replicate, min_eq_left hle]
  refine ⟨⟨h.fault, hsafe.inv h.set.fault, rfl, ?_, fun _ => ?_, nofun, nofun⟩, ?_,
    fun _ i _ _ how => by cases how⟩
  · rw [List.length_append, hlen]
    exact Nat.le_add_right ..
  · rw [List.take_append_of_le_length hlen.ge, List.take_of_length_le hlen.le, min_eq_left hle,
      List.countP_replicate]
    rfl
  · show State.Fits _ b.stage
    rw [hidle]
    refine ⟨rfl, fun _ i _ hi => ?_, nofun⟩
    rw [List.getElem?_append_left (hi.trans_eq hlen.symm),
      List.getElem?_replicate_of_lt (hi.trans_eq (min_eq_left hle).symm)]

theorem Inv.poll (h : Inv b) (hidle : b.stage = .idle) (hstate : b.state ≠ .completed)
    (hstep : b.poll = some b') : Inv b' := by
  obtain ⟨hparent, hfresh, -⟩ : b.Fits .idle := hidle ▸ h.fits
  have hserved : b.Served .idle := hidle ▸ h.served
  unfold State.poll at hstep
  split at hstep
  case h_1 hst => exact absurd hst hstate
  case h_2 hst =>
    cases hstep
    refine ⟨{ h.toCore with }, ⟨hparent, hst⟩, fun hc i hi ho how => .inl ?_⟩
    refine (hserved hc i hi ho how).resolve_right fun hun => ?_
    cases hst.symm.trans hun
  case h_3 hst =>
    obtain ⟨set, hset, rfl⟩ := Option.map_eq_some_iff.mp hstep
    have hsafe := h.set.step hset
    unfold TaskSet.State.step at hset
    simp only [if_pos h.set.fault, hparent, if_true, Option.some.injEq] at hset
    -- An empty stack is not taken: the first poll goes through all futures in any case.
    by_cases hempty : b.set.head = empty.toUInt64
    · rw [if_neg (not_not.mpr hempty)] at hset
      subst hset
      simp only [hparent, if_true]
      exact ⟨{ h.toCore with }, ⟨hparent, hst, hfresh hst⟩, fun _ i _ _ _ => .inr (Nat.zero_le i)⟩
    · rw [if_pos hempty] at hset
      subst hset
      exact ⟨h.toCore.withSet (hsafe.inv h.set.fault) rfl, ⟨hst, hfresh hst⟩,
        fun _ _ _ _ _ => .inr trivial⟩

theorem Inv.pollFuture (h : Inv b) {first : Bool} {idx : Nat} (hidx : idx < b.futures)
    (hfits : b.Fits (.polling first idx))
    (hserved : ∀ i, i ≠ idx → b.Unserved i b.stage → b.Unserved i (.polling first idx)) :
    Inv (b.pollFuture first idx) := by
  rw [State.pollFuture, if_pos ⟨hidx, h.tasks ▸ hidx⟩]
  refine ⟨{ h.toCore with }, ?_, fun hc i hi ho how => ?_⟩
  · cases first <;> exact hfits
  · dsimp only at how
    by_cases hij : i = idx
    · rw [hij, Function.update_self] at how
      cases how
    · rw [Function.update_of_ne hij] at how
      refine (h.served hc i hi ho how).imp_right fun hun => ?_
      cases first <;> exact hserved i hij hun

theorem Inv.goDiscarding (h : Inv b) (hst : b.stage = .discarding)
    (hset : b.set.stepParent weak = some s') :
    Inv { b with set := s', stage := if s'.parent = .idle then .first 0 else .discarding } := by
  have hfits : b.Fits .discarding := hst ▸ h.fits
  have hcore {stage : Stage} : Core { b with set := s', stage } :=
    h.toCore.withSet (h.set.stepParent hset) (stepParent_taskCount hset)
  split
  case isTrue hp => exact ⟨hcore, ⟨hp, hfits⟩, fun _ i _ _ _ => .inr (Nat.zero_le i)⟩
  case isFalse => exact ⟨hcore, hfits, fun _ _ _ _ _ => .inr trivial⟩

theorem Inv.goLeaving (h : Inv b) (hst : b.stage = .leaving)
    (hset : b.set.stepParent weak = some s') :
    Inv { b with set := s', stage := if s'.parent = .idle then .idle else .leaving } := by
  have hfits : b.Fits .leaving := hst ▸ h.fits
  have hover : b.state = .completed := hfits
  have hcore {stage : Stage} : Core { b with set := s', stage } :=
    h.toCore.withSet (h.set.stepParent hset) (stepParent_taskCount hset)
  split
  case isTrue hp =>
    refine ⟨hcore, ⟨hp, fun hu => ?_, fun hu => ?_⟩, fun hc => absurd hover hc⟩
    · cases hover.symm.trans hu
    · cases hover.symm.trans hu
  case isFalse => exact ⟨hcore, hover, fun hc => absurd hover hc⟩

theorem Inv.goFirst (h : Inv b) {idx : Nat} (hst : b.stage = .first idx)
    (hstep : b.go weak = some b') : Inv b' := by
  obtain ⟨hparent, hstate, hfresh⟩ : b.Fits (.first idx) := hst ▸ h.fits
  simp only [State.go, hst] at hstep
  split at hstep
  case isTrue hidx =>
    rw [if_pos (hidx.trans_le h.slots)] at hstep
    cases hstep
    refine h.pollFuture hidx ⟨hparent, hstate, hidx, hfresh⟩ fun i hi hun => ?_
    rw [hst] at hun
    exact lt_of_le_of_ne hun (Ne.symm hi)
  case isFalse hidx =>
    cases hstep
    have hopen : b.state ≠ .completed := by rw [hstate]; nofun
    have hserved : b.Served (.first idx) := hst ▸ h.served
    refine h.toCore.endRound hparent hopen fun i hi ho how => ?_
    exact (hserved hopen i hi ho how).resolve_right fun (hle : idx ≤ i) => by omega

theorem Inv.goLooping (h : Inv b) (hst : b.stage = .looping) (hstep : b.go weak = some b') :
    Inv b' := by
  obtain ⟨hparent, hstate⟩ : b.Fits .looping := hst ▸ h.fits
  have hserved : b.Served .looping := hst ▸ h.served
  simp only [State.go, hst] at hstep
  obtain ⟨set, hset, rfl⟩ := Option.map_eq_some_iff.mp hstep
  have hsafe := h.set.step hset
  unfold TaskSet.State.step at hset
  simp only [if_pos h.set.fault, hparent, if_true, show 1 < 2 ^ 32 by decide] at hset
  cases hset
  refine ⟨h.toCore.withSet (hsafe.inv h.set.fault) rfl, ⟨hstate, ?_, .inl rfl⟩, hserved⟩
  by_cases hs : b.set.hasScheduled = true
  · have hne : b.set.pushed ≠ [] := pushed_of_hasScheduled h.set hs
    exact .inr hne
  · exact .inl (by simp [hs])

theorem Inv.goTaking (h : Inv b) (hst : b.stage = .taking) (hstep : b.go weak = some b') :
    Inv b' := by
  obtain ⟨hstate, hreg, hparent⟩ : b.Fits .taking := hst ▸ h.fits
  have hserved : b.Served .taking := hst ▸ h.served
  simp only [State.go, hst, step_parent h.set] at hstep
  obtain ⟨set, hset, rfl⟩ := Option.map_eq_some_iff.mp hstep
  obtain ⟨hdue, htasks, hcases⟩ := stepParent_takes h.set hparent hset
  have hcore {stage : Stage} {sent : Nat} : Core { b with set, stage, sent } :=
    h.toCore.withSet (h.set.stepParent hset) htasks
  have hserved' {stage : Stage} {sent : Nat} : State.Served { b with set, stage, sent } stage := by
    refine fun hc i hi ho how => .inl ?_
    show set.isDue i = true
    rw [State.isDue, hdue]
    exact (hserved hc i hi ho how).resolve_right id
  -- Nothing was scheduled; or the tasks are taken; or the exchange failed and is tried again.
  obtain ⟨hp, hnil, hnil', hasked⟩ | ⟨i, hp⟩ | ⟨⟨head, hp⟩, hpushed⟩ := hcases
  · simp only [hp]
    refine ⟨hcore, ⟨hp, fun hu => ?_, fun _ => ⟨hreg.resolve_right (absurd hnil), hasked, ?_⟩⟩,
      hserved'⟩
    · cases hstate.symm.trans hu
    · rw [if_pos hnil', Nat.add_zero]
  · simp only [hp]
    exact ⟨hcore, ⟨hstate, i, hp⟩, hserved'⟩
  · simp only [hp]
    exact ⟨hcore, ⟨hstate, hpushed ▸ hreg, .inr ⟨head, hp⟩⟩, hserved'⟩

theorem Inv.goVisiting (h : Inv b) (hst : b.stage = .visiting) (hstep : b.go weak = some b') :
    Inv b' := by
  obtain ⟨hstate, i, hp⟩ : b.Fits .visiting := hst ▸ h.fits
  have hopen : b.state ≠ .completed := by simp [hstate]
  have hserved (j : Nat) (hj : j < b.futures) (ho : b.outputs[j]? = some none)
      (how : b.owed j = true) : b.set.isDue j = true :=
    ((hst ▸ h.served : b.Served .visiting) hopen j hj ho how).resolve_right id
  simp only [State.go, hst, step_parent h.set] at hstep
  obtain ⟨set, hset, rfl⟩ := Option.map_eq_some_iff.mp hstep
  obtain ⟨htasks, hcases⟩ := stepParent_iterates h.set hp hset
  have hcore {stage : Stage} : Core { b with set, stage } :=
    h.toCore.withSet (h.set.stepParent hset) htasks
  obtain ⟨hp', hdue⟩ | ⟨⟨i', hp'⟩, hdue, hyield⟩ := hcases
  -- The iterator is at its end: who was owed a poll is scheduled again.
  · rw [if_pos hp']
    refine Core.endRound hcore hp' hopen fun j hj ho how => ?_
    show set.isDue j = true
    rw [State.isDue, hdue]
    exact hserved j hj ho how
  · rw [if_neg (by simp [hp']), hyield]
    -- A task above the count is left over from a larger broadcast and is skipped.
    by_cases hactive : i.toNat < b.set.taskCount
    · rw [if_pos hactive, if_neg (by simp), List.getLastD_concat]
      refine ⟨hcore, ⟨⟨hstate, i', hp'⟩, h.tasks ▸ hactive⟩, fun _ j hj ho how => ?_⟩
      by_cases hij : j = i.toNat
      · exact .inr hij.symm
      · exact .inl ((hdue j hij).trans (hserved j hj ho how))
    · rw [if_neg hactive, if_pos rfl]
      refine ⟨hcore, ⟨hstate, i', hp'⟩, fun _ j hj ho how => .inl ?_⟩
      exact (hdue j fun heq => hactive (by rw [← heq, h.tasks]; exact hj)).trans
        (hserved j hj ho how)

theorem Inv.goVisited (h : Inv b) {idx : Nat} (hst : b.stage = .visited idx)
    (hstep : b.go weak = some b') : Inv b' := by
  obtain ⟨hvisits, hidx⟩ : b.Fits (.visited idx) := hst ▸ h.fits
  simp only [State.go, hst] at hstep
  split at hstep
  case h_1 hnone =>
    rw [List.getElem?_eq_getElem (hidx.trans_le h.slots)] at hnone
    cases hnone
  case h_2 hsome =>
    cases hstep
    refine ⟨{ h.toCore with }, hvisits, fun hc i hi ho how => .inl ?_⟩
    have hserved : b.Served (.visited idx) := hst ▸ h.served
    refine (hserved hc i hi ho how).resolve_right fun (heq : idx = i) => ?_
    cases hsome.symm.trans (heq ▸ ho)
  case h_3 hnone =>
    cases hstep
    refine h.pollFuture hidx ⟨hvisits, hidx, hnone⟩ fun i hi hun => ?_
    rw [hst] at hun
    exact absurd hun.symm hi

theorem Inv.go (h : Inv b) (hstep : b.go weak = some b') : Inv b' := by
  cases hst : b.stage with
  | idle => simp [State.go, hst] at hstep
  | polling first idx => simp [State.go, hst] at hstep
  | first idx => exact h.goFirst hst hstep
  | looping => exact h.goLooping hst hstep
  | taking => exact h.goTaking hst hstep
  | visiting => exact h.goVisiting hst hstep
  | visited idx => exact h.goVisited hst hstep
  | discarding =>
    simp only [State.go, hst, step_parent h.set] at hstep
    obtain ⟨set, hset, rfl⟩ := Option.map_eq_some_iff.mp hstep
    exact h.goDiscarding hst hset
  | leaving =>
    simp only [State.go, hst, step_parent h.set] at hstep
    obtain ⟨set, hset, rfl⟩ := Option.map_eq_some_iff.mp hstep
    exact h.goLeaving hst hset

theorem Inv.polled (h : Inv b) {first : Bool} {idx : Nat} (hst : b.stage = .polling first idx) :
    idx < b.futures ∧ b.outputs[idx]? = some none ∧ b.state ≠ .completed := by
  have hfits : b.Fits (.polling first idx) := hst ▸ h.fits
  cases first with
  | true =>
    obtain ⟨-, hstate, hidx, hfresh⟩ := hfits
    exact ⟨hidx, hfresh idx le_rfl hidx, by rw [hstate]; nofun⟩
  | false =>
    obtain ⟨⟨hstate, -⟩, hidx, hnone⟩ := hfits
    exact ⟨hidx, hnone, by rw [hstate]; nofun⟩

/-- The poll goes on after a future has answered. -/
theorem Inv.resume (h : Inv b) {first : Bool} {idx n : Nat} {outputs : List (Option R)}
    (hst : b.stage = .polling first idx) (hsame : ∀ i, i ≠ idx → outputs[i]? = b.outputs[i]?)
    (hcore : Core { b with outputs, pendingFuturesCount := n }) :
    Inv { b with
      outputs
      pendingFuturesCount := n
      stage := if first then .first (idx + 1) else .visiting } := by
  have hfits : b.Fits (.polling first idx) := hst ▸ h.fits
  have hserved : b.Served (.polling first idx) := hst ▸ h.served
  have hnone {i : Nat} (ho : outputs[i]? = some none) : b.outputs[i]? = some none := by
    by_cases hij : i = idx
    · exact hij ▸ (h.polled hst).2.1
    · exact (hsame i hij).symm.trans ho
  cases first with
  | true =>
    obtain ⟨hparent, hstate, -, hfresh⟩ := hfits
    refine ⟨{ hcore with }, ⟨hparent, hstate, fun i hle hi => ?_⟩,
      fun hc i hi ho how => hserved hc i hi (hnone ho) how⟩
    exact (hsame i (by omega)).trans (hfresh i (by omega) hi)
  | false =>
    exact ⟨{ hcore with }, hfits.1, fun hc i hi ho how => hserved hc i hi (hnone ho) how⟩

/-- A future answers. -/
theorem Inv.answer (h : Inv b) {answer : Option (Except Unit R)}
    (hstep : b.answer answer = some b') : Inv b' := by
  unfold State.answer at hstep
  split at hstep
  case h_2 => cases hstep
  case h_1 first idx hst =>
    obtain ⟨hidx, hnone, hopen⟩ := h.polled hst
    have hfits : b.Fits (.polling first idx) := hst ▸ h.fits
    dsimp only at hstep
    split at hstep
    case h_1 =>
      cases hstep
      exact h.resume hst (fun _ _ => rfl) h.toCore
    case h_2 output =>
      -- The slot was empty, so one output fewer is missing.
      have hslot : (b.outputs.take b.futures)[idx]? = some none := by
        rw [List.getElem?_take_of_lt hidx, hnone]
      have hcount := countP_set Option.isNone hslot (some output)
      rw [h.count hopen, ← List.take_set] at hcount
      simp only [Option.isNone_none, Option.isNone_some, if_true, Bool.false_eq_true,
        if_false] at hcount
      rw [if_neg (by omega)] at hstep
      cases hstep
      refine h.resume hst (fun i hi => List.getElem?_set_ne (Ne.symm hi)) { h.toCore with
        slots := h.slots.trans_eq List.length_set.symm
        count := fun _ => by dsimp only; omega
        result := fun hr => absurd (h.ended fun hn => ?_) hopen }
      cases hn.symm.trans hr
    -- An error ends the broadcast; the tasks the iterator still has are dropped.
    case h_3 =>
      cases first with
      | true =>
        cases hstep
        exact ⟨h.toCore.complete nofun, ⟨hfits.1, nofun, nofun⟩, fun hc => absurd rfl hc⟩
      | false =>
        obtain ⟨set, hset, rfl⟩ := Option.map_eq_some_iff.mp hstep
        obtain ⟨⟨-, i, hp⟩, -⟩ := hfits
        have hsafe := h.set.step hset
        simp only [TaskSet.State.step, h.set.fault, if_true, hp] at hset
        cases hset
        have hcore : Core (b.complete .leaving (.error ())) := h.toCore.complete nofun
        exact ⟨{ hcore with set := hsafe.inv rfl }, rfl, fun hc => absurd rfl hc⟩

/-! ## Whole runs -/

/-- How a broadcast is used: with a slot for each output, and not after its completion. -/
def Used (b : State R) : Event R → Prop
  | .new futures => futures ≤ b.outputs.length ∧ futures ≤ empty.toNat
  | .poll => b.state ≠ .completed
  | _ => True

instance (b : State R) : ∀ e, Decidable (Used b e)
  | .new _ => inferInstanceAs (Decidable (_ ∧ _))
  | .poll => inferInstanceAs (Decidable (_ ≠ _))
  | .wake _ | .waker _ _ | .go _ | .answer _ => .isTrue trivial

theorem Inv.step (h : Inv b) {e : Event R} (hused : Used b e) (hstep : b.step e = some b') :
    Inv b' := by
  unfold State.step at hstep
  rw [if_pos h.fault] at hstep
  cases e with
  | new futures =>
    obtain ⟨hidle, hs⟩ := Option.ite_none_right_eq_some.mp hstep
    exact h.new hidle hused.1 hused.2 hs
  | wake idx =>
    obtain ⟨set, hset, rfl⟩ := Option.map_eq_some_iff.mp hstep
    have hsafe := h.set.step hset
    unfold TaskSet.State.step at hset
    rw [if_pos h.set.fault] at hset
    obtain ⟨-, hs⟩ := Option.ite_none_right_eq_some.mp hset
    cases hs
    exact ⟨h.toCore.withSet (hsafe.inv h.set.fault) rfl, h.fits, h.served⟩
  | waker k weak =>
    obtain ⟨set, hset, rfl⟩ := Option.map_eq_some_iff.mp hstep
    unfold TaskSet.State.step at hset
    rw [if_pos h.set.fault] at hset
    exact h.waker hset
  | poll =>
    obtain ⟨hidle, hs⟩ := Option.ite_none_right_eq_some.mp hstep
    exact h.poll hidle hused hs
  | go weak => exact h.go hstep
  | answer answer => exact h.answer hstep

/-- The runs of broadcasts with the given slots for outputs. -/
def BroadcastRun (outputs : List (Option R)) (es : List (Event R)) (b : State R) : Prop :=
  Run State.step Used { outputs } es b

theorem BroadcastRun.inv {outputs : List (Option R)} {es : List (Event R)}
    (h : BroadcastRun outputs es b) : Inv b := by
  have hnew : Inv ({ outputs } : State R) :=
    { fault := rfl, set := inv_withLen (Nat.zero_le _), tasks := rfl, slots := Nat.zero_le _
      count := fun hc => absurd rfl hc, ended := fun hr => absurd rfl hr, result := nofun
      fits := ⟨rfl, nofun, nofun⟩, served := fun hc => absurd rfl hc }
  exact Run.state_invariant (P := Inv) hnew (fun _ _ _ hb hused hstep => hb.step hused hstep) h

/-- **A broadcast never misses a wake-up.** Between two polls its waker is registered, and a future
that was woken since it was last polled, and has no output, is on the stack or with a thread that is
about to push it. As soon as a task is on the stack, one notification has been sent since the poll
returned or is about to be. -/
theorem broadcast_woken {outputs : List (Option R)} {es : List (Event R)}
    (h : BroadcastRun outputs es b) (hidle : b.stage = .idle) (hpending : b.state = .pending) :
    b.registered = true ∧
      (∀ i < b.futures, b.outputs[i]? = some none → b.owed i = true → b.set.places i = 1) ∧
      b.set.notified + b.set.wakers.countP Waker.notifies =
        b.sent + if b.set.pushed = [] then 0 else 1 := by
  have hinv := h.inv
  obtain ⟨-, -, hnotified⟩ : b.Fits .idle := hidle ▸ hinv.fits
  obtain ⟨hreg, -, hsent⟩ := hnotified hpending
  refine ⟨hreg, fun i hi ho how => ?_, hinv.set.notices.trans hsent⟩
  have hserved : b.Served .idle := hidle ▸ hinv.served
  have hdue : b.set.isDue i = true := by
    refine (hserved (by rw [hpending]; nofun) i hi ho how).resolve_right fun hun => ?_
    cases hpending.symm.trans hun
  have hawake := hinv.set.due i hdue
  have hlt : i < b.set.next.length := by
    by_contra hge
    exact hawake (List.getD_eq_default _ _ (by omega))
  rw [hinv.set.places i hlt, if_neg hawake]

/-- Two futures are pending, and the second is woken. -/
def secondWakes : List (Event Nat) :=
  [.new 2, .poll, .go false, .answer none, .go false, .answer none, .go false, .go false,
    .go false, .go false, .wake 1, .waker 0 false, .waker 0 false, .waker 0 false, .waker 0 false]

theorem broadcast_woken_second : ∃ b, BroadcastRun [none, none] secondWakes b ∧
    b.set.places 1 = 1 ∧ b.set.notified + b.set.wakers.countP Waker.notifies = 1 := by
  have h : BroadcastRun [none, none] secondWakes _ := Run.of_runs (by decide +kernel) rfl
  obtain ⟨-, hplaces, hnotified⟩ := broadcast_woken h rfl rfl
  exact ⟨_, h, hplaces 1 (by decide) rfl rfl, hnotified⟩

/-- **A broadcast ends with all its outputs.** It never panics, also not when the outputs are
unwrapped, no future is polled after its completion, and the count of pending futures is that of
the missing outputs. -/
theorem broadcast_completes {outputs : List (Option R)} {es : List (Event R)}
    (h : BroadcastRun outputs es b) :
    b.fault = none ∧ b.set.fault = none ∧
      (b.result = some (.ok ()) → ∀ i < b.futures, ∃ r, b.outputs[i]? = some (some r)) ∧
      (b.state ≠ .completed →
        b.pendingFuturesCount = (b.outputs.take b.futures).countP Option.isNone) ∧
      ∀ first idx, b.stage = .polling first idx → b.outputs[idx]? = some none :=
  ⟨h.inv.fault, h.inv.set.fault, h.inv.result, fun hc => (h.inv.count hc).symm,
    fun _ _ hst => (h.inv.polled hst).2.1⟩

/-- The first future completes at the first poll; the second is woken later and completes at the
poll after it. -/
def secondCompletes : List (Event Nat) :=
  [.new 2, .poll, .go false, .answer (some (.ok 5)), .go false, .answer none] ++
    List.replicate 4 (.go false) ++ .wake 1 :: List.replicate 5 (.waker 0 false) ++
    .poll :: List.replicate 5 (.go false) ++ [.answer (some (.ok 7)), .go false]

theorem broadcast_completes_second : ∃ b : State Nat,
    BroadcastRun [none, none] secondCompletes b ∧ b.result = some (.ok ()) ∧
      b.set.notified = 1 ∧ ∀ i < 2, ∃ r, b.outputs[i]? = some (some r) :=
  have h : BroadcastRun [none, none] secondCompletes _ := Run.of_runs (by decide +kernel) rfl
  ⟨_, h, rfl, rfl, (broadcast_completes h).2.2.1 rfl⟩

end SiestaVR.TaskSet.Broadcast
