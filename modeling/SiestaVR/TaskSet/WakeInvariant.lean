import SiestaVR.Lib.Threads
import SiestaVR.TaskSet.Head

/-!
# What holds of a task set in every order of accesses

The stack that the links show is the one the histories give. A task that is not asleep is at
one place: on the stack, among the tasks the parent has taken, or with one thread that is about to
push it (`Inv.places`). From that one equation it follows that nobody writes a link that somebody
else relies on.

The steps of the source touch the links in four ways, each with a lemma of its own: a thread links
its task to a head it has seen (`Inv.link`) and puts it on the stack (`Inv.push`), the parent takes
the stack (`Inv.takeAll`) and puts its tasks to sleep (`Inv.sleep`). `Inv.step` puts them together.

A head that a thread has seen may be stale when it links to it. The exchange compares the whole
word, so it succeeds only if the link names the present head; whether the head was another one in
between does not matter.
-/

namespace SiestaVR.TaskSet

open SiestaVR.Lib

/-! ## The invariant -/

variable {s s' : State}

/-- The thread has taken its task out of its sleep and is about to push it. -/
def Waker.inserts (w : Waker) : Bool :=
  match w.stage with
  | .pushing _ => true
  | .relinking _ => true
  | _ => false

/-- The thread is about to notify the parent. -/
def Waker.notifies (w : Waker) : Bool :=
  match w.stage with
  | .notifying => true
  | _ => false

namespace State

/-- The `next` field of a task. -/
def nextOf (s : State) (i : Nat) : UInt32 := s.next.getD i sleeping

/-- The link of a task. -/
def link (s : State) (i : Nat) : Nat := (s.nextOf i).toNat

/-- The task was woken since it was put to sleep. -/
def isDue (s : State) (i : Nat) : Bool := s.due.getD i false

/-- The tasks that were taken and are not yet put to sleep. -/
def waiting (s : State) : List Nat := s.taken.drop s.slept.length

/-- The threads that are about to push a task. -/
def inserting (s : State) (i : Nat) : Nat := s.wakers.countP fun w => w.inserts && w.idx == i

/-- The places at which a task is. -/
def places (s : State) (i : Nat) : Nat := s.inserting i + (s.pushed ++ s.waiting).count i

/-- The index from which the parent finds the tasks it has taken. -/
def Remaining (s : State) : Parent → Prop
  | .iterating nextIndex => Linked s.link empty.toNat nextIndex.toNat s.waiting
  | .dropping nextIndex => Linked s.link empty.toNat nextIndex.toNat s.waiting
  | .clearing index nextIndex => ∃ rest, s.waiting = index.toNat :: rest ∧
      Linked s.link empty.toNat nextIndex.toNat rest
  | _ => s.waiting = []

end State

/-- What a thread knows of the `next` field of its task. -/
def StageOk (next : UInt32) : WakeState → Prop
  | .linking head => headIndex head ≠ sleeping
  | .pushing head => headIndex head ≠ sleeping ∧ next = headIndex head
  | .relinking head => headIndex head ≠ sleeping
  | _ => True

/-- What is known of a thread. -/
structure WakerOk (next : List UInt32) (w : Waker) : Prop where
  idx : w.idx < next.length
  stage : StageOk (next.getD w.idx sleeping) w.stage

/-- The index at the head of the stack. -/
def first : List Nat → Nat
  | [] => empty.toNat
  | i :: _ => i

theorem first_nil : first [] = empty.toNat := by rw [first]

/-- The invariant of a task set. -/
structure Inv (s : State) : Prop where
  fault : s.fault = none
  size : s.next.length ≤ empty.toNat
  dueLength : s.due.length = s.next.length
  asked : s.asked < 2 ^ 32
  head : s.head = pack (s.asked - s.pushed.length) (first s.pushed)
  stack : Linked s.link empty.toNat (first s.pushed) s.pushed
  prefixed : s.slept <+: s.taken
  nodup : s.taken.Nodup
  yielded : ∀ nextIndex, s.parent = .iterating nextIndex →
    s.yielded = s.slept.filter (· < s.taskCount)
  remaining : s.Remaining s.parent
  bound : ∀ i ∈ s.pushed ++ s.waiting, i < s.next.length
  places : ∀ i < s.next.length, s.places i = if s.nextOf i = sleeping then 0 else 1
  due : ∀ i, s.isDue i = true → s.nextOf i ≠ sleeping
  dueOf : ∀ i ∈ s.pushed ++ s.waiting, s.isDue i = true
  wakers : ∀ w ∈ s.wakers, WakerOk s.next w
  notices : s.notified + s.wakers.countP Waker.notifies = s.fulfilled

/-- What a step leads to: the invariant, or a panic over an argument. -/
def Safe (s : State) : Prop :=
  Inv s ∨ s.fault = some .notifyCount ∨ s.fault = some .resize

theorem inv_withLen {len : Nat} (h : len ≤ empty.toNat) : Inv (withLen len) where
  fault := rfl
  size := by simpa [withLen] using h
  dueLength := by simp [withLen]
  asked := by simp [withLen]
  head := by
    show empty.toUInt64 = pack 0 (first [])
    rw [first_nil, empty_eq_pack]
  stack := first_nil
  prefixed := List.prefix_rfl
  nodup := List.nodup_nil
  yielded _ _ := rfl
  remaining := rfl
  bound := by simp [withLen, State.waiting]
  places i hi := by
    rw [if_pos]
    · rfl
    · simp [State.nextOf, withLen, List.getD_eq_getElem?_getD, List.getElem?_replicate]
      split <;> rfl
  due i := by
    simp only [State.isDue, withLen, List.getD_eq_getElem?_getD, List.getElem?_replicate]
    split <;> simp
  dueOf := by simp [withLen, State.waiting]
  wakers := by simp [withLen]
  notices := rfl

/-! ## What a step leaves alone -/

theorem Inv.first_le (h : Inv s) : first s.pushed ≤ empty.toNat := by
  cases hp : s.pushed with
  | nil => rw [first_nil]
  | cons i l => exact ((h.bound i (by simp [hp])).trans_le h.size).le

theorem first_lt (h : Inv s) : first s.pushed < 2 ^ 32 := h.first_le.trans_lt empty.toNat_lt

theorem Inv.countdown_lt (h : Inv s) : s.asked - s.pushed.length < 2 ^ 32 :=
  (Nat.sub_le _ _).trans_lt h.asked

theorem Inv.headIndex_eq (h : Inv s) : (headIndex s.head).toNat = first s.pushed := by
  rw [h.head, headIndex_pack h.countdown_lt (first_lt h)]

theorem Inv.headIndex_ne (h : Inv s) : headIndex s.head ≠ sleeping := by
  intro heq
  have hle := h.first_le
  rw [← h.headIndex_eq, heq] at hle
  exact absurd hle (by decide)

/-- Only a thread that is about to push its task relies on the `next` field. -/
theorem WakerOk.congr {w : Waker} {t : State} (h : WakerOk s.next w)
    (hlen : s.next.length ≤ t.next.length)
    (hnext : w.inserts = true → t.nextOf w.idx = s.nextOf w.idx) : WakerOk t.next w := by
  refine ⟨h.idx.trans_le hlen, ?_⟩
  have hst := h.stage
  unfold Waker.inserts at hnext
  cases hstage : w.stage with
  | pushing head =>
    rw [hstage] at hst hnext
    exact ⟨hst.1, (hnext rfl).trans hst.2⟩
  | linking head => rw [hstage] at hst; exact hst
  | relinking head => rw [hstage] at hst; exact hst
  | called => trivial
  | seen next => trivial
  | notifying => trivial
  | returned => trivial

section

variable {k idx : Nat} {w : Waker} {stage : WakeState} {weak : Bool} {head : UInt64}

variable {t : State} {i : Nat}

theorem inserting_set (hk : s.wakers[k]? = some w)
    (hs : t.wakers = s.wakers.set k ⟨w.idx, stage⟩) (i : Nat) :
    t.inserting i + (if w.inserts && w.idx == i then 1 else 0) =
      s.inserting i + (if Waker.inserts ⟨w.idx, stage⟩ && w.idx == i then 1 else 0) := by
  rw [State.inserting, hs]
  exact countP_set _ hk _

theorem notifies_set (hk : s.wakers[k]? = some w) (hs : t.wakers = s.wakers.set k ⟨w.idx, stage⟩) :
    t.wakers.countP Waker.notifies + (if w.notifies then 1 else 0) =
      s.wakers.countP Waker.notifies + (if Waker.notifies ⟨w.idx, stage⟩ then 1 else 0) := by
  rw [hs]
  exact countP_set _ hk _

theorem Inv.goOn (h : Inv s) (hk : s.wakers[k]? = some w)
    (hi : Waker.inserts ⟨w.idx, stage⟩ = w.inserts) {n : Nat}
    (hn : n + (if Waker.notifies ⟨w.idx, stage⟩ then 1 else 0) =
      s.notified + if w.notifies then 1 else 0) (hst : StageOk (s.nextOf w.idx) stage) :
    Inv { s.setStage k w stage with notified := n } := by
  have hw := h.wakers w (List.mem_of_getElem? hk)
  have hnotifies := notifies_set (t := s.setStage k w stage) hk rfl
  refine { h with places := fun i hlt => ?_, wakers := ?_, notices := ?_ }
  · have hinserting := inserting_set (t := s.setStage k w stage) hk rfl i
    rw [hi] at hinserting
    exact (congrArg (· + _) (Nat.add_right_cancel hinserting)).trans (h.places i hlt)
  · exact forall_mem_set ⟨hw.idx, hst⟩ fun j w₂ hj _ => h.wakers w₂ (List.mem_of_getElem? hj)
  · have hnotices := h.notices
    show n + (s.setStage k w stage).wakers.countP Waker.notifies = s.fulfilled
    omega

theorem Inv.setStage (h : Inv s) (hk : s.wakers[k]? = some w)
    (hi : Waker.inserts ⟨w.idx, stage⟩ = w.inserts)
    (hn : Waker.notifies ⟨w.idx, stage⟩ = w.notifies) (hst : StageOk (s.nextOf w.idx) stage) :
    Inv (s.setStage k w stage) :=
  h.goOn hk hi (by rw [hn]) hst

theorem Inv.notify (h : Inv s) (hk : s.wakers[k]? = some ⟨idx, .notifying⟩) :
    Inv { s.setStage k ⟨idx, .notifying⟩ .returned with notified := s.notified + 1 } :=
  h.goOn hk (by rfl) (by rfl) (show StageOk _ .returned from trivial)

theorem Inv.places_le (h : Inv s) (hi : i < s.next.length) : s.places i ≤ 1 := by
  rw [h.places i hi]
  split <;> omega

theorem Inv.places_eq_zero (h : Inv s) (hi : ¬ i < s.next.length) : s.places i = 0 := by
  rw [State.places, Nat.add_eq_zero_iff]
  refine ⟨List.countP_eq_zero.mpr fun w hw hins => hi ?_, List.count_eq_zero.mpr fun hin => hi ?_⟩
  · simp only [Bool.and_eq_true, beq_iff_eq] at hins
    exact hins.2 ▸ (h.wakers w hw).idx
  · exact h.bound i hin

theorem Inv.nodup_pushed (h : Inv s) : s.pushed.Nodup := by
  refine List.nodup_iff_count.mpr fun i => ?_
  by_cases hi : i < s.next.length
  · have := h.places_le hi
    rw [State.places, List.count_append] at this
    omega
  · have := h.places_eq_zero hi
    rw [State.places, List.count_append] at this
    omega

theorem Inv.alone (h : Inv s) (hk : s.wakers[k]? = some w) (hw : w.inserts = true) :
    w.idx ∉ s.pushed ++ s.waiting ∧
      ∀ j w₂, s.wakers[j]? = some w₂ → j ≠ k → w₂.inserts = true → w₂.idx ≠ w.idx := by
  have hmem := List.mem_of_getElem? hk
  have hle := h.places_le (h.wakers w hmem).idx
  rw [State.places] at hle
  have hpos : 0 < s.inserting w.idx :=
    List.countP_pos_iff.mpr ⟨w, hmem, by simp [hw]⟩
  refine ⟨fun hin => ?_, fun j w₂ hj hne hw₂ heq => ?_⟩
  · have := List.count_pos_iff.mpr hin
    omega
  · have : 2 ≤ s.inserting w.idx := two_le_countP hk hj hne (by simp [hw]) (by simp [hw₂, heq])
    omega

theorem nextOf_set {j : Nat} (hlt : j < s.next.length) {next : UInt32}
    (hs : t.next = s.next.set j next) (i : Nat) :
    t.nextOf i = if i = j then next else s.nextOf i := by
  rw [State.nextOf, hs, getD_set hlt]
  rfl

/-- The tasks that the parent has taken are found as long as their links stay. -/
theorem Remaining.congr {p : Parent} (h : s.Remaining p) (hw : s'.waiting = s.waiting)
    (hlink : ∀ i ∈ s.waiting, s'.link i = s.link i) : s'.Remaining p := by
  cases p with
  | idle => exact hw.trans h
  | entered countdown discard => exact hw.trans h
  | taking countdown discard head => exact hw.trans h
  | iterating nextIndex =>
    show Linked s'.link _ _ s'.waiting
    rw [hw]
    exact Linked.congr h hlink
  | dropping nextIndex =>
    show Linked s'.link _ _ s'.waiting
    rw [hw]
    exact Linked.congr h hlink
  | clearing index nextIndex =>
    obtain ⟨rest, hrest, hl⟩ := h
    refine ⟨rest, hw.trans hrest, hl.congr fun i hi => hlink i ?_⟩
    rw [hrest]
    exact List.mem_cons_of_mem _ hi

/-- A thread links its task to a head it has seen. -/
theorem Inv.link (h : Inv s) (hk : s.wakers[k]? = some w) {head : UInt64}
    (hne : headIndex head ≠ sleeping) (hnot : w.idx ∉ s.pushed ++ s.waiting)
    (hothers : ∀ j w₂, s.wakers[j]? = some w₂ → j ≠ k → w₂.inserts = true → w₂.idx ≠ w.idx)
    (hins : s.inserting w.idx = if w.inserts then 1 else 0) (hnotifies : w.notifies = false) :
    Inv { s.setStage k w (.pushing head) with
      next := s.next.set w.idx (headIndex head) } := by
  generalize hs : ({ s.setStage k w (.pushing head) with
    next := s.next.set w.idx (headIndex head) } : State) = s'
  have hw := h.wakers w (List.mem_of_getElem? hk)
  have hlen : s'.next.length = s.next.length := by rw [← hs]; exact List.length_set
  have hnextOf := nextOf_set (t := s') hw.idx (by rw [← hs])
  have hsame {i : Nat} (hi : i ≠ w.idx) : s'.nextOf i = s.nextOf i := by rw [hnextOf, if_neg hi]
  have hframe {i : Nat} (hi : i ∈ s.pushed ++ s.waiting) : s'.link i = s.link i :=
    congrArg UInt32.toNat (hsame fun heq => hnot (heq ▸ hi))
  -- The thread counts as a place from now on; before, its task was at none or with this thread.
  have hplaces : ∀ i < s'.next.length, s'.places i = if s'.nextOf i = sleeping then 0 else 1 := by
    intro i hi
    have hlists : s'.places i = s'.inserting i + (s.pushed ++ s.waiting).count i := by
      rw [← hs]
      rfl
    have hcount := inserting_set (t := s') hk (by rw [← hs]; rfl) i
    rw [show Waker.inserts ⟨w.idx, .pushing head⟩ = true from rfl, Bool.true_and] at hcount
    rw [hlists, hnextOf]
    by_cases heq : i = w.idx
    · subst heq
      simp only [BEq.rfl, Bool.and_true, if_true] at hcount
      rw [if_pos rfl, if_neg hne, List.count_eq_zero.mpr hnot]
      omega
    · simp only [beq_eq_false_iff_ne.mpr (Ne.symm heq), Bool.and_false, Bool.false_eq_true,
        if_false, Nat.add_zero] at hcount
      rw [hcount, if_neg heq]
      exact h.places i (hlen ▸ hi)
  have hnotices : s.notified + s'.wakers.countP Waker.notifies = s.fulfilled := by
    have hcount := notifies_set (t := s') hk (by rw [← hs]; rfl)
    simp only [hnotifies, show Waker.notifies ⟨w.idx, .pushing head⟩ = false from rfl,
      Bool.false_eq_true, if_false, Nat.add_zero] at hcount
    rw [hcount]
    exact h.notices
  subst hs
  refine { h with
    size := hlen.trans_le h.size, dueLength := h.dueLength.trans hlen.symm, stack := ?_,
    remaining := ?_, bound := ?_, places := hplaces, due := ?_, wakers := ?_,
    notices := hnotices }
  · exact h.stack.congr fun i hi => hframe (List.mem_append_left _ hi)
  · exact Remaining.congr h.remaining rfl fun i hi => hframe (List.mem_append_right _ hi)
  · exact fun i hi => (h.bound i hi).trans_eq hlen.symm
  · intro i hi
    rw [hnextOf]
    split
    · exact hne
    · exact h.due i hi
  -- Threads with another task do not see the write; no other thread inserts this one.
  · refine forall_mem_set ⟨hw.idx.trans_eq hlen.symm, hne, ?_⟩ fun j w₂ hj hjk => ?_
    · exact (hnextOf w.idx).trans (if_pos rfl)
    · exact (h.wakers w₂ (List.mem_of_getElem? hj)).congr hlen.ge fun hw₂ =>
        hsame (hothers j w₂ hj hjk hw₂)

theorem isDue_set {d : Bool} (hi : i < s.due.length)
    (hs : t.due = s.due.set i d) (j : Nat) : t.isDue j = if j = i then d else s.isDue j := by
  rw [State.isDue, hs, getD_set hi]
  rfl

theorem Inv.setDue (h : Inv s) (hi : i < s.next.length) (hn : s.nextOf i ≠ sleeping) :
    Inv { s with due := s.due.set i true } := by
  generalize hs : ({ s with due := s.due.set i true } : State) = s'
  have hdue := isDue_set (t := s') (h.dueLength ▸ hi) (by rw [← hs])
  subst hs
  refine { h with
    dueLength := List.length_set.trans h.dueLength, due := fun j hj => ?_,
    dueOf := fun j hj => ?_ }
  · rw [hdue] at hj
    split at hj
    case isTrue heq => exact heq ▸ hn
    case isFalse => exact h.due j hj
  · rw [hdue]
    split
    · rfl
    · exact h.dueOf j hj

theorem Inv.wakeSeen (h : Inv s) {next : UInt32} (hk : s.wakers[k]? = some ⟨idx, .seen next⟩) :
    Inv (s.wakeSeen k ⟨idx, .seen next⟩ weak next (s.nextOf idx)) := by
  unfold State.wakeSeen
  split
  · exact h.setStage hk rfl rfl h.headIndex_ne
  · split
    case isTrue hne hc =>
      have h' : Inv (s.setStage k ⟨idx, .seen next⟩ .returned) := h.setStage hk rfl rfl trivial
      exact h'.setDue (h.wakers _ (List.mem_of_getElem? hk)).idx (hc.1 ▸ hne)
    case isFalse => exact h.setStage hk rfl rfl trivial

theorem Inv.wakeLinking (h : Inv s) (hk : s.wakers[k]? = some ⟨idx, .linking head⟩) :
    Inv (s.wakeLinking k ⟨idx, .linking head⟩ weak head (s.nextOf idx)) := by
  have hw := h.wakers _ (List.mem_of_getElem? hk)
  unfold State.wakeLinking
  split
  case isTrue hc =>
    -- The task was asleep: it is on no list, and nobody inserts it.
    have hplaces := h.places idx hw.idx
    rw [if_pos hc.1, State.places, Nat.add_eq_zero_iff] at hplaces
    refine h.link hk hw.stage (List.count_eq_zero.mp hplaces.2) (fun j w₂ hj _ hw₂ heq => ?_)
      hplaces.1 rfl
    have := List.countP_eq_zero.mp hplaces.1 w₂ (List.mem_of_getElem? hj)
    simp [hw₂, heq] at this
  case isFalse => exact h.setStage hk rfl rfl trivial

theorem Inv.wakeRelinking (h : Inv s) (hk : s.wakers[k]? = some ⟨idx, .relinking head⟩) :
    Inv { s.setStage k ⟨idx, .relinking head⟩ (.pushing head) with
      next := s.next.set idx (headIndex head) } := by
  have hmem := List.mem_of_getElem? hk
  have hw := h.wakers _ hmem
  obtain ⟨hnot, hothers⟩ := h.alone hk rfl
  refine h.link hk hw.stage hnot hothers ?_ rfl
  have hle : s.places idx ≤ 1 := h.places_le hw.idx
  have hpos : 0 < s.inserting idx := List.countP_pos_iff.mpr ⟨_, hmem, by simp [Waker.inserts]⟩
  rw [State.places] at hle
  show s.inserting idx = 1
  omega

/-- The task of a thread is on top of the stack, and the countdown is one less. -/
theorem Inv.push (h : Inv s) (hk : s.wakers[k]? = some ⟨idx, .pushing s.head⟩) :
    Inv (s.wakePushing k ⟨idx, .pushing s.head⟩ false s.head) := by
  have hw := h.wakers _ (List.mem_of_getElem? hk)
  obtain ⟨hawake, hlink⟩ : headIndex s.head ≠ sleeping ∧ s.nextOf idx = headIndex s.head :=
    hw.stage
  have hsize := h.size
  have hempty : empty.toNat < 2 ^ 32 := empty.toNat_lt
  have hlen : idx < s.next.length := hw.idx
  have hidx : idx < 2 ^ 32 := by omega
  have hlt := h.countdown_lt
  -- The exchange moves the head and counts down; a countdown of one makes the thread notify.
  have hone : s.head &&& countdownMask = countdownOne ↔ s.pushed.length + 1 = s.asked := by
    rw [h.head, countdown_eq_one hlt (first_lt h)]
    omega
  have hnewHead := pushed_eq_pack hlt (first_lt h) hidx
  rw [← h.head, Nat.sub_sub] at hnewHead
  generalize hs : s.wakePushing k ⟨idx, .pushing s.head⟩ false s.head = s'
  rw [State.wakePushing, if_pos ⟨rfl, rfl⟩, hnewHead] at hs
  have hdue := isDue_set (t := s') (i := idx) (h.dueLength ▸ hlen) (by rw [← hs])
  have hplaces : ∀ i < s.next.length, s'.places i = if s.nextOf i = sleeping then 0 else 1 := by
    intro i hlt
    -- The task leaves its thread and comes onto the stack.
    have hcount := inserting_set (t := s') hk (by rw [← hs]; rfl) i
    have hout : Waker.inserts
        ⟨idx, if s.head &&& countdownMask = countdownOne then .notifying else .returned⟩ =
          false := by
      split <;> rfl
    simp only [show Waker.inserts ⟨idx, .pushing s.head⟩ = true from rfl, hout, Bool.true_and,
      Bool.false_and, Bool.false_eq_true, if_false, Nat.add_zero] at hcount
    have hlists : s'.places i = s'.inserting i + (idx :: (s.pushed ++ s.waiting)).count i := by
      rw [← hs]
      rfl
    rw [← h.places i hlt, hlists, List.count_cons, State.places]
    omega
  have hnotices : s.notified + s'.wakers.countP Waker.notifies =
      if s.pushed.length + 1 = s.asked then s.fulfilled + 1 else s.fulfilled := by
    have hcount := notifies_set (t := s') hk (by rw [← hs]; rfl)
    have hold := h.notices
    by_cases hc : s.pushed.length + 1 = s.asked
    · rw [if_pos (hone.mpr hc)] at hcount
      rw [if_pos hc, show s'.wakers.countP Waker.notifies = _ from hcount]
      exact congrArg (· + 1) hold
    · rw [if_neg (mt hone.mp hc)] at hcount
      rw [if_neg hc, show s'.wakers.countP Waker.notifies = _ from hcount]
      exact hold
  subst hs
  refine { h with
    dueLength := List.length_set.trans h.dueLength, head := rfl,
    stack := ⟨rfl, (hlen.trans_le hsize).ne, ?_⟩, bound := ?_, places := hplaces,
    due := fun i hdue' => ?_, dueOf := ?_, wakers := ?_, notices := hnotices }
  · have hfirst : s.link idx = first s.pushed := by
      rw [State.link, hlink]
      exact h.headIndex_eq
    have hstack := h.stack
    rw [← hfirst] at hstack
    exact hstack
  · exact List.forall_mem_cons.mpr ⟨hw.idx, h.bound⟩
  · rw [hdue] at hdue'
    split at hdue'
    case isTrue heq => rw [heq]; exact hlink ▸ hawake
    case isFalse => exact h.due i hdue'
  · refine List.forall_mem_cons.mpr ⟨by rw [hdue, if_pos rfl], fun i hi' => ?_⟩
    rw [hdue]
    split
    · rfl
    · exact h.dueOf i hi'
  · refine forall_mem_set ⟨hw.idx, ?_⟩ fun j w₂ hj _ => ?_
    · split <;> trivial
    · exact h.wakers w₂ (List.mem_of_getElem? hj)

theorem Inv.wakePushing (h : Inv s) (hk : s.wakers[k]? = some ⟨idx, .pushing head⟩) :
    Inv (s.wakePushing k ⟨idx, .pushing head⟩ weak head) := by
  by_cases hc : s.head = head ∧ !weak
  · obtain ⟨rfl, hweak⟩ := hc
    obtain rfl : weak = false := by simpa using hweak
    exact h.push hk
  · rw [State.wakePushing, if_neg hc]
    exact h.setStage hk rfl rfl h.headIndex_ne

/-- A thread goes on with `wake_by_ref`. -/
theorem Inv.stepWaker (h : Inv s) (hstep : s.stepWaker k weak = some s') : Inv s' := by
  unfold State.stepWaker at hstep
  cases hk : s.wakers[k]? with
  | none => rw [hk] at hstep; cases hstep
  | some w =>
    obtain ⟨idx, stage⟩ := w
    have hnext : s.next[idx]? = some (s.nextOf idx) := by
      have hlt : idx < s.next.length := (h.wakers _ (List.mem_of_getElem? hk)).idx
      rw [State.nextOf, List.getD_eq_getElem?_getD, List.getElem?_eq_getElem hlt]
      rfl
    rw [hk] at hstep
    simp only [hnext] at hstep
    cases stage with
    | called => cases hstep; exact h.setStage hk rfl rfl trivial
    | seen next => cases hstep; exact h.wakeSeen hk
    | linking head => cases hstep; exact h.wakeLinking hk
    | pushing head => cases hstep; exact h.wakePushing hk
    | relinking head => cases hstep; exact h.wakeRelinking hk
    | notifying => cases hstep; exact h.notify hk
    | returned => cases hstep

end

/-! ## The parent -/

theorem Inv.setParent (h : Inv s) {p : Parent} (hp : s.Remaining p)
    (hi : ∀ nextIndex, p ≠ .iterating nextIndex) : Inv { s with parent := p } :=
  { h with
    yielded := fun i heq => absurd heq (hi i)
    remaining := hp }

/-- The parent finds no task and asks for a notification. -/
theorem Inv.takeNone (h : Inv s) {countdown : UInt32} (hp : s.pushed = []) (hw : s.waiting = []) :
    Inv { s with
      head := pack countdown.toNat empty.toNat, parent := .idle, asked := countdown.toNat } :=
  { h with
    asked := countdown.toNat_lt
    head := by
      show pack countdown.toNat empty.toNat = pack (countdown.toNat - s.pushed.length) _
      rw [hp, first_nil]
      rfl
    yielded := nofun
    remaining := hw }

/-- The parent takes the stack. -/
theorem Inv.takeAll (h : Inv s) {p : Parent} {head : UInt64} (hhead : head = empty.toUInt64)
    (hw : s.waiting = [])
    (hp : ({ s with taken := s.pushed, slept := [] } : State).Remaining p) :
    Inv { s with
      head, parent := p, pushed := [], asked := 0, taken := s.pushed, slept := []
      yielded := [] } := by
  refine { h with
    asked := by show 0 < 2 ^ 32; omega, head := ?_, stack := first_nil, prefixed := List.nil_prefix,
    nodup := h.nodup_pushed, yielded := fun _ _ => rfl,
    remaining := hp, bound := ?_, places := ?_, dueOf := ?_ }
  · show head = pack (0 - 0) (first [])
    rw [hhead, first_nil, Nat.sub_self, empty_eq_pack]
  · exact fun i hi => h.bound i (List.mem_append_left _ hi)
  · intro i hi
    have hplaces := h.places i hi
    rw [State.places, hw, List.append_nil] at hplaces
    exact hplaces
  · exact fun i hi => h.dueOf i (List.mem_append_left _ hi)

theorem Inv.takeHead (h : Inv s) {weak discard : Bool} {countdown : UInt32} {head : UInt64}
    (hw : s.waiting = []) : Inv (s.takeHead weak countdown discard head) := by
  unfold State.takeHead
  by_cases hc : s.head = head ∧ !weak
  · obtain ⟨rfl, hweak⟩ := hc
    simp only [hweak, and_self, if_true, land_indexMask_eq_empty]
    have hfirst := h.headIndex_eq
    by_cases hempty : headIndex s.head = empty
    · simp only [hempty, if_true, request_eq_pack]
      refine h.takeNone (h.stack.nil_iff.mpr ?_) hw
      rw [← hfirst, hempty]
    · simp only [hempty, if_false]
      refine h.takeAll rfl hw ?_
      have hl : Linked s.link empty.toNat (headIndex s.head).toNat s.pushed := by
        rw [hfirst]
        exact h.stack
      cases discard with
      | false => exact hl
      | true => exact hl
  · simp only [hc, if_false]
    exact h.setParent hw nofun

variable {nextIndex : UInt32}

/-- The parent has put a task to sleep and goes on to the next. -/
theorem Inv.sleep (h : Inv s) {index : UInt32} {rest yielded : List Nat} {p : Parent}
    (hw : s.waiting = index.toNat :: rest) (hrest : Linked s.link empty.toNat nextIndex.toNat rest)
    (hp : p = .iterating nextIndex ∨ p = .dropping nextIndex)
    (hy : ∀ i, p = .iterating i → yielded = (s.slept ++ [index.toNat]).filter (· < s.taskCount)) :
    Inv { s.sleep index with parent := p, yielded } := by
  have hj : index.toNat < s.next.length := h.bound _ (by simp [hw])
  -- The task is at one place, and it is waiting: so it is on no stack and with no thread.
  have hone := h.places_le hj
  rw [State.places, hw, List.count_append, List.count_cons_self] at hone
  have hpushed : index.toNat ∉ s.pushed := List.count_eq_zero.mp (by omega)
  have hnot : index.toNat ∉ rest := List.count_eq_zero.mp (by omega)
  have hinserting : s.inserting index.toNat = 0 := by omega
  generalize hs : ({ s.sleep index with parent := p, yielded } : State) = s'
  have hlen : s'.next.length = s.next.length := by rw [← hs]; exact List.length_set
  have hnextOf := nextOf_set (t := s') hj (by rw [← hs]; rfl)
  have hsame {i : Nat} (hi : i ≠ index.toNat) : s'.nextOf i = s.nextOf i := by
    rw [hnextOf, if_neg hi]
  have hlink {i : Nat} (hi : i ≠ index.toNat) : s'.link i = s.link i :=
    congrArg UInt32.toNat (hsame hi)
  have hdue := isDue_set (t := s') (h.dueLength ▸ hj) (by rw [← hs]; rfl)
  have hwaiting : s'.waiting = rest := by
    have htail : s'.waiting = s.waiting.drop 1 := by
      rw [← hs, State.waiting, State.waiting, List.drop_drop]
      exact congrArg (s.taken.drop ·) List.length_append
    rw [htail, hw, List.drop_one, List.tail_cons]
  have hpre : s.slept ++ [index.toNat] <+: s.taken := by
    obtain ⟨t, ht⟩ := h.prefixed
    have hdrop : s.waiting = t := by rw [State.waiting, ← ht, List.drop_left]
    exact ⟨rest, by rw [← ht, ← hdrop, hw, List.append_assoc, List.singleton_append]⟩
  -- The links of the others are unchanged, so the rest is still reached from `nextIndex`.
  have hlinked : Linked s'.link empty.toNat nextIndex.toNat s'.waiting := by
    rw [hwaiting]
    exact hrest.congr fun i hi => hlink fun heq => hnot (heq ▸ hi)
  have hremaining : s'.Remaining p := by
    obtain rfl | rfl := hp
    · exact hlinked
    · exact hlinked
  have hmem {i : Nat} (hi : i ∈ s.pushed ++ s'.waiting) :
      i ≠ index.toNat ∧ i ∈ s.pushed ++ s.waiting := by
    rw [hwaiting] at hi
    rw [hw]
    obtain hi | hi := List.mem_append.mp hi
    · exact ⟨fun heq => hpushed (heq ▸ hi), List.mem_append_left _ hi⟩
    · exact ⟨fun heq => hnot (heq ▸ hi), List.mem_append_right _ (List.mem_cons_of_mem _ hi)⟩
  have hplaces : ∀ i < s'.next.length, s'.places i = if s'.nextOf i = sleeping then 0 else 1 := by
    intro i hi
    have hlists : s'.places i = s.inserting i + (s.pushed ++ s'.waiting).count i := by
      rw [← hs]
      rfl
    rw [hlists, hwaiting, List.count_append, hnextOf]
    by_cases heq : i = index.toNat
    · subst heq
      rw [if_pos rfl, if_pos rfl, hinserting, List.count_eq_zero.mpr hpushed,
        List.count_eq_zero.mpr hnot]
    · rw [if_neg heq, ← h.places i (hlen ▸ hi), State.places, hw, List.count_append,
        List.count_cons_of_ne (Ne.symm heq)]
  -- A thread that relies on the link of its task is not a thread of this task.
  have hwakers : ∀ w ∈ s.wakers, WakerOk s'.next w := by
    refine fun w hw' => (h.wakers w hw').congr hlen.ge fun hi => hsame fun heq => ?_
    have := List.countP_eq_zero.mp hinserting w hw'
    simp [hi, heq] at this
  subst hs
  refine { h with
    size := hlen.trans_le h.size, dueLength := ?_, stack := ?_, prefixed := hpre, yielded := hy,
    remaining := hremaining, bound := ?_, places := hplaces, due := ?_, dueOf := ?_,
    wakers := hwakers }
  · exact (List.length_set.trans h.dueLength).trans hlen.symm
  · exact h.stack.congr fun i hi => hlink fun heq => hpushed (heq ▸ hi)
  · exact fun i hi => (h.bound i (hmem hi).2).trans_eq hlen.symm
  · intro i hi
    rw [hdue] at hi
    split at hi
    case isTrue => cases hi
    case isFalse hne => rw [hsame hne]; exact h.due i hi
  · intro i hi
    rw [hdue, if_neg (hmem hi).1]
    exact h.dueOf i (hmem hi).2

theorem Inv.exists_waiting (h : Inv s) (hne : nextIndex ≠ empty)
    (hl : Linked s.link empty.toNat nextIndex.toNat s.waiting) :
    s.next[nextIndex.toNat]? = some (s.nextOf nextIndex.toNat) ∧
      ∃ rest, s.waiting = nextIndex.toNat :: rest ∧
        Linked s.link empty.toNat (s.nextOf nextIndex.toNat).toNat rest := by
  obtain ⟨rest, hw, hrest⟩ := hl.exists_cons fun heq => hne (UInt32.toNat_inj.mp heq)
  have hlt : nextIndex.toNat < s.next.length := h.bound _ (by simp [hw])
  refine ⟨?_, rest, hw, hrest⟩
  rw [State.nextOf, List.getD_eq_getElem?_getD, List.getElem?_eq_getElem hlt]
  rfl

theorem Inv.iterate (h : Inv s) (hp : s.parent = .iterating nextIndex)
    (hl : Linked s.link empty.toNat nextIndex.toNat s.waiting) : Inv (s.iterate nextIndex) := by
  unfold State.iterate
  split
  case isTrue heq => exact h.setParent (hl.nil_iff.mpr (heq ▸ rfl)) nofun
  case isFalse hne =>
    obtain ⟨hnext, rest, hw, hrest⟩ := h.exists_waiting hne hl
    rw [hnext]
    refine h.sleep hw hrest (.inl rfl) fun _ _ => ?_
    rw [List.filter_append, ← h.yielded nextIndex hp]
    split
    case isTrue hlt => simp [hlt]
    case isFalse hge => simp [hge]

theorem Inv.dropNext (h : Inv s)
    (hl : Linked s.link empty.toNat nextIndex.toNat s.waiting) : Inv (s.dropNext nextIndex) := by
  unfold State.dropNext
  split
  case isTrue heq => exact h.setParent (hl.nil_iff.mpr (heq ▸ rfl)) nofun
  case isFalse hne =>
    obtain ⟨hnext, rest, hw, hrest⟩ := h.exists_waiting hne hl
    rw [hnext]
    exact h.setParent (p := .clearing nextIndex _) ⟨rest, hw, hrest⟩ nofun

/-- The parent goes on. -/
theorem Inv.stepParent (h : Inv s) {weak : Bool} (hstep : s.stepParent weak = some s') :
    Inv s' := by
  have hp := h.remaining
  unfold State.stepParent at hstep
  cases hparent : s.parent with
  | idle => rw [hparent] at hstep; cases hstep
  | entered countdown discard =>
    rw [hparent] at hstep hp
    cases hstep
    exact h.setParent (p := .taking _ _ _) hp nofun
  | taking countdown discard head =>
    rw [hparent] at hstep hp
    cases hstep
    exact h.takeHead hp
  | iterating nextIndex =>
    rw [hparent] at hstep hp
    cases hstep
    exact h.iterate hparent hp
  | dropping nextIndex =>
    rw [hparent] at hstep hp
    cases hstep
    exact h.dropNext hp
  | clearing index nextIndex =>
    rw [hparent] at hstep hp
    cases hstep
    obtain ⟨rest, hw, hrest⟩ := hp
    exact h.sleep hw hrest (.inr rfl) nofun

/-- New tasks are asleep. -/
theorem Inv.resizeTo (h : Inv s) {len : Nat} (hidle : s.parent = .idle) :
    Safe (s.resizeTo len) := by
  unfold State.resizeTo
  split
  case isFalse => exact .inr (.inr rfl)
  case isTrue hle =>
    refine .inl ?_
    generalize hs : ({ s with
      taskCount := len
      next := s.next ++ List.replicate (len - s.next.length) sleeping
      due := s.due ++ List.replicate (len - s.next.length) false } : State) = s'
    have hlen : s'.next.length = max s.next.length len := by
      rw [← hs]
      show (s.next ++ List.replicate (len - s.next.length) sleeping).length = _
      rw [List.length_append, List.length_replicate]
      omega
    -- Nobody can tell a task that is not there from one that is asleep.
    have hnextOf (i : Nat) : s'.nextOf i = s.nextOf i := by
      rw [← hs]
      exact getD_append_replicate
    have hdue (i : Nat) : s'.isDue i = s.isDue i := by
      rw [← hs]
      exact getD_append_replicate
    have hlink (i : Nat) : s'.link i = s.link i := congrArg UInt32.toNat (hnextOf i)
    have hsize := h.size
    subst hs
    refine { h with
      size := by omega, dueLength := ?_, stack := h.stack.congr fun i _ => hlink i,
      yielded := fun i heq => by cases hidle.symm.trans heq
      remaining := Remaining.congr h.remaining rfl fun i _ => hlink i, bound := ?_, places := ?_,
      due := ?_, dueOf := ?_, wakers := ?_ }
    · show (s.due ++ _).length = (s.next ++ _).length
      rw [List.length_append, List.length_append, h.dueLength, List.length_replicate,
        List.length_replicate]
    · exact fun i hi => (h.bound i hi).trans_le (by omega)
    · intro i _
      rw [hnextOf]
      show s.places i = _
      by_cases hi : i < s.next.length
      · exact h.places i hi
      · have hsleep : s.nextOf i = sleeping := List.getD_eq_default _ _ (by omega)
        rw [h.places_eq_zero hi, if_pos hsleep]
    · intro i hi
      rw [hdue] at hi
      rw [hnextOf]
      exact h.due i hi
    · intro i hi
      rw [hdue]
      exact h.dueOf i hi
    · exact fun w hw => (h.wakers w hw).congr (by omega) fun _ => hnextOf _

/-! ## Whole runs -/

/-- A thread calls `wake_by_ref`. -/
theorem Inv.call (h : Inv s) {idx : Nat} (hidx : idx < s.next.length) :
    Inv { s with wakers := s.wakers ++ [⟨idx, .called⟩] } := by
  generalize hs : ({ s with wakers := s.wakers ++ [⟨idx, .called⟩] } : State) = s'
  have hplaces (i : Nat) : s'.places i = s.places i := by
    rw [State.places, State.places, State.inserting, ← hs]
    show (s.wakers ++ [Waker.mk idx .called]).countP _ + _ = _
    rw [List.countP_append]
    rfl
  have hnotices : s'.wakers.countP Waker.notifies = s.wakers.countP Waker.notifies := by
    rw [← hs]
    exact List.countP_append
  subst hs
  refine { h with places := fun i hi => ?_, wakers := ?_, notices := ?_ }
  · rw [hplaces]
    exact h.places i hi
  · intro w hw
    obtain hw | hw := List.mem_append.mp hw
    · exact h.wakers w hw
    · obtain rfl := List.mem_singleton.mp hw
      exact ⟨hidx, trivial⟩
  · rw [hnotices]
    exact h.notices

/-- Every access keeps the invariant, unless an argument is refused. -/
theorem Inv.step (h : Inv s) {e : Event} (hstep : s.step e = some s') : Safe s' := by
  have hp := h.remaining
  unfold State.step at hstep
  rw [if_pos h.fault] at hstep
  cases e with
  | wake idx =>
    obtain ⟨hidx, hs⟩ := Option.ite_none_right_eq_some.mp hstep
    cases hs
    exact .inl (h.call hidx)
  | waker k weak => exact .inl (h.stepWaker hstep)
  -- A count that does not fit the countdown is refused with a panic.
  | take notifyCount =>
    obtain ⟨hidle, hs⟩ := Option.ite_none_right_eq_some.mp hstep
    rw [hidle] at hp
    split at hs
    · cases hs
      exact .inl (h.setParent (p := .entered _ _) hp nofun)
    · cases hs
      exact .inr (.inl rfl)
  | discard =>
    obtain ⟨hidle, hs⟩ := Option.ite_none_right_eq_some.mp hstep
    rw [hidle] at hp
    cases hs
    split
    · exact .inl (h.setParent (p := .entered _ _) hp nofun)
    · exact .inl h
  | parent weak => exact .inl (h.stepParent hstep)
  | dropIterator =>
    cases hparent : s.parent with
    | iterating nextIndex =>
      simp only [hparent] at hstep hp
      cases hstep
      exact .inl (h.setParent (p := .dropping _) hp nofun)
    | _ => simp only [hparent] at hstep; cases hstep
  | resize len =>
    obtain ⟨hidle, hs⟩ := Option.ite_none_right_eq_some.mp hstep
    cases hs
    exact h.resizeTo hidle

end SiestaVR.TaskSet
