import SiestaVR.Lib.Runs
import SiestaVR.Emu.Link

/-!
# The emulated link is a lossy FIFO that never stalls

Packets leave the queue at its front only, and are sent on or dropped there, so what is
sent on is a subsequence of what was accepted (`Flowing.order`).

That the link does not stall rests on the mark `nextFlushScheduled`. Flushes may be
outstanding without being marked, but never the other way round: a flush is marked when it
is scheduled, and any flush that is run clears the mark before it may set it again. And a
packet waits in the queue only under a mark, since a flush stops before the end of the queue
only to schedule the next one. Hence a waiting packet has a flush to wait for, whichever of
the outstanding flushes come first.
-/

namespace SiestaVR.Emu

open SiestaVR.Lib

/-! ## One event -/

/-- The loop of `drain` sends on or drops packets at the front, none before it is eligible,
and stops early only with the time of the next flush. -/
theorem drainLoop_spec {now : Nat} {e : NetworkPatternEmulator} {q : List QueuedPacket}
    {d : Drained} (h : drainLoop now e q = some d) :
    (d.sent ++ d.queue).Sublist q ∧ (∀ p ∈ d.sent, p.bandwidthEligibleAt ≤ now) ∧
      (d.queue ≠ [] → d.wakeAt.isSome) := by
  induction q generalizing e d with
  | nil =>
    cases h
    exact ⟨.slnil, by simp, by simp⟩
  | cons front rest ih =>
    unfold drainLoop at h
    split at h
    · cases h
      exact ⟨.refl _, by simp, by simp⟩
    · rename_i heligible
      obtain ⟨⟨outcome, e'⟩, -, h⟩ := Option.bind_eq_some_iff.1 h
      cases outcome with
      | sent =>
        obtain ⟨d', hd', rfl⟩ := Option.map_eq_some_iff.1 h
        obtain ⟨hsub, hsent, hwake⟩ := ih hd'
        exact ⟨hsub.cons_cons front, List.forall_mem_cons.2 ⟨Nat.le_of_not_lt heligible, hsent⟩,
          hwake⟩
      | wait retryIn =>
        cases h
        exact ⟨.refl _, by simp, by simp⟩
      | exceedsLimit =>
        obtain ⟨hsub, hsent, hwake⟩ := ih h
        exact ⟨hsub.cons front, hsent, hwake⟩

/-- A packet is dropped, or goes to the end of a queue that is not full. -/
theorem QueueMechanism.enqueue_spec {q q' : QueueMechanism} {packet : MpduPacket}
    {draws : Nat → ℚ} {now : Nat} {o : EnqueueOutcome}
    (h : q.enqueue packet draws now = some (o, q')) :
    q'.maxQueueSize = q.maxQueueSize ∧ q'.nextFlushScheduled = q.nextFlushScheduled ∧
      ((o = .dropped ∧ q'.queue = q.queue) ∨
        (o = .queued ∧ q.queue.length < q.maxQueueSize ∧
          ∃ entry, q'.queue = q.queue ++ [entry])) := by
  obtain ⟨⟨outcome, e⟩, -, h⟩ := Option.bind_eq_some_iff.1 h
  cases outcome with
  | drop =>
    cases h
    exact ⟨rfl, rfl, .inl ⟨rfl, rfl⟩⟩
  | delay jitterExtra =>
    simp only at h
    split at h
    · cases h
      exact ⟨rfl, rfl, .inl ⟨rfl, rfl⟩⟩
    · rename_i hroom
      cases h
      exact ⟨rfl, rfl, .inr ⟨rfl, Nat.lt_of_not_le hroom, _, rfl⟩⟩

/-! ## The invariant -/

/-- What holds between two events of the link. -/
structure Flowing (size : Nat) (l : EmulatedLink) : Prop where
  order : (l.emitted.map Prod.snd ++ l.queueMechanism.queue).Sublist l.accepted
  eligible : ∀ x ∈ l.emitted, x.2.bandwidthEligibleAt ≤ x.1
  size_eq : l.queueMechanism.maxQueueSize = size
  bounded : l.queueMechanism.queue.length ≤ size
  /-- A packet waits only under a mark. -/
  marked : l.queueMechanism.queue ≠ [] → l.queueMechanism.nextFlushScheduled.isSome
  /-- A mark stands for an outstanding flush. -/
  scheduled : l.queueMechanism.nextFlushScheduled.isSome → 0 < l.agenda.outstanding .flushQueue

variable {size : Nat} {l l' : EmulatedLink}

theorem Flowing.start (e : NetworkPatternEmulator) (flushAt : Nat) :
    Flowing size (.start size e flushAt) where
  order := .slnil
  eligible := by simp [EmulatedLink.start]
  size_eq := rfl
  bounded := Nat.zero_le _
  marked h := absurd rfl h
  scheduled h := absurd h (by simp [EmulatedLink.start])

/-- Scheduling a flush marks it, so nothing is asked of the mark before. -/
theorem Flowing.scheduleDrainAt (wakeAt : Nat)
    (order : (l.emitted.map Prod.snd ++ l.queueMechanism.queue).Sublist l.accepted)
    (eligible : ∀ x ∈ l.emitted, x.2.bandwidthEligibleAt ≤ x.1)
    (size_eq : l.queueMechanism.maxQueueSize = size)
    (bounded : l.queueMechanism.queue.length ≤ size) : Flowing size (l.scheduleDrainAt wakeAt) where
  order := order
  eligible := eligible
  size_eq := size_eq
  bounded := bounded
  marked _ := rfl
  scheduled _ := by
    rw [EmulatedLink.scheduleDrainAt, Agenda.outstanding_schedule, if_pos rfl]
    exact Nat.succ_pos _

/-- **Arrival**: whatever is marked is still outstanding, since no flush was run. -/
theorem Flowing.input {packet : MpduPacket} {draws : Nat → ℚ} (h : Flowing size l)
    (hl' : l.input packet draws = some l') : Flowing size l' := by
  obtain ⟨⟨outcome, q⟩, henqueue, hl'⟩ := Option.bind_eq_some_iff.1 hl'
  obtain ⟨hsize, hmark, hqueue⟩ := QueueMechanism.enqueue_spec henqueue
  rcases hqueue with ⟨rfl, hqueue⟩ | ⟨rfl, hroom, entry, hqueue⟩
  · cases hl'
    exact ⟨hqueue ▸ h.order, h.eligible, hsize.trans h.size_eq, hqueue ▸ h.bounded,
      hmark ▸ hqueue ▸ h.marked, hmark ▸ h.scheduled⟩
  · have horder : (l.emitted.map Prod.snd ++ q.queue).Sublist
        (l.accepted ++ q.queue.getLast?.toList) := by
      rw [hqueue, List.getLast?_concat, ← List.append_assoc]
      exact h.order.append (.refl _)
    have hbounded : q.queue.length ≤ size := by
      rw [hqueue, List.length_append, ← h.size_eq]
      exact hroom
    simp only at hl'
    split at hl'
    · cases hl'
      exact .scheduleDrainAt _ horder h.eligible (hsize.trans h.size_eq) hbounded
    · rename_i hmarked
      cases hl'
      refine ⟨horder, h.eligible, hsize.trans h.size_eq, hbounded, fun _ => ?_, hmark ▸ h.scheduled⟩
      exact Option.isSome_iff_ne_none.2 (by simpa using hmarked)

/-- **Flush**: whatever was marked, only what this flush schedules is marked after it. -/
theorem Flowing.drain (h : Flowing size l) (a : Agenda LinkTask)
    (hl' : { l with agenda := a }.drain = some l') : Flowing size l' := by
  obtain ⟨d, hloop, hl'⟩ := Option.bind_eq_some_iff.1 hl'
  obtain ⟨hsub, hsent, hwake⟩ := drainLoop_spec hloop
  have horder : ((l.emitted ++ d.sent.map (a.now, ·)).map Prod.snd ++ d.queue).Sublist
      l.accepted := by
    have hmap : (d.sent.map (a.now, ·)).map Prod.snd = d.sent := by
      rw [List.map_map]
      exact List.map_id _
    rw [List.map_append, hmap, List.append_assoc]
    exact ((List.Sublist.refl _).append hsub).trans h.order
  have heligible : ∀ x ∈ l.emitted ++ d.sent.map (a.now, ·), x.2.bandwidthEligibleAt ≤ x.1 := by
    intro x hx
    rcases List.mem_append.1 hx with hx | hx
    · exact h.eligible x hx
    · obtain ⟨p, hp, rfl⟩ := List.mem_map.1 hx
      exact hsent p hp
  have hbounded : d.queue.length ≤ size :=
    ((List.sublist_append_right _ _).trans hsub).length_le.trans h.bounded
  -- A flush that leaves packets behind knows when the next one is to come.
  cases hwakeAt : d.wakeAt with
  | some wakeAt =>
    simp only [hwakeAt, Option.some.injEq] at hl'
    subst hl'
    exact .scheduleDrainAt wakeAt horder heligible h.size_eq hbounded
  | none =>
    simp only [hwakeAt, Option.some.injEq] at hl'
    subst hl'
    refine ⟨horder, heligible, h.size_eq, hbounded, fun hne => ?_, fun hmark => ?_⟩
    · exact absurd (hwake hne) (by simp [hwakeAt])
    · exact absurd hmark (by simp)

/-- **Step**: every event keeps the invariant. -/
theorem Flowing.step {e : LinkEvent} (h : Flowing size l) (hl' : l.step e = some l') :
    Flowing size l' := by
  cases e with
  | input now packet draws =>
    obtain ⟨a, ha, hl'⟩ := Option.bind_eq_some_iff.1 hl'
    obtain ⟨-, rfl⟩ := Agenda.advance_eq_some.1 ha
    have hmoved : Flowing size { l with agenda := { l.agenda with now := now } } :=
      ⟨h.order, h.eligible, h.size_eq, h.bounded, h.marked, h.scheduled⟩
    exact hmoved.input hl'
  | flushQueue due =>
    obtain ⟨a, -, hl'⟩ := Option.bind_eq_some_iff.1 hl'
    exact h.drain a hl'

/-- **The emulated link is a lossy FIFO that never stalls.** In every run of arrivals and
flushes, with one flush scheduled by the driver: the packets sent on are a subsequence of
those accepted, none is sent on before it is eligible, the queue keeps to its size, and while
a packet waits a flush is outstanding. -/
theorem emulated_link_fifo {e : NetworkPatternEmulator} {flushAt : Nat} {events : List LinkEvent}
    (h : Run EmulatedLink.step (fun _ _ => True) (.start size e flushAt) events l) :
    (l.emitted.map Prod.snd).Sublist l.accepted ∧
      (∀ x ∈ l.emitted, x.2.bandwidthEligibleAt ≤ x.1) ∧
      l.queueMechanism.queue.length ≤ size ∧
      (l.queueMechanism.queue ≠ [] → 0 < l.agenda.outstanding .flushQueue) := by
  have hflowing : Flowing size l :=
    Run.state_invariant (P := Flowing size) (.start e flushAt) (fun _ _ _ hp _ hs => hp.step hs) h
  exact ⟨(List.sublist_append_left _ _).trans hflowing.order, hflowing.eligible, hflowing.bounded,
    fun hne => hflowing.scheduled (hflowing.marked hne)⟩

/-- A link for two packets behind a cap of 64 kbit/s. -/
def narrowLink : EmulatedLink :=
  .start 2 ⟨[NetworkPattern.newBandwidth 64000 64000 0 10000000000].filterMap id⟩ 1000000000

/-- Three packets of 1000 bytes at once, the third too many; the flush they schedule finds
no tokens and schedules the next one, which sends the first packet on. -/
def burst : List LinkEvent :=
  [.input 0 { packetId := 1, lengthPacketBits := 8000 } 0,
    .input 0 { packetId := 2, lengthPacketBits := 8000 } 0,
    .input 0 { packetId := 3, lengthPacketBits := 8000 } 0,
    .flushQueue 1, .flushQueue 125000000]

theorem emulated_link_fifo_burst : ∃ l,
    Run EmulatedLink.step (fun _ _ => True) narrowLink burst l ∧
      l.emitted.map (·.2.packet.packetId) = [1] ∧ l.queueMechanism.queue.length = 1 ∧
      0 < l.agenda.outstanding .flushQueue := by
  obtain ⟨l, hrun, hstate⟩ := exists_run_of_map (show
    (runs EmulatedLink.step narrowLink burst).map
      (fun l => (l.emitted.map (·.2.packet.packetId), l.queueMechanism.queue.length)) =
        some ([1], 1) by decide +kernel)
  simp only [Prod.mk.injEq] at hstate
  obtain ⟨-, -, -, houtstanding⟩ := emulated_link_fifo hrun
  refine ⟨l, hrun, hstate.1, hstate.2, houtstanding ?_⟩
  exact List.ne_nil_of_length_pos (by rw [hstate.2]; exact Nat.one_pos)

end SiestaVR.Emu
