import SiestaVR.Mac.Order
import SiestaVR.Mac.ServiceTime
import SiestaVR.Mac.VirtualCollision

/-!
# Retries of the packet at the head of a queue (lib/models_mm1k.rs:2143–2160)

A contention function fails when it loses a virtual collision, takes part in a
collision, or wins and has nothing left to transmit. `on_failure` counts the
failures and reports the one past `MAX_RETRIES_MAC`, at which the packet at the
head of the queue is to be dropped. None of its three callers looks at the
report: the counter starts over and the packet stays.

`headFailures` is what an observer of a run counts: the failures of a contention
function since its last success and since the packet now at the head of its queue
got there. The retry counter keeps up with it for as long as it is not reset.
-/

namespace SiestaVR.Mac

open Lib

/-! ## Failures -/

/-- The A-MPDU for `first` on `link` has no packet left after the loss draws, or no
airtime. -/
def BuildsEmpty (cfg : MacConfig) (m : QueueModule) (first : MpduPacket) (link : Nat) : Prop :=
  sentOf cfg m first link = [] ∨ aggregatedAirtime cfg m first link = some 0

instance (cfg : MacConfig) (m : QueueModule) (first : MpduPacket) (link : Nat) :
    Decidable (BuildsEmpty cfg m first link) :=
  inferInstanceAs (Decidable (_ ∨ _))

/-- The access attempt of `k` fails in an iteration of the link loop: it loses a
virtual collision, it is in a collision, or its A-MPDU is empty. -/
def Fails (cfg : MacConfig) (order : HashOrder) (s : Sim) (x : Nat × List MacKey) (k : MacKey) :
    Prop :=
  k ∈ x.2 ∧ (k ∉ contendersOf order s x ∨ 2 ≤ (contendersOf order s x).length ∨
    ∃ first ∈ firstPacket cfg (resolveVirtualCollision order x.1 s.mac x.2).2 k,
      BuildsEmpty cfg (resolveVirtualCollision order x.1 s.mac x.2).2 first x.1)

instance (cfg : MacConfig) (order : HashOrder) (s : Sim) (x : Nat × List MacKey) (k : MacKey) :
    Decidable (Fails cfg order s x k) :=
  inferInstanceAs (Decidable (_ ∧ (_ ∨ _ ∨ ∃ first ∈ firstPacket _ _ _, _)))

/-- The failures of `k` in the link loop. -/
def loopFailures (cfg : MacConfig) (order : HashOrder) (k : MacKey) :
    List (Nat × List MacKey) → Sim → Nat
  | [], _ => 0
  | x :: xs, s =>
    (if Fails cfg order s x k then 1 else 0) +
      match serveLink cfg order s x with
      | some s' => loopFailures cfg order k xs s'
      | none => 0

/-- The failures of `k` in an event: only slot ticks have any. -/
def failures (cfg : MacConfig) (s : Sim) (k : MacKey) : Event → Nat
  | .tick t order =>
    loopFailures cfg order k (tickLinks cfg order (s.atTick t)) (beginTick cfg order (s.atTick t))
  | _ => 0

/-- The transmission of `k` is completed. -/
def succeeds (s : Sim) (k : MacKey) : Event → Bool
  | .completion i => (s.completions[i]?).any fun c => c.2.macKey = k
  | _ => false

/-- The packet at the head of a queue. -/
def headOf (s : Sim) (k : MacKey) : Option (Int × Int × Nat) :=
  (s.mac.perFlowQueues k).head?.map MpduPacket.triple

/-- The observer of the heads: it starts over when another packet gets to the head
of a queue and when its contention function succeeds. -/
def watchHeads (cfg : MacConfig) (n : MacKey → Nat) (s : Sim) (e : Event) (s' : Sim) :
    MacKey → Nat := fun k =>
  if headOf s' k = none ∨ headOf s' k ≠ headOf s k ∨ succeeds s k e then 0
  else n k + failures cfg s k e

/-- The consecutive failures of each contention function with the packet that is at
the head of its queue after the events. -/
def headFailures (cfg : MacConfig) (es : List Event) : MacKey → Nat :=
  observe (step cfg) (watchHeads cfg) (fun _ => 0) (Sim.new cfg) es

/-- No contention function that has a packet fails in the tick when it has used up
its retries. -/
def WithinRetries (cfg : MacConfig) (s : Sim) : Event → Prop
  | .tick t order => TickAll cfg order (fun s x => ∀ k ∈ x.2, Fails cfg order s x k →
      s.mac.perFlowQueues k ≠ [] → (s.mac.dcfValues k).retryCount < maxRetriesMac) (s.atTick t)
  | _ => True

instance decidableWithinRetries (cfg : MacConfig) (s : Sim) :
    ∀ e, Decidable (WithinRetries cfg s e)
  | .tick t order => inferInstanceAs (Decidable (TickAll cfg order (fun s x => ∀ k ∈ x.2,
      Fails cfg order s x k → s.mac.perFlowQueues k ≠ [] →
        (s.mac.dcfValues k).retryCount < maxRetriesMac) (s.atTick t)))
  | .input _ _ | .inputUL _ _ | .coords _ _ _ | .completion _ => .isTrue True.intro

/-! ## The retry counters through the link loop -/

section Counters

variable {cfg : MacConfig} {order : HashOrder}

theorem retryCount_onFailure {st : DcfStats} (h : st.retryCount < maxRetriesMac) :
    st.onFailure.2.retryCount = st.retryCount + 1 := by
  have hle : ¬ maxRetriesMac < st.retryCount + 1 := by omega
  rw [(failedOnce_onFailure st).retryCount, if_neg hle]

theorem retryCount_slot (st : DcfStats) (idle : Bool) (now : Nat) :
    (st.slot idle now).retryCount = st.retryCount := by
  have hunfreeze : (st.unfreeze idle now).retryCount = st.retryCount := by
    unfold DcfStats.unfreeze
    split <;> rfl
  unfold DcfStats.slot
  dsimp only
  split
  · exact hunfreeze
  · exact hunfreeze

theorem dcfValues_foldl (f : DcfStats → DcfStats) {ks : List MacKey} (hn : ks.Nodup)
    (m : QueueModule) (k : MacKey) :
    (ks.foldl (fun m k => m.dcfMut k f) m).dcfValues k
      = if k ∈ ks then f (m.dcfValues k) else m.dcfValues k := by
  induction ks generalizing m with
  | nil => rfl
  | cons j ks ih =>
    obtain ⟨hj, hn⟩ := List.nodup_cons.1 hn
    rw [List.foldl_cons, ih hn]
    by_cases hk : k = j
    · subst hk
      simp [hj, QueueModule.dcfMut]
    · simp [hk, QueueModule.dcfMut]

theorem retryCount_collideMac {ks : List MacKey} (hn : ks.Nodup) (m : QueueModule)
    (now link : Nat) (k : MacKey) :
    ((collideMac m now link ks).dcfValues k).retryCount
      = if k ∈ ks then (m.dcfValues k).onFailure.2.retryCount else (m.dcfValues k).retryCount := by
  have hwindows : ∀ m : QueueModule, (ks.foldl (fun m k =>
      updateWindowStats m (k.sta, k.link) none collisionDelay false now) m).dcfValues
        = m.dcfValues := by
    intro m
    refine foldl_view QueueModule.dcfValues (fun m k => ?_) ks m
    rfl
  have hfreeze : ∀ (m : QueueModule) (t : Nat),
      ((freezeLink m link t).dcfValues k).retryCount = (m.dcfValues k).retryCount := by
    intro m t
    unfold freezeLink
    dsimp only
    split <;> rfl
  unfold collideMac
  dsimp only
  rw [hwindows, hfreeze, dcfValues_foldl _ hn]
  split <;> rfl

/-- Resolving virtual collisions: the functions that do not contend on have failed. -/
theorem dcfValues_resolve {s : Sim} {x : Nat × List MacKey} (hn : x.2.Nodup) (k : MacKey) :
    (resolveVirtualCollision order x.1 s.mac x.2).2.dcfValues k
      = if k ∈ x.2 ∧ k ∉ contendersOf order s x then (s.mac.dcfValues k).onFailure.2
        else s.mac.dcfValues k := by
  obtain ⟨new, hperm, hres⟩ := resolve_resolved order x.1 s.mac hn
  have hmem : k ∈ contendersOf order s x ↔ k ∈ new := hperm.mem_iff
  simp only [hmem]
  exact congrFun (congrArg QueueModule.dcfValues hres.state) k

theorem contenders_nodup {s : Sim} {x : Nat × List MacKey} (hn : x.2.Nodup) :
    (contendersOf order s x).Nodup := by
  obtain ⟨new, hperm, hres⟩ := resolve_resolved order x.1 s.mac hn
  exact hperm.nodup_iff.2 hres.distinct.of_map

theorem buildsEmpty_iff {m m' : QueueModule} {first : MpduPacket} {link now airtime : Nat}
    {ampdu : AmpduPacket} (hb : buildNewAmpdu cfg m first link now = some (ampdu, airtime, m')) :
    BuildsEmpty cfg m first link ↔ ampdu.mpduPackets = [] ∨ airtime = 0 := by
  have hpackets := (buildEffect_of_build hb).packets
  have hempty : ampdu.mpduPackets = [] ↔ sentOf cfg m first link = [] := by
    have hlen : ampdu.mpduPackets.length = (sentOf cfg m first link).length := by
      simpa using congrArg List.length hpackets
    rw [← List.length_eq_zero_iff, hlen, List.length_eq_zero_iff]
  rw [BuildsEmpty, hempty]
  by_cases hagg : aggregated cfg m first link = []
  · have hsent : sentOf cfg m first link = [] := by
      rw [sentOf, hagg]
      rfl
    simp [hsent]
  · rw [(build_times hb hagg).1, Option.some.injEq]

theorem Thins.ne_nil {q q' : MacKey → List MpduPacket} (h : Thins q q') {k : MacKey}
    (hk : q' k ≠ []) : q k ≠ [] := by
  obtain ⟨p, hp⟩ := List.exists_mem_of_ne_nil _ hk
  intro hnil
  have hmem : p.triple ∈ toDest p.staDestId (q' k) :=
    List.mem_map.2 ⟨p, List.mem_filter.2 ⟨hp, by simp⟩, rfl⟩
  have := (h k p.staDestId).subset hmem
  rw [hnil] at this
  cases this

theorem dcfValues_skipTransmission (s : Sim) (link : Nat) (winner : MacKey) :
    (skipTransmission s link winner).mac.dcfValues
      = Function.update s.mac.dcfValues winner (s.mac.dcfValues winner).onFailure.2 := by
  unfold skipTransmission scheduleTick
  split <;> rfl

theorem retryCount_startTransmission (s : Sim) (link : Nat) (winner : MacKey)
    (ampdu : AmpduPacket) (airtime : Nat) (k : MacKey) :
    ((startTransmission s link winner ampdu airtime).mac.dcfValues k).retryCount
      = (s.mac.dcfValues k).retryCount := by
  unfold startTransmission freezeLink
  dsimp only
  split <;> rfl

section Iteration

variable {s s' : Sim} {x : Nat × List MacKey} {k : MacKey}

/-- After virtual collisions are resolved, the contenders that fail are counted. -/
theorem Served.retryCount {m : QueueModule} (hn : (contendersOf order s x).Nodup)
    (hsub : ∀ j ∈ contendersOf order s x, j ∈ x.2)
    (hm : m = (resolveVirtualCollision order x.1 s.mac x.2).2)
    (h : Served cfg order s x m s') (hq : m.perFlowQueues k ≠ []) :
    (s'.mac.dcfValues k).retryCount
      = if k ∈ contendersOf order s x ∧ Fails cfg order s x k
        then (m.dcfValues k).onFailure.2.retryCount else (m.dcfValues k).retryCount := by
  cases h with
  | idle hc => simp [hc]
  | unused winner hc hf =>
    -- The winner's queue is empty, that of `k` is not.
    have hk : k ≠ winner := by
      rintro rfl
      unfold firstPacket at hf
      split at hf
      · cases hf
      · rename_i hnil
        exact hq hnil
    rw [hc]
    simp [hk, QueueModule.dcfMut]
  | collided hc =>
    have hfails : k ∈ contendersOf order s x → Fails cfg order s x k :=
      fun hk => ⟨hsub k hk, Or.inr (Or.inl hc)⟩
    refine (retryCount_collideMac hn m s.now x.1 k).trans (if_congr ?_ rfl rfl)
    exact ⟨fun hk => ⟨hk, hfails hk⟩, And.left⟩
  | skipped winner hc first hf ampdu airtime m' hb hskip =>
    have hdcf : m'.dcfValues = m.dcfValues := congrArg Radio.dcf (radio_build hb)
    have hfails : Fails cfg order s x winner := by
      refine ⟨hsub winner (by simp [hc]), Or.inr (Or.inr ⟨first, ?_, ?_⟩)⟩
      · rw [← hm]
        exact hf
      · rw [← hm]
        exact (buildsEmpty_iff hb).2 hskip
    rw [dcfValues_skipTransmission, hdcf, hc]
    by_cases hk : k = winner
    · subst hk
      simp [hfails]
    · simp [hk]
  | transmitted winner hc first hf ampdu airtime m' hb hne hair =>
    have hdcf : m'.dcfValues = m.dcfValues := congrArg Radio.dcf (radio_build hb)
    -- None of the three ways to fail applies to the winner of a transmission.
    rw [retryCount_startTransmission, hdcf, if_neg]
    rintro ⟨hk, -, hlost | hcollided | ⟨first', hfirst, hempty⟩⟩
    · exact hlost hk
    · rw [hc] at hcollided
      simp at hcollided
    · obtain rfl : k = winner := by simpa [hc] using hk
      rw [← hm, hf, Option.mem_some_iff] at hfirst
      subst hfirst
      rw [← hm, buildsEmpty_iff hb] at hempty
      exact hempty.elim hne hair

/-- **One iteration of the link loop**: the failures of a function that keeps a
packet are counted. -/
theorem serveLink_retryCount (hn : x.2.Nodup) (h : serveLink cfg order s x = some s')
    (hq : s'.mac.perFlowQueues k ≠ [])
    (hlimit : Fails cfg order s x k → s.mac.perFlowQueues k ≠ [] →
      (s.mac.dcfValues k).retryCount < maxRetriesMac) :
    (s'.mac.dcfValues k).retryCount
      = (s.mac.dcfValues k).retryCount + if Fails cfg order s x k then 1 else 0 := by
  have hq₀ : s.mac.perFlowQueues k ≠ [] := (serveLink_thins h).ne_nil hq
  have hsub := (resolve_spec order x.1 s.mac x.2).2
  have hqueues : (resolveVirtualCollision order x.1 s.mac x.2).2.perFlowQueues
      = s.mac.perFlowQueues :=
    congrArg Books.queues (books_resolveVirtualCollision s.mac order x.1 x.2)
  have hserved := (serveLink_cases h).retryCount (contenders_nodup hn) hsub rfl
    (by rwa [hqueues])
  rw [hserved, dcfValues_resolve hn]
  by_cases hk : k ∈ contendersOf order s x
  · by_cases hfails : Fails cfg order s x k
    · simp [hk, hfails, retryCount_onFailure (hlimit hfails hq₀)]
    · simp [hk, hfails]
  · by_cases hready : k ∈ x.2
    · have hfails : Fails cfg order s x k := ⟨hready, Or.inl hk⟩
      simp [hk, hready, hfails, retryCount_onFailure (hlimit hfails hq₀)]
    · have hfails : ¬ Fails cfg order s x k := fun hf => hready hf.1
      simp [hk, hready, hfails]

end Iteration

/-- **The link loop.** -/
theorem serveLinks_retryCount {xs : List (Nat × List MacKey)} {s s' : Sim} {k : MacKey}
    (hn : ∀ x ∈ xs, x.2.Nodup)
    (hlimit : LoopAll cfg order (fun s x => ∀ k ∈ x.2, Fails cfg order s x k →
      s.mac.perFlowQueues k ≠ [] → (s.mac.dcfValues k).retryCount < maxRetriesMac) xs s)
    (h : serveLinks cfg order xs s = some s') (hq : s'.mac.perFlowQueues k ≠ []) :
    (s'.mac.dcfValues k).retryCount
        = (s.mac.dcfValues k).retryCount + loopFailures cfg order k xs s ∧
      (0 < loopFailures cfg order k xs s → (s'.mac.dcfValues k).retryCount ≤ maxRetriesMac) := by
  induction xs generalizing s with
  | nil =>
    obtain rfl : s = s' := by simpa [serveLinks] using h
    simp [loopFailures]
  | cons x xs ih =>
    obtain ⟨s₁, h₁, h₂⟩ := Option.bind_eq_some_iff.1 h
    obtain ⟨heq, hle⟩ := ih (fun y hy => hn y (List.mem_cons_of_mem x hy)) (hlimit.2 s₁ h₁) h₂
    have hq₁ : s₁.mac.perFlowQueues k ≠ [] := (serveLinks_thins h₂).ne_nil hq
    have hx : Fails cfg order s x k → s.mac.perFlowQueues k ≠ [] →
        (s.mac.dcfValues k).retryCount < maxRetriesMac := fun hf => hlimit.1 k hf.1 hf
    have hone := serveLink_retryCount (hn x List.mem_cons_self) h₁ hq₁ hx
    have hloop : loopFailures cfg order k (x :: xs) s
        = (if Fails cfg order s x k then 1 else 0) + loopFailures cfg order k xs s₁ := by
      simp [loopFailures, h₁]
    rw [hloop, heq, hone]
    refine ⟨by omega, fun hpos => ?_⟩
    by_cases hlater : 0 < loopFailures cfg order k xs s₁
    · have hle := hle hlater
      omega
    · -- the failure of this iteration is the last
      have hfails : Fails cfg order s x k := by
        by_contra hno
        simp only [hno, if_false] at hpos
        omega
      have hlt := hx hfails ((serveLink_thins h₁).ne_nil hq₁)
      simp only [hfails, if_true]
      omega

theorem ready_nodup {s : Sim} {x : Nat × List MacKey} (hx : x ∈ tickLinks cfg order s) :
    x.2.Nodup := by
  obtain ⟨l, -, rfl⟩ := List.mem_map.1 ((order.links_perm _).mem_iff.1 hx)
  exact cfg.macKeys_nodup.filter _

theorem dcfValues_scheduleTick (s : Sim) : (scheduleTick s).mac.dcfValues = s.mac.dcfValues := by
  unfold scheduleTick
  split <;> rfl

/-- **A slot tick** that stays within the retries. -/
theorem tick_retryCount {s s' : Sim} {t : Nat} {k : MacKey}
    (h : dequeScheduleService cfg order (s.atTick t) = some s')
    (hok : WithinRetries cfg s (.tick t order)) (hq : s'.mac.perFlowQueues k ≠ []) :
    (s'.mac.dcfValues k).retryCount
        = (s.mac.dcfValues k).retryCount + failures cfg s k (.tick t order) ∧
      (0 < failures cfg s k (.tick t order) →
        (s'.mac.dcfValues k).retryCount ≤ maxRetriesMac) := by
  obtain ⟨s₁, h₁, rfl⟩ := Option.map_eq_some_iff.1 h
  have hbegin : ((beginTick cfg order (s.atTick t)).mac.dcfValues k).retryCount
      = (s.mac.dcfValues k).retryCount := by
    have hpass : (overflowPass cfg order { s.mac with slotTickPending := false }).dcfValues
        = s.mac.dcfValues := congrArg Radio.dcf (radio_overflowPass cfg _ order)
    rw [← hpass]
    show (DcfStats.retryCount (if _ then _ else _)) = _
    split
    · exact retryCount_slot _ _ _
    · rfl
  have hend : (endTick cfg s₁).mac.dcfValues = s₁.mac.dcfValues ∧
      (endTick cfg s₁).mac.perFlowQueues = s₁.mac.perFlowQueues := by
    unfold endTick
    split
    · exact ⟨dcfValues_scheduleTick s₁, congrArg Books.queues (books_scheduleTick s₁)⟩
    · exact ⟨rfl, rfl⟩
  rw [hend.2] at hq
  rw [hend.1, ← hbegin]
  exact serveLinks_retryCount (fun x hx => ready_nodup hx) hok h₁ hq

end Counters

/-! ## Runs -/

theorem arrival_dcfValues {cfg : MacConfig} {ul : Bool} {s s' : Sim} {p : MpduPacket}
    (h : Arrived cfg ul s p s') : s'.mac.dcfValues = s.mac.dcfValues := by
  cases h with
  | ignored qlc rng why => rfl
  | refused qlc rng hdir => rfl
  | stored qlc rng k q hdir hk hown hl htriple hroom hap =>
    unfold enqueue
    dsimp only
    split
    · exact dcfValues_scheduleTick _
    · rfl

/-- A completion resets the counter of its sender and no other. -/
theorem completion_retryCount {cfg : MacConfig} {s s' : Sim} {i : Nat} (h : Completed cfg s i s')
    {k : MacKey} (hk : succeeds s k (.completion i) = false) :
    (s'.mac.dcfValues k).retryCount = (s.mac.dcfValues k).retryCount := by
  cases h with
  | delivered t ampdu hi hdue s₁ hs₁ =>
    have hne : k ≠ ampdu.macKey := by
      rintro rfl
      simp [succeeds, hi] at hk
    have hs : s₁.mac.dcfValues = s.mac.dcfValues := by
      rw [hs₁]
      rfl
    have hs₂ : (if s₁.mac.anyQueued cfg then scheduleTick s₁ else s₁).mac.dcfValues
        = s.mac.dcfValues := by
      split
      · rw [dcfValues_scheduleTick, hs]
      · exact hs
    generalize (if s₁.mac.anyQueued cfg then scheduleTick s₁ else s₁) = s₂ at hs₂ ⊢
    have hsettle : (settle s₂ ampdu).mac.dcfValues
        = Function.update s₂.mac.dcfValues ampdu.macKey
            ((s₂.mac.dcfValues ampdu.macKey).onSuccess
              (s₂.mac.dcfValues ampdu.macKey).param.cwMin) :=
      congrArg Radio.dcf (radio_drainStats _ ampdu s₂.now)
    rw [hsettle, Function.update_of_ne hne, hs₂]

/-- What the observer counts is at most what the retry counter counts. -/
structure Counted (n : MacKey → Nat) (s : Sim) : Prop where
  retries : ∀ k, n k ≤ (s.mac.dcfValues k).retryCount
  limit : ∀ k, n k ≤ maxRetriesMac

/-- **One event** that stays within the retries. -/
theorem Counted.step {cfg : MacConfig} {n : MacKey → Nat} {s s' : Sim} {e : Event}
    (h : Counted n s) (hok : WithinRetries cfg s e) (hstep : step cfg s e = some s') :
    Counted (watchHeads cfg n s e s') s' := by
  suffices hk : ∀ k, headOf s' k ≠ none → succeeds s k e = false →
      n k + failures cfg s k e ≤ (s'.mac.dcfValues k).retryCount ∧
        n k + failures cfg s k e ≤ maxRetriesMac by
    refine ⟨fun k => ?_, fun k => ?_⟩ <;>
    · unfold watchHeads
      split
      · exact Nat.zero_le _
      · rename_i hsame
        rw [not_or, not_or, Bool.not_eq_true] at hsame
        have := hk k hsame.1 hsame.2.2
        omega
  intro k hhead hsucc
  have hret := h.retries k
  have hlim := h.limit k
  -- Only a tick makes contenders fail; a completion resets them where the head succeeds.
  cases step_cases hstep with
  | offer ul t p hdue s' harr =>
    have hnone : failures cfg s k (.offer ul t p) = 0 := by cases ul <;> rfl
    rw [hnone, arrival_dcfValues harr]
    exact ⟨hret, hlim⟩
  | coords t sta c hdue => exact ⟨hret, hlim⟩
  | tick t order hdue ht s' htick =>
    have hq : s'.mac.perFlowQueues k ≠ [] := by
      intro hnil
      simp [headOf, hnil] at hhead
    obtain ⟨heq, hle⟩ := tick_retryCount htick hok hq
    refine ⟨by omega, ?_⟩
    by_cases hpos : 0 < failures cfg s k (.tick t order)
    · have hle := hle hpos
      omega
    · omega
  | completion i s' hc =>
    rw [completion_retryCount hc hsucc]
    exact ⟨hret, hlim⟩

/-- **The retry limit** is enforced in the runs in which no contention function that
has a packet fails with its retries used up: a packet that is still at the head of
its queue has seen fewer than `MAX_RETRIES_MAC + 1` consecutive failures. -/
theorem retry_limit_enforced {cfg : MacConfig} {es : List Event} {s : Sim}
    (h : Run (step cfg) (WithinRetries cfg) (Sim.new cfg) es s) (k : MacKey) :
    headFailures cfg es k < maxRetriesMac + 1 := by
  have hcounted : Counted (headFailures cfg es) s :=
    h.observe_invariant (P := Counted) ⟨fun _ => Nat.zero_le _, fun _ => Nat.zero_le _⟩
      fun n s e s' hn hok hstep => hn.step hok hstep
  exact Nat.lt_succ_of_le (hcounted.limit k)

/-- One uplink packet and `n` slot ticks. -/
def ticksAfterPacket (n : Nat) : List Event :=
  .inputUL 0 (plainPacket 200 100 0) ::
    (List.range n).map fun i => .tick (9000 * (i + 1)) .insertion

/-- Three attempts that end in an empty A-MPDU. -/
theorem retry_limit_enforced_three :
    ∃ s, Run (step allLost) (WithinRetries allLost) (Sim.new allLost)
        (ticksAfterPacket 3) s ∧
      headFailures allLost (ticksAfterPacket 3) ⟨200, .bestEffort, 0⟩ = 3 ∧
      ∀ k, headFailures allLost (ticksAfterPacket 3) k < maxRetriesMac + 1 := by
  have hok : allOk (step allLost) (WithinRetries allLost) (Sim.new allLost)
      (ticksAfterPacket 3) := by
    decide +kernel
  have hrun : (runs (step allLost) (Sim.new allLost) (ticksAfterPacket 3)).isSome := by
    decide +kernel
  obtain ⟨s, hs⟩ := Option.isSome_iff_exists.1 hrun
  have h := Run.of_runs hok hs
  exact ⟨s, h, by decide +kernel, fun k => retry_limit_enforced h k⟩

/-- After twelve attempts that end in an empty A-MPDU the packet is still at the head
of its queue. -/
theorem retry_limit_exceeded :
    ∃ s, MacRun allLost (ticksAfterPacket 12) s ∧
      headOf s ⟨200, .bestEffort, 0⟩ = some (200, 100, 0) ∧
      headFailures allLost (ticksAfterPacket 12) ⟨200, .bestEffort, 0⟩
        = maxRetriesMac + 2 := by
  have hrun : (runs (step allLost) (Sim.new allLost) (ticksAfterPacket 12)).map
      (fun s => headOf s ⟨200, .bestEffort, 0⟩) = some (some (200, 100, 0)) := by
    decide +kernel
  obtain ⟨s, hmac, hhead⟩ := exists_run_of_map hrun
  exact ⟨s, hmac, hhead, by decide +kernel⟩

end SiestaVR.Mac
