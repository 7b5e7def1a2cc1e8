import SiestaVR.Mac.System

/-!
# What an event can do

Inversion of the handlers, stated once: `Arrived` lists the outcomes of offering
a packet to a port, `Served` those of one iteration of the link loop. Results
about runs go by cases on these and do not unfold the handlers.

`LoopAll` states a condition on every iteration of the link loop of a tick, in
the state that iteration starts from; the conditions of the conditional results
are of this form.
-/

namespace SiestaVR.Mac

open Lib

/-! ## Arrivals -/

/-- The MAC after a packet has been counted and a link chosen for it. -/
def counted (m : QueueModule) (qlc : Nat) (rng : DrawStream Bool) : QueueModule :=
  { m with
    arrivedPacketCounter := m.arrivedPacketCounter + 1
    queueLengthCounter := qlc
    linkRng := rng }

/-- The queue an uplink packet would join is at its capacity. -/
def UlFull (cfg : MacConfig) (s : Sim) (pkt : MpduPacket) : Prop :=
  ∃ link ∈ (selectLinkForPacket cfg s.mac pkt s.now).1,
    cfg.ulCapacityQueueDevice
      ≤ (s.mac.perFlowQueues ⟨pkt.staSrcId, pkt.edcaAc, link⟩).length

instance (cfg : MacConfig) (s : Sim) (pkt : MpduPacket) : Decidable (UlFull cfg s pkt) :=
  inferInstanceAs (Decidable (∃ link ∈ _, _))

/-- The capacity the port checks a queue against. -/
def portCapacity (cfg : MacConfig) (ul : Bool) : Nat :=
  if ul then cfg.ulCapacityQueueDevice else cfg.queueMaxsizeDl

/-- The outcomes of offering `pkt` to the uplink (`ul`) or downlink port. -/
inductive Arrived (cfg : MacConfig) (ul : Bool) (s : Sim) (pkt : MpduPacket) : Sim → Prop
  /-- The other port's direction, or an uplink queue without room. -/
  | ignored (qlc : Nat) (rng : DrawStream Bool)
      (why : pkt.isUl ≠ ul ∨ (ul = true ∧ pkt.isUl = true ∧ UlFull cfg s pkt)) :
      Arrived cfg ul s pkt { s with mac := counted s.mac qlc rng }
  /-- No link for the station, or a downlink queue without room. -/
  | refused (qlc : Nat) (rng : DrawStream Bool) (hdir : pkt.isUl = ul) :
      Arrived cfg ul s pkt { s with mac := { counted s.mac qlc rng with
        blockedPacketCounter := s.mac.blockedPacketCounter + 1 } }
  | stored (qlc : Nat) (rng : DrawStream Bool) (k : MacKey) (p : MpduPacket)
      (hdir : pkt.isUl = ul) (hk : cfg.hasKey k = true) (hown : (k.sta, k.ac) = p.acKey)
      (hl : p.assignedLinkId = none) (htriple : p.triple = pkt.triple)
      (hroom : (s.mac.perFlowQueues k).length < portCapacity cfg ul)
      (hap : ul = false → k.sta = -1) :
      Arrived cfg ul s pkt (enqueue cfg { s with mac := counted s.mac qlc rng } k p)

theorem assignLink_eq (p : MpduPacket) (link : Nat) :
    p.assignLink link = some { p with assignedLinkId := none } := rfl

variable {cfg : MacConfig} {s s' : Sim} {order : HashOrder}

theorem queueDepth_eq_some {m : QueueModule} {k : MacKey} {d : Nat}
    (h : m.queueDepth cfg k = some d) :
    cfg.hasKey k = true ∧ d = (m.perFlowQueues k).length := by
  unfold QueueModule.queueDepth at h
  split at h
  · rename_i hk
    exact ⟨hk, (Option.some.inj h).symm⟩
  · cases h

theorem leastDepthScan_congr {m m' : QueueModule} (h : m'.linkQueueDepths = m.linkQueueDepths)
    (ls : List Nat) (st : Option Nat × Nat) : leastDepthScan m' ls st = leastDepthScan m ls st := by
  induction ls generalizing st with
  | nil => rfl
  | cons l ls ih =>
    simp only [leastDepthScan, getLinkQueueDepth, h, ih]
    rfl

/-- The link choice does not read the counters a port updates before it. -/
theorem selectLinkForPacket_counting (cfg : MacConfig) (m : QueueModule) (arrived qlc : Nat)
    (p : MpduPacket) (now : Nat) :
    selectLinkForPacket cfg { m with arrivedPacketCounter := arrived, queueLengthCounter := qlc }
      p now = selectLinkForPacket cfg m p now := by
  set m' := { m with arrivedPacketCounter := arrived, queueLengthCounter := qlc }
  have hdepths : m'.linkQueueDepths = m.linkQueueDepths := rfl
  unfold selectLinkForPacket selectMloChannelLyapunovBackpressure
  simp only [leastDepthScan_congr hdepths]
  rfl

/-- **Downlink port.** -/
theorem input_cases {pkt : MpduPacket}
    (h : input cfg s pkt = some s') : Arrived cfg false s pkt s' := by
  unfold input at h
  simp only [assignLink_eq, Option.bind_eq_bind, Option.bind_some] at h
  split at h
  · rename_i hul
    obtain rfl := Option.some.inj h
    refine .ignored s.mac.queueLengthCounter _ (Or.inl ?_)
    have : pkt.isUl = true := hul
    rw [this]
    simp
  · rename_i hul
    have hdl : pkt.isUl = false := by
      have : ¬ pkt.isUl = true := hul
      simpa using this
    split at h
    · obtain rfl := Option.some.inj h
      exact .refused s.mac.queueLengthCounter _ hdl
    · rename_i link hsel
      obtain ⟨d, hd, h⟩ := Option.bind_eq_some_iff.1 h
      obtain ⟨hk, hd⟩ := queueDepth_eq_some hd
      split at h
      · rename_i hroom
        obtain rfl := Option.some.inj h
        refine .stored s.mac.queueLengthCounter _ ⟨-1, pkt.edcaAc, link⟩ _ hdl hk ?_ rfl rfl ?_
          fun _ => rfl
        · show ((-1 : Int), pkt.edcaAc) = (pkt.queueSta, pkt.edcaAc)
          simp [MpduPacket.queueSta, hdl]
        · rw [hd] at hroom
          exact hroom
      · obtain rfl := Option.some.inj h
        exact .refused s.mac.queueLengthCounter _ hdl

/-- **Uplink port.** -/
theorem inputUL_cases {pkt : MpduPacket}
    (h : inputUL cfg s pkt = some s') : Arrived cfg true s pkt s' := by
  unfold inputUL at h
  simp only [assignLink_eq, Option.bind_eq_bind, Option.bind_some] at h
  split at h
  · rename_i hul
    split at h
    · obtain rfl := Option.some.inj h
      exact .refused _ _ hul
    · rename_i link hsel
      obtain ⟨d, hd, h⟩ := Option.bind_eq_some_iff.1 h
      obtain ⟨hk, hd⟩ := queueDepth_eq_some hd
      split at h
      · rename_i hroom
        obtain rfl := Option.some.inj h
        refine .stored _ _ ⟨pkt.staSrcId, pkt.edcaAc, link⟩ _ hul hk ?_ rfl rfl ?_
          fun hf => by cases hf
        · show (pkt.staSrcId, pkt.edcaAc) = (pkt.queueSta, pkt.edcaAc)
          simp [MpduPacket.queueSta, hul]
        · rw [hd] at hroom
          exact hroom
      · rename_i hfull
        obtain rfl := Option.some.inj h
        rw [selectLinkForPacket_counting] at hsel
        refine .ignored _ _ (Or.inr ⟨rfl, hul, link, hsel, ?_⟩)
        rw [hd] at hfull
        exact Nat.le_of_not_lt hfull
  · rename_i hul
    obtain rfl := Option.some.inj h
    exact .ignored _ _ (Or.inl hul)

/-! ## Completions -/

/-- A completion up to its decision about the next tick: the medium is released
and the A-MPDU delivered. -/
def delivery (s : Sim) (ampdu : AmpduPacket) : Sim :=
  let link := ampdu.linkId
  let m := s.mac.setMedium link ((s.mac.linkMediums link).releaseTxop s.now)
  { s with
    mac := { m with ampduId := m.ampduId + 1 }.setTransmitting link false
    delivered := s.delivered ++ [ampdu] }

/-- A completion from there on: the sender draws a new back-off and statistics
are drained. -/
def settle (s : Sim) (ampdu : AmpduPacket) : Sim :=
  { s with mac :=
      drainStats (s.mac.dcfMut ampdu.macKey fun st => st.onSuccess st.param.cwMin) ampdu s.now }

/-- The one outcome of a completion. -/
inductive Completed (cfg : MacConfig) (s : Sim) (i : Nat) : Sim → Prop
  | delivered (t : Nat) (ampdu : AmpduPacket) (hi : s.completions[i]? = some (t, ampdu))
      (hdue : due s t = true) (s₁ : Sim)
      (hs₁ : s₁ = delivery { s with now := t, completions := s.completions.eraseIdx i } ampdu) :
      Completed cfg s i (settle (if s₁.mac.anyQueued cfg then scheduleTick s₁ else s₁) ampdu)

/-- **Completion of a transmission.** -/
theorem completion_cases {i : Nat}
    (h : step cfg s (.completion i) = some s') : Completed cfg s i s' := by
  simp only [step] at h
  split at h
  · rename_i t ampdu hi
    split at h
    · rename_i hdue
      unfold sendAmpdu at h
      dsimp only at h
      split at h
      · obtain rfl := Option.some.inj h
        exact .delivered t ampdu hi hdue
          (delivery { s with now := t, completions := s.completions.eraseIdx i } ampdu) rfl
      · cases h
    · cases h
  · cases h

/-! ## The overflow pass -/

section Overflow

variable (cfg : MacConfig) {R : QueueModule → QueueModule → Prop} (hrefl : ∀ m, R m m)
  (htrans : ∀ {m₁ m₂ m₃}, R m₁ m₂ → R m₂ m₃ → R m₁ m₃)

include hrefl htrans

/-- **Rule for a flow's turn**: a reflexive and transitive relation that every
queue of the turn keeps holds between its two ends. -/
theorem overflowFlow_rel {x : (Int × Int) × Nat}
    (hq : ∀ st k, k.sta = (if x.1.2 < x.1.1 then x.1.1 else -1) →
      R st.1 (overflowQueue cfg x.1 k st).1)
    (m : QueueModule) : R m (overflowFlow cfg m x) := by
  -- the loop over the categories, and in each of them the loop over the links
  refine List.foldlRecOn (motive := R m) _ _ (hrefl m) fun m₁ h₁ ac _ => htrans h₁ ?_
  refine List.foldlRecOn (motive := fun st : QueueModule × Nat => R m₁ st.1) _ _ (hrefl m₁)
    fun st h₂ l _ => ?_
  exact htrans h₂ (hq st _ rfl)

theorem overflowPass_rel (order : HashOrder) (m : QueueModule)
    (hq : ∀ x ∈ order.flows (overflowingFlows cfg m), ∀ k st,
      R st.1 (overflowQueue cfg x.1 k st).1) : R m (overflowPass cfg order m) := by
  refine List.foldlRecOn (motive := R m) _ _ (hrefl m) fun m₁ h₁ x hx => htrans h₁ ?_
  exact overflowFlow_rel cfg hrefl htrans (fun st k _ => hq x hx k st) m₁

end Overflow

theorem overflowing_spec {m : QueueModule}
    {x : (Int × Int) × Nat} (hx : x ∈ order.flows (overflowingFlows cfg m)) :
    x.1 ∈ m.staStatsCache.keys ∧ flowLimit cfg x.1 < m.staStatsCache.count x.1 := by
  obtain ⟨f, hf, heq⟩ := List.mem_filterMap.1 ((order.flows_perm _).mem_iff.1 hx)
  dsimp only at heq
  split at heq
  · rename_i hover
    obtain rfl := Option.some.inj heq
    exact ⟨hf, hover⟩
  · cases heq

/-! ## The link loop -/

/-- Two back-off states that agree on what carrier sensing uses. -/
structure SameSensing (d d' : MacKey → DcfStats) : Prop where
  param : ∀ k, (d' k).param = (d k).param
  frozen : ∀ k, (d' k).backoffFrozen = (d k).backoffFrozen
  freeSince : ∀ k, (d' k).mediumFreeSince = (d k).mediumFreeSince

theorem SameSensing.refl (d : MacKey → DcfStats) : SameSensing d d :=
  ⟨fun _ => rfl, fun _ => rfl, fun _ => rfl⟩

theorem SameSensing.trans {d d' d'' : MacKey → DcfStats} (h : SameSensing d d')
    (h' : SameSensing d' d'') : SameSensing d d'' :=
  ⟨fun k => (h'.param k).trans (h.param k), fun k => (h'.frozen k).trans (h.frozen k),
    fun k => (h'.freeSince k).trans (h.freeSince k)⟩

theorem SameSensing.update (d : MacKey → DcfStats) (k : MacKey) {st : DcfStats}
    (hp : st.param = (d k).param) (hf : st.backoffFrozen = (d k).backoffFrozen)
    (hs : st.mediumFreeSince = (d k).mediumFreeSince) :
    SameSensing d (Function.update d k st) := by
  refine ⟨fun j => ?_, fun j => ?_, fun j => ?_⟩ <;>
  · by_cases hj : j = k
    · subst hj
      simpa
    · simp [hj]

theorem sameSensing_onFailure (d : MacKey → DcfStats) (k : MacKey) :
    SameSensing d (Function.update d k (d k).onFailure.2) :=
  .update d k (by simp) (by simp) (by simp)

theorem sameSensing_onSuccess (d : MacKey → DcfStats) (k : MacKey) (c : Nat) :
    SameSensing d (Function.update d k ((d k).onSuccess c)) :=
  .update d k rfl rfl rfl

theorem resolveLoop_spec (ks winners : List MacKey) (m : QueueModule) :
    (∃ d, SameSensing m.dcfValues d ∧ (resolveLoop ks winners m).2 = { m with dcfValues := d }) ∧
      ∀ k ∈ (resolveLoop ks winners m).1, k ∈ winners ∨ k ∈ ks := by
  induction ks generalizing winners m with
  | nil => exact ⟨⟨m.dcfValues, .refl _, rfl⟩, fun k hk => Or.inl hk⟩
  | cons k ks ih =>
    rw [resolveLoop]
    split
    · obtain ⟨⟨d, hd, hm⟩, hsub⟩ := ih winners (m.dcfMut k fun st => st.onFailure.2)
      refine ⟨⟨d, (sameSensing_onFailure m.dcfValues k).trans hd, hm⟩, fun j hj => ?_⟩
      exact (hsub j hj).imp_right (List.mem_cons_of_mem k)
    · obtain ⟨hd, hsub⟩ := ih (winners ++ [k]) m
      refine ⟨hd, fun j hj => ?_⟩
      rcases hsub j hj with hw | hks
      · rcases List.mem_append.1 hw with hw | hw
        · exact Or.inl hw
        · exact Or.inr (List.mem_cons.2 (Or.inl (List.mem_singleton.1 hw)))
      · exact Or.inr (List.mem_cons_of_mem k hks)

/-- Resolving virtual collisions changes back-offs only, and picks among the
ready contention functions. -/
theorem resolve_spec (order : HashOrder) (link : Nat) (m : QueueModule) (ready : List MacKey) :
    (∃ d, SameSensing m.dcfValues d ∧
      (resolveVirtualCollision order link m ready).2 = { m with dcfValues := d }) ∧
      ∀ k ∈ (resolveVirtualCollision order link m ready).1, k ∈ ready := by
  obtain ⟨hd, hsub⟩ := resolveLoop_spec
    (ready.insertionSort fun a b => acPrio a.ac ≤ acPrio b.ac) [] m
  refine ⟨hd, fun k hk => ?_⟩
  have hk' := (order.winners_perm link _).mem_iff.1 hk
  rcases hsub k hk' with h | h
  · cases h
  · exact (List.mem_insertionSort _).1 h

/-- The contenders of an iteration: what is left of the ready functions once
virtual collisions are resolved. -/
def contendersOf (order : HashOrder) (s : Sim) (x : Nat × List MacKey) : List MacKey :=
  (resolveVirtualCollision order x.1 s.mac x.2).1

/-- The outcomes of one iteration of the link loop. `m` is the state after
virtual collisions are resolved. -/
inductive Served (cfg : MacConfig) (order : HashOrder) (s : Sim) (x : Nat × List MacKey)
    (m : QueueModule) : Sim → Prop
  /-- Nobody contends. -/
  | idle (hc : contendersOf order s x = []) : Served cfg order s x m { s with mac := m }
  /-- The winner has nothing to send. -/
  | unused (winner : MacKey) (hc : contendersOf order s x = [winner])
      (hf : firstPacket cfg m winner = none) :
      Served cfg order s x m
        { s with mac := m.dcfMut winner fun st => st.onSuccess st.param.cwMin }
  /-- At least two stations contend. -/
  | collided (hc : 2 ≤ (contendersOf order s x).length) :
      Served cfg order s x m (collide { s with mac := m } x.1 (contendersOf order s x))
  /-- An A-MPDU was built and holds nothing to transmit. -/
  | skipped (winner : MacKey) (hc : contendersOf order s x = [winner]) (first : MpduPacket)
      (hf : firstPacket cfg m winner = some first) (ampdu : AmpduPacket) (airtime : Nat)
      (m' : QueueModule)
      (hb : buildNewAmpdu cfg m first x.1 s.now = some (ampdu, airtime, m'))
      (hskip : ampdu.mpduPackets = [] ∨ airtime = 0) :
      Served cfg order s x m (skipTransmission { s with mac := m' } x.1 winner)
  /-- An A-MPDU was built and is transmitted. -/
  | transmitted (winner : MacKey) (hc : contendersOf order s x = [winner]) (first : MpduPacket)
      (hf : firstPacket cfg m winner = some first) (ampdu : AmpduPacket) (airtime : Nat)
      (m' : QueueModule)
      (hb : buildNewAmpdu cfg m first x.1 s.now = some (ampdu, airtime, m'))
      (hne : ampdu.mpduPackets ≠ []) (hair : airtime ≠ 0) :
      Served cfg order s x m (startTransmission { s with mac := m' } x.1 winner
        { ampdu with linkId := x.1 } airtime)

/-- **One iteration of the link loop.** -/
theorem serveLink_cases {x : Nat × List MacKey} (h : serveLink cfg order s x = some s') :
    Served cfg order s x (resolveVirtualCollision order x.1 s.mac x.2).2 s' := by
  unfold serveLink at h
  dsimp only at h
  split at h
  · rename_i hc
    obtain rfl := Option.some.inj h
    exact .idle hc
  · rename_i winner hc
    unfold serveWinner at h
    split at h
    · rename_i hf
      obtain rfl := Option.some.inj h
      exact .unused winner hc hf
    · rename_i first hf
      obtain ⟨⟨ampdu, airtime, m'⟩, hb, h⟩ := Option.map_eq_some_iff.1 h
      dsimp only at h
      split at h
      · rename_i hskip
        subst h
        refine .skipped winner hc first hf ampdu airtime m' hb ?_
        simpa using hskip
      · rename_i hskip
        subst h
        have hne : ampdu.mpduPackets ≠ [] ∧ airtime ≠ 0 := by simpa using hskip
        exact .transmitted winner hc first hf ampdu airtime m' hb hne.1 hne.2
  · rename_i a b cs hc
    obtain rfl := Option.some.inj h
    refine .collided ?_
    rw [contendersOf, hc]
    simp

/-! ## Events -/

/-- The offer of a packet to the uplink (`ul`) or downlink port. -/
def Event.offer (ul : Bool) (t : Nat) (p : MpduPacket) : Event :=
  if ul then .inputUL t p else .input t p

/-- The state a tick at `t` is handled in. -/
def Sim.atTick (s : Sim) (t : Nat) : Sim := { s with now := t, ticks := s.ticks.erase t }

/-- The outcomes of handling an event. -/
inductive Stepped (cfg : MacConfig) (s : Sim) : Event → Sim → Prop
  | offer (ul : Bool) (t : Nat) (p : MpduPacket) (hdue : due s t = true) (s' : Sim)
      (h : Arrived cfg ul { s with now := t } p s') : Stepped cfg s (.offer ul t p) s'
  | coords (t : Nat) (sta : Int) (c : Coords) (hdue : due s t = true) :
      Stepped cfg s (.coords t sta c) (inputCoordsUpdate { s with now := t } sta c)
  | tick (t : Nat) (order : HashOrder) (hdue : due s t = true) (ht : t ∈ s.ticks) (s' : Sim)
      (h : dequeScheduleService cfg order (s.atTick t) = some s') :
      Stepped cfg s (.tick t order) s'
  | completion (i : Nat) (s' : Sim) (h : Completed cfg s i s') : Stepped cfg s (.completion i) s'

/-- **One event.** -/
theorem step_cases {e : Event} (h : step cfg s e = some s') :
    Stepped cfg s e s' := by
  cases e with
  | input t p =>
    simp only [step] at h
    split at h
    · exact .offer false t p ‹_› s' (input_cases h)
    · cases h
  | inputUL t p =>
    simp only [step] at h
    split at h
    · exact .offer true t p ‹_› s' (inputUL_cases h)
    · cases h
  | coords t sta c =>
    simp only [step] at h
    split at h
    · obtain rfl := Option.some.inj h
      exact .coords t sta c ‹_›
    · cases h
  | tick t order =>
    simp only [step] at h
    split at h
    · rename_i hcond
      exact .tick t order hcond.1 hcond.2 s' h
    · cases h
  | completion i => exact .completion i s' (completion_cases h)

/-! ## Conditions on a tick -/

/-- `R` holds at every iteration of the link loop over the given links. -/
def LoopAll (cfg : MacConfig) (order : HashOrder) (R : Sim → Nat × List MacKey → Prop) :
    List (Nat × List MacKey) → Sim → Prop
  | [], _ => True
  | x :: xs, s => R s x ∧ ∀ s' ∈ serveLink cfg order s x, LoopAll cfg order R xs s'

instance decidableLoopAll (cfg : MacConfig) (order : HashOrder) {R : Sim → Nat × List MacKey → Prop}
    [∀ s x, Decidable (R s x)] : ∀ xs s, Decidable (LoopAll cfg order R xs s)
  | [], _ => .isTrue True.intro
  | x :: xs, s =>
    have := decidableLoopAll cfg order (R := R) xs
    inferInstanceAs (Decidable (R s x ∧ ∀ s' ∈ serveLink cfg order s x, LoopAll cfg order R xs s'))

/-- `R` holds at every iteration of the link loop of a tick in state `s`. -/
def TickAll (cfg : MacConfig) (order : HashOrder) (R : Sim → Nat × List MacKey → Prop)
    (s : Sim) : Prop :=
  LoopAll cfg order R (tickLinks cfg order s) (beginTick cfg order s)

instance (cfg : MacConfig) (order : HashOrder) (R : Sim → Nat × List MacKey → Prop)
    [∀ s x, Decidable (R s x)] (s : Sim) : Decidable (TickAll cfg order R s) :=
  decidableLoopAll cfg order _ _

/-- What every iteration that meets `R` keeps, the link loop keeps. -/
theorem serveLinks_preserves {R : Sim → Nat × List MacKey → Prop} {P : Sim → Prop}
    (hP : ∀ s x s', P s → R s x → serveLink cfg order s x = some s' → P s')
    {xs : List (Nat × List MacKey)} (hR : LoopAll cfg order R xs s)
    (h : serveLinks cfg order xs s = some s') (hs : P s) : P s' := by
  induction xs generalizing s with
  | nil =>
    obtain rfl : s = s' := by simpa [serveLinks] using h
    exact hs
  | cons x xs ih =>
    obtain ⟨s₁, h₁, h₂⟩ := Option.bind_eq_some_iff.1 h
    exact ih (hR.2 s₁ h₁) h₂ (hP s x s₁ hs hR.1 h₁)

theorem LoopAll.of_forall
    {R : Sim → Nat × List MacKey → Prop} (hR : ∀ s x, R s x) (xs : List (Nat × List MacKey))
    (s : Sim) : LoopAll cfg order R xs s := by
  induction xs generalizing s with
  | nil => exact True.intro
  | cons x xs ih => exact ⟨hR s x, fun s' _ => ih s'⟩

/-- The winner of an iteration, if nobody collides with it. -/
def soleContender (order : HashOrder) (s : Sim) (x : Nat × List MacKey) : Option MacKey :=
  match contendersOf order s x with
  | [winner] => some winner
  | _ => none

theorem soleContender_eq_some {x : Nat × List MacKey} {winner : MacKey} :
    soleContender order s x = some winner ↔ contendersOf order s x = [winner] := by
  unfold soleContender
  split
  · rename_i w hw
    rw [hw]
    simp
  · rename_i hno
    constructor
    · nofun
    · exact fun h => absurd h (hno winner)

/-- `R` holds of the state, first packet and link of an iteration's build, if the
iteration has one. -/
def EachBuild (cfg : MacConfig) (order : HashOrder) (R : QueueModule → MpduPacket → Nat → Prop)
    (s : Sim) (x : Nat × List MacKey) : Prop :=
  ∀ winner ∈ soleContender order s x,
    ∀ first ∈ firstPacket cfg (resolveVirtualCollision order x.1 s.mac x.2).2 winner,
      R (resolveVirtualCollision order x.1 s.mac x.2).2 first x.1

instance (cfg : MacConfig) (order : HashOrder) (R : QueueModule → MpduPacket → Nat → Prop)
    [∀ m first link, Decidable (R m first link)] (s : Sim) (x : Nat × List MacKey) :
    Decidable (EachBuild cfg order R s x) :=
  inferInstanceAs (Decidable (∀ winner ∈ _, ∀ first ∈ _, _))

end SiestaVR.Mac
