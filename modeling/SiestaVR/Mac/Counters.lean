import SiestaVR.Mac.Bookings
import SiestaVR.Mac.ServiceTime

/-!
# What the counters of the MAC tell

The MAC decides by counters it keeps beside its queues and reports the blocking
ratio from two more. Here the ledger's results are read back as statements about
the state, for every run:

- `counters_exact`: contention counters and flow counters are equal to what they
  count, and no queue is longer than its capacity, when every destination has
  one source that numbers its packets. Removing downlink packets by their bare
  id (`XRSIM_DL_ID_LEGACY`) needs ids that are distinct over all sources.
- `link_depths_exact_iff`: link depths are equal to the backlog of the link as
  long as nothing is sent, and never again. A packet is filed under its link
  through `assigned_link_id`, which STR+ leaves empty, so no transmission lowers
  a depth.
- `arrivals_balanced`: arrivals are queued, handed over or blocked when no loss
  draw fails and no uplink queue is full.
-/

namespace SiestaVR.Mac

open Lib

/-! ## Backlog -/

section Backlog

variable (cfg : MacConfig) (m : QueueModule)

/-- Packets stored in the queues that `q` selects. -/
def storedIn (q : MacKey → Bool) : Nat :=
  ((cfg.macKeys.filter q).map fun k => (m.perFlowQueues k).length).sum

/-- Stored packets of a flow. -/
def storedOfFlow (f : Int × Int) : Nat :=
  (cfg.macKeys.map fun k => (m.perFlowQueues k).countP fun p => p.flow = f).sum

variable {m} in
theorem storedIn_ledger (handed : Nat) (q : MacKey → Bool) :
    (m.books.ledger cfg handed).queued.countP (fun x => q x.1 = true) = storedIn cfg m q := by
  have h := countP_fst_contents cfg.macKeys (fun k => unstampedPackets (m.perFlowQueues k)) q
  simp only [card_unstampedPackets] at h
  exact h

theorem waiting_ledger (s : Sim) (sta : Int) (ac : EdcaAc) :
    (s.ledger cfg).waiting (sta, ac) = storedIn cfg s.mac fun k => k.sta = sta ∧ k.ac = ac := by
  rw [← storedIn_ledger cfg s.handed]
  exact Multiset.countP_congr rfl fun x _ => by simp

theorem onLink_ledger (s : Sim) (l : Nat) :
    (s.ledger cfg).onLink l = storedIn cfg s.mac fun k => k.link = l := by
  rw [← storedIn_ledger cfg s.handed]
  exact Multiset.countP_congr rfl fun x _ => by simp

theorem ofFlow_ledger (s : Sim) (f : Int × Int) :
    (s.ledger cfg).ofFlow f = storedOfFlow cfg s.mac f := by
  have h := countP_contents cfg.macKeys (fun k => unstampedPackets (s.mac.perFlowQueues k))
    fun x => x.2.flow = f
  simp only [unstampedPackets, Multiset.coe_countP, List.countP_map, Function.comp_def,
    MpduPacket.withoutStamps_flow] at h
  exact h

theorem card_queued_ledger (s : Sim) :
    Multiset.card (s.ledger cfg).queued = s.mac.totalQueued cfg := by
  have h := card_contents cfg.macKeys fun k => unstampedPackets (s.mac.perFlowQueues k)
  simp only [card_unstampedPackets] at h
  exact h

end Backlog

/-! ## Contention and flow counters -/

/-- The packets offered to the port of their direction. -/
def accepted (os : List (Bool × MpduPacket)) : List MpduPacket :=
  (os.filter fun o => o.2.isUl = o.1).map Prod.snd

theorem accepted_append (os os' : List (Bool × MpduPacket)) :
    accepted (os ++ os') = accepted os ++ accepted os' := by
  simp [accepted]

/-- Every destination has one source, and a source numbers its packets. -/
structure SingleSource (ps : List MpduPacket) : Prop where
  source : ∀ p ∈ ps, ∀ q ∈ ps, p.staDestId = q.staDestId → p.staSrcId = q.staSrcId
  ids : ps.Pairwise fun p q => p.staSrcId = q.staSrcId → p.packetId ≠ q.packetId

/-- The packets the access point sends have distinct ids, whatever their source. -/
def DistinctDownlinkIds (ps : List MpduPacket) : Prop :=
  ps.Pairwise fun p q => p.queueSta = -1 → q.queueSta = -1 → p.packetId ≠ q.packetId

section Exactness

variable {cfg : MacConfig}

/-- Such traffic is disciplined. -/
theorem SingleSource.disciplined {ps : List MpduPacket} (h : SingleSource ps)
    (hleg : cfg.dlPacketIdLegacy = true → DistinctDownlinkIds ps) :
    Disciplined cfg (ps.map MpduPacket.triple) := by
  refine ⟨?_, ?_⟩
  · have hlegacy : ps.Pairwise fun p q => cfg.dlPacketIdLegacy = true →
        p.queueSta = -1 → q.queueSta = -1 → p.packetId ≠ q.packetId := by
      by_cases hl : cfg.dlPacketIdLegacy = true
      · exact (hleg hl).imp fun hpq _ => hpq
      · exact List.pairwise_of_forall fun _ _ hl' => absurd hl' hl
    refine List.pairwise_map.2 ((h.ids.and hlegacy).imp_of_mem ?_)
    rintro p q hp hq ⟨hids, hlegacy⟩ ⟨hid, hsend, hdest⟩
    rw [← queueSta_eq, ← queueSta_eq] at hsend
    rw [← queueSta_eq] at hdest
    by_cases hap : p.queueSta = -1
    · -- sent by the access point: same destination, hence same source
      rcases hdest hap with hd | hl
      · exact hids (h.source p hp q hq hd) hid
      · exact hlegacy hl hap (hsend ▸ hap) hid
    · have hul : ∀ r : MpduPacket, r.queueSta ≠ -1 → r.queueSta = r.staSrcId := by
        intro r hr
        unfold MpduPacket.queueSta at hr ⊢
        split at hr
        · simp [*]
        · exact absurd rfl hr
      refine hids ?_ hid
      rw [← hul p hap, hsend]
      exact hul q (hsend ▸ hap)
  · intro a ha b hb hab
    obtain ⟨p, hp, rfl⟩ := List.mem_map.1 ha
    obtain ⟨q, hq, rfl⟩ := List.mem_map.1 hb
    exact h.source p hp q hq hab

theorem Disciplined.of_append {ts ts' : List (Int × Int × Nat)}
    (h : Disciplined cfg (ts ++ ts')) : Disciplined cfg ts :=
  ⟨(List.pairwise_append.1 h.noClash).1, fun a ha b hb =>
    h.oneSource a (List.mem_append_left _ ha) b (List.mem_append_left _ hb)⟩

/-- The triples of the accepted offers. -/
def acceptedTriples (os : List (Bool × MpduPacket)) : List (Int × Int × Nat) :=
  (accepted os).map MpduPacket.triple

/-- An offer keeps the counters exact. -/
theorem exact_offer {os : List (Bool × MpduPacket)} {s : Sim} {L L' : Ledger} {ul : Bool}
    {p : MpduPacket} {e : Entry} (h : Exact (acceptedTriples os) L)
    (hb : Booked cfg L e L') (hout : Outcome cfg ul s p e) :
    Exact (acceptedTriples (os ++ [(ul, p)])) L' := by
  have happ : acceptedTriples (os ++ [(ul, p)])
      = acceptedTriples os ++ acceptedTriples [(ul, p)] := by
    rw [acceptedTriples, accepted_append, List.map_append]
    rfl
  rw [happ]
  cases e with
  | ignored =>
    cases hb
    exact Exact.mono ⟨h.known, h.keys, h.active, h.flows⟩
  | refused =>
    cases hb
    exact Exact.mono ⟨h.known, h.keys, h.active, h.flows⟩
  | stored k q =>
    obtain ⟨hdir, htriple⟩ := hout
    have hlast : acceptedTriples [(ul, p)] = [q.triple] := by
      simp [acceptedTriples, accepted, hdir, htriple]
    rw [hlast]
    exact h.stored hb
  | dropped k ps fs => exact hout.elim
  | built sent lost failed handed => exact hout.elim

theorem covers_without_stores (cfg : MacConfig) :
    Covers cfg (fun _ _ _ => True) fun e => ∀ k p, e ≠ .stored k p :=
  ⟨fun _ _ _ _ _ => nofun, fun _ _ _ _ _ _ _ _ _ _ _ => nofun⟩

/-- **Exactness over whole runs**: disciplined traffic is counted exactly. -/
theorem run_exact {es : List Event} {s : Sim} (h : MacRun cfg es s)
    (hd : Disciplined cfg (acceptedTriples (offers es))) :
    Exact (acceptedTriples (offers es)) (s.ledger cfg) := by
  refine (run_ledger (P := fun os L => Sound cfg L ∧
      (Disciplined cfg (acceptedTriples os) → Exact (acceptedTriples os) L))
    (covers_without_stores cfg) (fun _ _ _ _ => tickAll_trivial ..) ?_ ?_ ?_ h).2 hd
  · refine ⟨sound_new cfg, fun _ => ⟨?_, ?_, ?_, ?_⟩⟩
    · rw [queued_new]
      exact Multiset.zero_le _
    · intro f hf
      cases hf
    · intro a
      rw [Ledger.waiting, queued_new]
      rfl
    · intro f
      rw [Ledger.ofFlow, queued_new]
      rfl
  · rintro os s ul t p e L' ⟨hs, hexact⟩ - hb hout
    refine ⟨hb.sound hs, fun hd => exact_offer (hexact ?_) hb hout⟩
    rw [acceptedTriples, accepted_append, List.map_append] at hd
    exact hd.of_append
  · rintro os L e L' ⟨hs, hexact⟩ he hb
    exact ⟨hb.sound hs, fun hd => hb.exact hd hs (hexact hd) he⟩

end Exactness

/-- Removal by bare id is switched on. -/
def bareIds : MacConfig := { twoStations with dlPacketIdLegacy := true }

/-- Packet 0 of source 100 to station 200 and packet 0 of source 101 to station
201, and the slot tick in which the access point transmits the first of them. -/
def bareIdsEvents : List Event :=
  [.coords 0 200 {}, .coords 0 201 {}, .input 0 (plainPacket 100 200 0),
    .input 0 (plainPacket 101 201 0), .tick 9000 .insertion]

/-- With removal by bare id, the second packet disappears and its contention
counter stays. -/
theorem counters_drift_by_bare_ids :
    SingleSource (accepted (offers bareIdsEvents)) ∧
      ∃ s, MacRun bareIds bareIdsEvents s ∧
        s.mac.activeMacKeyCounts.count (-1, .bestEffort) = 1 ∧
        storedIn bareIds s.mac (fun k => k.sta = -1 ∧ k.ac = .bestEffort) = 0 := by
  refine ⟨⟨by decide +kernel, by decide +kernel⟩, ?_⟩
  have hrun : (runs (step bareIds) (Sim.new bareIds) bareIdsEvents).map (fun s =>
      (s.mac.activeMacKeyCounts.count (-1, .bestEffort),
        storedIn bareIds s.mac fun k => k.sta = -1 ∧ k.ac = .bestEffort)) = some (1, 0) := by
    decide +kernel
  obtain ⟨s, hmac, heq⟩ := exists_run_of_map hrun
  obtain ⟨hactive, hstored⟩ := Prod.mk.inj heq
  exact ⟨s, hmac, hactive, hstored⟩

/-- **Contention counters, flow counters and capacities in every reachable
state.** -/
theorem counters_exact {cfg : MacConfig} {es : List Event} {s : Sim} (h : MacRun cfg es s)
    (hsrc : SingleSource (accepted (offers es)))
    (hleg : cfg.dlPacketIdLegacy = true → DistinctDownlinkIds (accepted (offers es))) :
    (∀ sta ac, s.mac.activeMacKeyCounts.count (sta, ac)
      = storedIn cfg s.mac fun k => k.sta = sta ∧ k.ac = ac) ∧
    (∀ src dest, s.mac.staStatsCache.count (src, dest) = storedOfFlow cfg s.mac (src, dest)) ∧
    ∀ k ∈ cfg.macKeys, (s.mac.perFlowQueues k).length
      ≤ if k.sta = -1 then cfg.queueMaxsizeDl else cfg.ulCapacityQueueDevice := by
  have hexact := run_exact h (hsrc.disciplined hleg)
  refine ⟨fun sta ac => ?_, fun src dest => ?_, fun k hk => ?_⟩
  · rw [← waiting_ledger]
    exact hexact.active (sta, ac)
  · rw [← ofFlow_ledger]
    exact hexact.flows (src, dest)
  · rw [← inQueue_ledger cfg s hk]
    exact (run_sound h).fits k

/-- The same traffic with the full removal key. -/
theorem counters_exact_two_sources :
    ∃ s, MacRun (plainConfig [200, 201] [0] (by decide) (by decide) (by decide)) bareIdsEvents s ∧
      s.mac.activeMacKeyCounts.count (-1, .bestEffort) = 1 ∧
      storedIn (plainConfig [200, 201] [0] (by decide) (by decide) (by decide)) s.mac
        (fun k => k.sta = -1 ∧ k.ac = .bestEffort) = 1 := by
  set cfg := plainConfig [200, 201] [0] (by decide) (by decide) (by decide) with hcfg
  have hrun : (runs (step cfg) (Sim.new cfg) bareIdsEvents).map (fun s =>
      s.mac.activeMacKeyCounts.count (-1, .bestEffort)) = some 1 := by
    decide +kernel
  obtain ⟨s, hmac, heq⟩ := exists_run_of_map hrun
  have hexact := counters_exact hmac ⟨by decide +kernel, by decide +kernel⟩
    fun hleg => absurd hleg (by decide)
  exact ⟨s, hmac, heq, (hexact.1 (-1) .bestEffort).symm.trans heq⟩

/-! ## Link depths -/

/-- The build sends no packet and sweeps none away. -/
def NothingLeaves (cfg : MacConfig) (m : QueueModule) (first : MpduPacket) (link : Nat) : Prop :=
  sentOf cfg m first link = [] ∧ swept cfg m first link = 0

/-- No build of the tick, if the event is one, takes packets out of the queues. -/
def noDepartures (cfg : MacConfig) (s : Sim) : Event → Prop
  | .tick t order => TickAll cfg order (EachBuild cfg order (NothingLeaves cfg)) (s.atTick t)
  | _ => True

section Depths

variable {cfg : MacConfig} {order : HashOrder}

theorem lostOf_eq_nil_of_sentOf {m : QueueModule} {first : MpduPacket} {link : Nat}
    (h : sentOf cfg m first link = []) : lostOf cfg m first link = [] :=
  lostOf_eq_nil_iff.2 fun x hx => by rw [h] at hx; cases hx

theorem covers_keepsDepths (cfg : MacConfig) :
    Covers cfg (NothingLeaves cfg) Entry.KeepsDepths where
  dropped := fun _ _ _ => True.intro
  built := by
    rintro m first link now ampdu airtime m' ⟨hsent, hswept⟩ -
    refine ⟨?_, ?_⟩
    · rw [hsent]
      rfl
    · rw [lostOf_eq_nil_of_sentOf hsent, hswept]
      rfl

theorem run_depthsExact {es : List Event} {s : Sim}
    (h : Run (step cfg) (noDepartures cfg) (Sim.new cfg) es s) : DepthsExact (s.ledger cfg) := by
  refine run_ledger (P := fun _ L => DepthsExact L) (covers_keepsDepths cfg)
    (fun _ _ _ htick => htick) ?_ ?_ (fun _ _ _ _ hL he hb => hb.depthsExact hL he) h
  · intro l
    rw [Ledger.onLink, queued_new]
    rfl
  · rintro os s ul t p e L' hL - hb hout
    refine hb.depthsExact hL ?_
    cases e with
    | built sent lost failed handed => exact hout.elim
    | _ => exact True.intro

/-- An iteration that takes something out of the queues makes a depth drift. -/
theorem serveLink_drifts {s s' : Sim} {x : Nat × List MacKey} (hs : Sound cfg (s.ledger cfg))
    (h : serveLink cfg order s x = some s') :
    EachBuild cfg order (NothingLeaves cfg) s x ∨ ∃ l ∈ cfg.links, Drifted (s'.ledger cfg) l := by
  rcases serveLink_booked rfl h with
    ⟨hnone, -⟩ | ⟨winner, first, ampdu, airtime, m', hc, hf, -, hbook⟩
  · exact Or.inl fun winner hc first hf =>
      absurd hf (hnone winner first (soleContender_eq_some.1 hc))
  · set m := (resolveVirtualCollision order x.1 s.mac x.2).2 with hm
    by_cases hleaves : NothingLeaves cfg m first x.1
    · refine Or.inl fun winner' hc' first' hf' => ?_
      obtain rfl := (List.cons.inj (hc.symm.trans (soleContender_eq_some.1 hc'))).1
      obtain rfl := Option.some.inj (hf.symm.trans hf')
      exact hleaves
    · right
      -- some packet left, and the depth of its link was not lowered
      have hsome : ∃ y, y ∈ unstamped (sentOf cfg m first x.1)
          + (unstamped (lostOf cfg m first x.1) + (swept cfg m first x.1).map unstamp) := by
        by_contra hno
        have hzero := Multiset.eq_zero_of_forall_notMem fun y hy => hno ⟨y, hy⟩
        rw [add_eq_zero, add_eq_zero, unstamped, Multiset.coe_eq_zero, List.map_eq_nil_iff,
          Multiset.map_eq_zero] at hzero
        exact hleaves ⟨hzero.1, hzero.2.2⟩
      obtain ⟨y, hy⟩ := hsome
      have hlink : y.1.link ∈ cfg.links := cfg.link_mem (hs.placed y (hbook.taken_mem hy)).1
      exact ⟨y.1.link, hlink, hbook.drifted_of_built hs hy⟩

theorem Bookings.drifted {Q : Entry → Prop} {L L' : Ledger} {l : Nat} (h : Bookings cfg Q L L')
    (hs : Sound cfg L) (hd : Drifted L l) : Sound cfg L' ∧ Drifted L' l :=
  h.preserves (P := fun L => Sound cfg L ∧ Drifted L l)
    (fun _ _ _ hL _ hb => ⟨hb.sound hL.1, hb.drifted hL.1 hL.2⟩) ⟨hs, hd⟩

theorem serveLinks_drifts {xs : List (Nat × List MacKey)} {s s' : Sim}
    (hs : Sound cfg (s.ledger cfg)) (h : serveLinks cfg order xs s = some s') :
    LoopAll cfg order (EachBuild cfg order (NothingLeaves cfg)) xs s ∨
      ∃ l ∈ cfg.links, Drifted (s'.ledger cfg) l := by
  have htrivial : ∀ s xs, LoopAll cfg order (EachBuild cfg order fun _ _ _ => True) xs s :=
    fun s xs => LoopAll.of_forall (fun _ _ _ _ _ _ => True.intro) xs s
  induction xs generalizing s with
  | nil => exact Or.inl True.intro
  | cons x xs ih =>
    obtain ⟨s₁, h₁, h₂⟩ := Option.bind_eq_some_iff.1 h
    have hfirst := serveLink_bookings (covers_all cfg) (htrivial s [x]).1 h₁
    have hs₁ := hfirst.preserves (fun _ _ _ hL _ hb => hb.sound hL) hs
    rcases serveLink_drifts hs h₁ with hx | ⟨l, hlink, hl⟩
    · rcases ih hs₁ h₂ with hxs | hd
      · refine Or.inl ⟨hx, fun s₂ h₂ => ?_⟩
        obtain rfl := Option.some.inj (h₁.symm.trans h₂)
        exact hxs
      · exact Or.inr hd
    · exact Or.inr ⟨l, hlink, ((serveLinks_bookings (covers_all cfg) (htrivial s₁ xs) h₂).drifted
        hs₁ hl).2⟩

theorem tick_drifts {s s' : Sim} (hs : Sound cfg (s.ledger cfg))
    (h : dequeScheduleService cfg order s = some s') :
    TickAll cfg order (EachBuild cfg order (NothingLeaves cfg)) s ∨
      ∃ l ∈ cfg.links, Drifted (s'.ledger cfg) l := by
  obtain ⟨s₁, hloop, rfl⟩ := Option.map_eq_some_iff.1 h
  have hbookings := beginTick_bookings cfg (Q := fun _ => True) order s fun _ _ _ => True.intro
  have hbegin := hbookings.preserves (fun _ _ _ hL _ hb => hb.sound hL) hs
  rw [ledger_endTick]
  exact serveLinks_drifts hbegin hloop

/-- In every run, either nothing has left so far or a depth has drifted. -/
theorem run_drifts {es : List Event} {s : Sim} (h : MacRun cfg es s) :
    Run (step cfg) (noDepartures cfg) (Sim.new cfg) es s ∨
      ∃ l ∈ cfg.links, Drifted (s.ledger cfg) l := by
  induction h with
  | start => exact Or.inl .start
  | @snoc es s s' e hrun hok hstep ih =>
    have hs := run_sound hrun
    rcases ih with hquiet | ⟨l, hlink, hl⟩
    · -- only a tick can make the first depth drift
      cases step_cases hstep with
      | offer ul t p hdue s' harr =>
        refine Or.inl (hquiet.snoc ?_ hstep)
        cases ul <;> exact True.intro
      | coords t sta c hdue => exact Or.inl (hquiet.snoc True.intro hstep)
      | tick t order hdue ht s' htick =>
        exact (tick_drifts (s := s.atTick t) hs htick).imp_left fun hall => hquiet.snoc hall hstep
      | completion i s' hc => exact Or.inl (hquiet.snoc True.intro hstep)
    · right
      refine ⟨l, hlink, ?_⟩
      cases step_cases hstep with
      | offer ul t p hdue s' harr =>
        obtain ⟨e, hb, -⟩ := arrival_booked harr
        exact hb.drifted hs hl
      | coords t sta c hdue => exact hl
      | tick t order hdue ht s' htick =>
        exact ((tick_bookings (covers_all cfg) (tickAll_trivial ..) htick).drifted hs hl).2
      | completion i s' hc =>
        rw [completion_ledger hc]
        exact hl

end Depths

/-- A packet for the station and the tick that transmits it. -/
def oneTransmission : List Event :=
  [.coords 0 200 {}, .input 0 (plainPacket 100 200 0), .tick 9000 .insertion]

/-- The transmitted packet still counts for its link. -/
theorem link_depth_outlives_transmission :
    ∃ s, MacRun oneStation oneTransmission s ∧
      s.mac.linkQueueDepths.count 0 = 1 ∧ storedIn oneStation s.mac (fun k => k.link = 0) = 0 := by
  have hrun : (runs (step oneStation) (Sim.new oneStation) oneTransmission).map (fun s =>
      (s.mac.linkQueueDepths.count 0, storedIn oneStation s.mac fun k => k.link = 0))
        = some (1, 0) := by
    decide +kernel
  obtain ⟨s, hmac, heq⟩ := exists_run_of_map hrun
  obtain ⟨hdepth, hstored⟩ := Prod.mk.inj heq
  exact ⟨s, hmac, hdepth, hstored⟩

/-- **Link depths are the true backlog exactly in the runs in which nothing is
sent.** -/
theorem link_depths_exact_iff {cfg : MacConfig} {es : List Event} {s : Sim}
    (h : MacRun cfg es s) :
    (∀ l ∈ cfg.links, s.mac.linkQueueDepths.count l = storedIn cfg s.mac fun k => k.link = l) ↔
      Run (step cfg) (noDepartures cfg) (Sim.new cfg) es s := by
  constructor
  · intro hexact
    rcases run_drifts h with hquiet | ⟨l, hlink, hdrift⟩
    · exact hquiet
    · have heq := hexact l hlink
      rw [← onLink_ledger] at heq
      exact absurd heq (Nat.ne_of_gt hdrift)
  · intro hquiet l _
    rw [← onLink_ledger]
    exact run_depthsExact hquiet l

/-- The same station behind a lossy channel whose draws are all losses. -/
def lossyStation : MacConfig :=
  { oneStation with plProbability := 1 / 10, lossDraws := fun _ => 1 / 20 }

/-- When the packet's loss draw fails it is put back, and the depth is right. -/
theorem link_depth_exact_after_loss :
    ∃ s, MacRun lossyStation oneTransmission s ∧
      Run (step lossyStation) (noDepartures lossyStation) (Sim.new lossyStation)
        oneTransmission s := by
  have hrun : (runs (step lossyStation) (Sim.new lossyStation) oneTransmission).map (fun s =>
      (s.mac.linkQueueDepths.count 0, storedIn lossyStation s.mac fun k => k.link = 0))
        = some (1, 1) := by
    decide +kernel
  obtain ⟨s, hmac, heq⟩ := exists_run_of_map hrun
  obtain ⟨hdepth, hstored⟩ := Prod.mk.inj heq
  refine ⟨s, hmac, (link_depths_exact_iff hmac).1 fun l hl => ?_⟩
  obtain rfl : l = 0 := List.mem_singleton.1 hl
  rw [hdepth, hstored]

/-! ## Arrivals, transmissions and the blocking ratio -/

/-- Offers made to the port of the other direction. The simulation offers every
packet of some sources to both ports. -/
def misdirected (os : List (Bool × MpduPacket)) : Nat := os.countP fun o => o.2.isUl ≠ o.1

/-- No packet of the build fails its loss draw and none is swept away. -/
def NothingLost (cfg : MacConfig) (m : QueueModule) (first : MpduPacket) (link : Nat) : Prop :=
  failedOf cfg m first link = [] ∧ swept cfg m first link = 0

instance (cfg : MacConfig) (m : QueueModule) (first : MpduPacket) (link : Nat) :
    Decidable (NothingLost cfg m first link) := inferInstanceAs (Decidable (_ ∧ _))

/-- The event has nothing that escapes the counters: no uplink packet finds its
queue full, and no build of a tick loses a packet. -/
def accountable (cfg : MacConfig) (s : Sim) : Event → Prop
  | .inputUL t p => p.isUl = true → ¬ UlFull cfg { s with now := t } p
  | .tick t order => TickAll cfg order (EachBuild cfg order (NothingLost cfg)) (s.atTick t)
  | _ => True

instance (cfg : MacConfig) (s : Sim) : ∀ e, Decidable (accountable cfg s e)
  | .inputUL t p => inferInstanceAs (Decidable (p.isUl = true → ¬ UlFull cfg { s with now := t } p))
  | .tick t order =>
    inferInstanceAs (Decidable (TickAll cfg order (EachBuild cfg order (NothingLost cfg))
      (s.atTick t)))
  | .input _ _ | .coords _ _ _ | .completion _ => .isTrue True.intro

section Balance

variable {cfg : MacConfig}

theorem covers_keepsBalance
    (hair : ∀ bits n src dest width, 0 < (cfg.airtimeAmpdu bits n src dest width).1) :
    Covers cfg (NothingLost cfg) Entry.KeepsBalance where
  dropped := fun _ _ _ => True.intro
  built := by
    rintro m first link now ampdu airtime m' ⟨hfailed, hswept⟩ hb
    refine ⟨?_, ?_, fun hout => ?_⟩
    · rw [hswept, lostOf, hfailed]
      rfl
    · rw [hfailed]
      rfl
    · -- with packets and an airtime the A-MPDU would go out
      have hnil : ampdu.mpduPackets = [] := by
        by_contra hne
        have hpos := build_airtime_pos hair hb hne
        simp [goesOut, hne, Nat.pos_iff_ne_zero.1 hpos] at hout
      have hpackets := (buildEffect_of_build hb).packets
      rw [hnil, List.map_nil, eq_comm, List.map_eq_nil_iff] at hpackets
      rw [hpackets]
      rfl

theorem run_balanced
    (hair : ∀ bits n src dest width, 0 < (cfg.airtimeAmpdu bits n src dest width).1)
    {es : List Event} {s : Sim} (h : Run (step cfg) (accountable cfg) (Sim.new cfg) es s) :
    Balanced (misdirected (offers es)) (s.ledger cfg) := by
  refine run_ledger (P := fun os L => Balanced (misdirected os) L) (covers_keepsBalance hair)
    (fun _ _ _ htick => htick) ?_ ?_ (fun _ _ _ _ hL he hb => hb.balanced hL he) h
  · unfold Balanced
    rw [queued_new]
    rfl
  · intro os s ul t p e L' hL hok hb hout
    have hcount : misdirected (os ++ [(ul, p)])
        = misdirected os + if p.isUl ≠ ul then 1 else 0 := by
      simp [misdirected, List.countP_append, List.countP_cons]
    rw [hcount]
    cases e with
    | ignored =>
      -- A wrong direction is counted as such; a full port is excluded.
      rcases hout with hdir | ⟨rfl, hul, hfull⟩
      · rw [if_pos hdir]
        exact hb.balanced_ignored hL
      · exact absurd hfull (hok hul)
    | refused =>
      have hdir : p.isUl = ul := hout
      rw [if_neg (not_not.2 hdir), add_zero]
      refine hb.balanced hL ?_
      exact True.intro
    | stored k q =>
      rw [if_neg (not_not.2 hout.1), add_zero]
      refine hb.balanced hL ?_
      exact True.intro
    | dropped k ps fs => exact hout.elim
    | built sent lost failed handed => exact hout.elim

end Balance

/-- A packet whose loss draw fails is counted as blocked and is still queued. -/
theorem failed_draw_counts_as_blocked :
    ∃ s, MacRun lossyStation oneTransmission s ∧ misdirected (offers oneTransmission) = 0 ∧
      s.mac.arrivedPacketCounter = 1 ∧ s.mac.totalQueued lossyStation = 1 ∧ s.handed = 0 ∧
      s.mac.blockedPacketCounter = 1 := by
  have hrun : (runs (step lossyStation) (Sim.new lossyStation) oneTransmission).map (fun s =>
      (s.mac.arrivedPacketCounter, s.mac.totalQueued lossyStation, s.handed,
        s.mac.blockedPacketCounter)) = some (1, 1, 0, 1) := by
    decide +kernel
  obtain ⟨s, hmac, heq⟩ := exists_run_of_map hrun
  simp only [Prod.mk.injEq] at heq
  exact ⟨s, hmac, by decide, heq.1, heq.2.1, heq.2.2.1, heq.2.2.2⟩

/-- **Arrivals are queued, handed over or blocked** in every state of a run in
which nothing escapes the counters. -/
theorem arrivals_balanced {cfg : MacConfig}
    (hair : ∀ bits n src dest width, 0 < (cfg.airtimeAmpdu bits n src dest width).1)
    {es : List Event} {s : Sim} (h : Run (step cfg) (accountable cfg) (Sim.new cfg) es s) :
    s.mac.arrivedPacketCounter = s.mac.totalQueued cfg + s.handed + s.mac.blockedPacketCounter
      + misdirected (offers es) := by
  rw [← card_queued_ledger]
  exact run_balanced hair h

/-- Queues for one packet. -/
def singleQueues : MacConfig :=
  { oneStation with queueMaxsizeDl := 1, ulCapacityQueueDevice := 1, ul_le_dl := le_refl 1 }

/-- The first packet is delivered, the second finds the queue full and is also offered to the
other port, the third waits. -/
def fourOffers : List Event :=
  [.coords 0 200 {}, .input 0 (plainPacket 100 200 0), .input 0 (plainPacket 100 200 1),
    .inputUL 0 (plainPacket 100 200 1), .tick 9000 .insertion, .completion 0,
    .input 300000 (plainPacket 100 200 2)]

theorem four_offers_balanced :
    ∃ s, Run (step singleQueues) (accountable singleQueues) (Sim.new singleQueues) fourOffers s ∧
      s.mac.arrivedPacketCounter = 4 ∧ s.handed = 1 ∧ s.mac.blockedPacketCounter = 1 ∧
      misdirected (offers fourOffers) = 1 ∧ s.mac.totalQueued singleQueues = 1 := by
  have hok : allOk (step singleQueues) (accountable singleQueues) (Sim.new singleQueues)
      fourOffers := by
    decide +kernel
  have hrun : (runs (step singleQueues) (Sim.new singleQueues) fourOffers).map (fun s =>
      (s.mac.arrivedPacketCounter, s.handed, s.mac.blockedPacketCounter)) = some (4, 1, 1) := by
    decide +kernel
  obtain ⟨s, hs, heq⟩ := Option.map_eq_some_iff.1 hrun
  simp only [Prod.mk.injEq] at heq
  obtain ⟨harr, hhanded, hblocked⟩ := heq
  have h := Run.of_runs hok hs
  have hair : ∀ bits n src dest width,
      0 < (singleQueues.airtimeAmpdu bits n src dest width).1 :=
    airtimeAmpdu_pos {} fun _ _ => 50
  have hbal := arrivals_balanced hair h
  have hmis : misdirected (offers fourOffers) = 1 := by decide
  exact ⟨s, h, harr, hhanded, hblocked, hmis, by omega⟩

end SiestaVR.Mac
