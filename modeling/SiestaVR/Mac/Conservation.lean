import SiestaVR.Mac.BuildEffect
import Mathlib.Data.Multiset.OrderedMonoid
import Mathlib.Algebra.Order.Sub.Basic
import Mathlib.Tactic.Abel

/-!
# Conservation of packets by one build

Where the packets of the queues are after a build: still queued, sent in the
A-MPDU, or gone. They can go in two ways, and both are made explicit:

- `lostOf`: a packet that failed its loss draw is put back only if no packet
  sent in the same A-MPDU has its bare packet id. Uplink packets of one source
  to different destinations, and downlink packets of different sources to one
  destination, may share an id.
- `sweptIn`: a queue that contributed is cleared of every packet whose removal
  key was aggregated. With `XRSIM_DL_ID_LEGACY` that key is the bare id.

`queued_build` is the balance over all queues, for every state. The main result
says that packets are conserved exactly when neither happens.
-/

namespace SiestaVR.Mac

open Lib

section Balance

variable (cfg : MacConfig) (m : QueueModule) (first : MpduPacket) (linkId : Nat)

/-- Failed packets that are not put back. -/
def lostOf : List (MacKey × MpduPacket) :=
  (failedOf cfg m first linkId).filter fun x => idSent cfg m first linkId x.2

/-- Packets of a queue that are removed without having been aggregated. -/
def sweptIn (k : MacKey) : Multiset MpduPacket :=
  if first.isUl then 0
  else if involved cfg m first linkId k then
    (((m.perFlowQueues k).filter fun p => keyTaken cfg m first linkId p : List _) : Multiset _)
      - (fiber (aggregated cfg m first linkId) k : Multiset _)
  else 0

/-- All packets removed without having been aggregated. -/
def swept : Multiset (MacKey × MpduPacket) := contents cfg.macKeys (sweptIn cfg m first linkId)

variable {cfg m first linkId}

theorem mem_fiber_keyTaken {k : MacKey} {p : MpduPacket}
    (hp : p ∈ fiber (aggregated cfg m first linkId) k) : keyTaken cfg m first linkId p = true := by
  simp only [keyTaken, List.contains_eq_mem, decide_eq_true_eq]
  exact List.mem_map.2 ⟨(k, p), mem_fiber.1 hp, rfl⟩

theorem fiber_eq_nil_of_not_involved {k : MacKey} (h : involved cfg m first linkId k = false) :
    fiber (aggregated cfg m first linkId) k = [] := by
  refine List.eq_nil_iff_forall_not_mem.2 fun p hp => ?_
  have : involved cfg m first linkId k = true := by
    simp only [involved, decide_eq_true_eq]
    exact List.mem_map.2 ⟨(k, p), mem_fiber.1 hp, rfl⟩
  rw [h] at this
  cases this

theorem fiber_le_removed (k : MacKey) :
    (fiber (aggregated cfg m first linkId) k : Multiset MpduPacket)
      ≤ ((m.perFlowQueues k).filter fun p => keyTaken cfg m first linkId p : List _) := by
  have hsub : (fiber (aggregated cfg m first linkId) k).Sublist (m.perFlowQueues k) :=
    (fiber_aggregated_initial cfg m first linkId k).sublist.trans List.filter_sublist
  have hfil := hsub.filter fun p => keyTaken cfg m first linkId p
  rw [List.filter_eq_self.2 fun p hp => mem_fiber_keyTaken hp] at hfil
  exact Multiset.coe_le.2 hfil.subperm

variable (cfg m first linkId) in
/-- **Balance of one queue**: kept, aggregated, swept. -/
theorem queue_split (k : MacKey) :
    (m.perFlowQueues k : Multiset MpduPacket)
      = keptIn cfg m first linkId k + fiber (aggregated cfg m first linkId) k
        + sweptIn cfg m first linkId k := by
  unfold keptIn sweptIn
  by_cases hul : first.isUl = true
  · obtain ⟨rest, hrest⟩ := fiber_aggregated_uplink cfg m linkId hul k
    simp only [hul, if_true, add_zero]
    rw [← hrest, List.drop_left, Multiset.coe_add, Multiset.coe_eq_coe]
    exact List.perm_append_comm
  · simp only [hul]
    by_cases hinv : involved cfg m first linkId k = true
    · simp only [hinv, if_true, Bool.false_eq_true, if_false]
      rw [add_assoc, add_tsub_cancel_of_le (fiber_le_removed k), Multiset.coe_add,
        Multiset.coe_eq_coe]
      have hperm := List.filter_append_perm (fun p => keyTaken cfg m first linkId p)
        (m.perFlowQueues k)
      exact (hperm.symm).trans List.perm_append_comm
    · have hinv : involved cfg m first linkId k = false := by simpa using hinv
      simp [hinv, fiber_eq_nil_of_not_involved hinv]

variable (cfg m first linkId) in
/-- **Balance of one A-MPDU**: what was aggregated is sent, put back or lost. -/
theorem aggregated_split :
    (aggregated cfg m first linkId : Multiset (MacKey × MpduPacket))
      = sentOf cfg m first linkId + putBackOf cfg m first linkId + lostOf cfg m first linkId := by
  have hsplit := survivors_add_casualties cfg.plProbability m.rng (aggregated cfg m first linkId)
  have hsent : (sentOf cfg m first linkId).filter (fun x => idSent cfg m first linkId x.2)
      = sentOf cfg m first linkId := by
    refine List.filter_eq_self.2 fun x hx => ?_
    simp only [idSent, decide_eq_true_eq]
    exact List.mem_map.2 ⟨x, hx, rfl⟩
  have hmatched : ((aggregated cfg m first linkId).filter
        (fun x => idSent cfg m first linkId x.2) : Multiset (MacKey × MpduPacket))
      = sentOf cfg m first linkId + lostOf cfg m first linkId := by
    have h := congrArg (Multiset.filter fun x => idSent cfg m first linkId x.2 = true) hsplit
    rw [Multiset.filter_add, Multiset.filter_coe, Multiset.filter_coe, Multiset.filter_coe] at h
    simp only [Bool.decide_eq_true] at h
    rw [← h, lostOf, failedOf]
    congr 2
  have hperm := List.filter_append_perm (fun x => idSent cfg m first linkId x.2)
    (aggregated cfg m first linkId)
  rw [← Multiset.coe_eq_coe.2 hperm, ← Multiset.coe_add, hmatched, add_right_comm]
  rfl

theorem contents_unstamped {T : List (MacKey × MpduPacket)} (hT : ∀ x ∈ T, x.1 ∈ cfg.macKeys) :
    contents cfg.macKeys (fun k => unstampedPackets (fiber T k)) = unstamped T := by
  have hT' : ∀ x ∈ T.map unstamp, x.1 ∈ cfg.macKeys := by
    intro x hx
    obtain ⟨y, hy, rfl⟩ := List.mem_map.1 hx
    exact hT y hy
  rw [unstamped, ← contents_fiber cfg.macKeys_nodup _ hT']
  exact contents_congr fun k _ => by rw [unstampedPackets, fiber_unstamp]

theorem queued_before (hkey : cfg.hasKey (ampduKey first linkId) = true) :
    m.queued cfg
      = contents cfg.macKeys (fun k => unstampedPackets (keptIn cfg m first linkId k))
        + unstamped (aggregated cfg m first linkId) + (swept cfg m first linkId).map unstamp := by
  have hkeys : ∀ x ∈ aggregated cfg m first linkId, x.1 ∈ cfg.macKeys := fun x hx =>
    cfg.mem_macKeys.2 (aggregated_hasKey hkey hx)
  have hmap : (swept cfg m first linkId).map unstamp
      = contents cfg.macKeys fun k => (sweptIn cfg m first linkId k).map
          MpduPacket.withoutStamps := (contents_map _ _ _).symm
  rw [← contents_unstamped hkeys, hmap, ← contents_add, ← contents_add]
  refine contents_congr fun k _ => ?_
  have h := congrArg (Multiset.map MpduPacket.withoutStamps) (queue_split cfg m first linkId k)
  rw [Multiset.map_add, Multiset.map_add] at h
  exact h

/-- **Balance of a build** over all queues, up to stamps. -/
theorem queued_build {now airtime : Nat} {ampdu : AmpduPacket} {m' : QueueModule}
    (he : BuildEffect cfg m first linkId now ampdu airtime m') :
    m.queued cfg = m'.queued cfg + unstamped (sentOf cfg m first linkId)
      + unstamped (lostOf cfg m first linkId) + (swept cfg m first linkId).map unstamp := by
  have hafter : m'.queued cfg = unstamped (putBackOf cfg m first linkId)
        + contents cfg.macKeys (fun k => unstampedPackets (keptIn cfg m first linkId k)) := by
    rw [← contents_unstamped (T := putBackOf cfg m first linkId) fun x hx =>
      cfg.mem_macKeys.2 (aggregated_hasKey he.hasKey (List.mem_filter.1 hx).1), ← contents_add]
    refine contents_congr fun k _ => ?_
    rw [← unstampedPackets_append, unstampedPackets, he.queues k]
    rfl
  have hagg : unstamped (aggregated cfg m first linkId) = unstamped (sentOf cfg m first linkId)
      + unstamped (putBackOf cfg m first linkId) + unstamped (lostOf cfg m first linkId) := by
    have h := congrArg (Multiset.map unstamp) (aggregated_split cfg m first linkId)
    rw [Multiset.map_add, Multiset.map_add] at h
    exact h
  rw [queued_before he.hasKey, hafter, hagg]
  abel

end Balance

/-! ## When packets are conserved -/

section Conserved

variable (cfg : MacConfig) (m : QueueModule) (first : MpduPacket) (linkId : Nat)

/-- Every queued packet is named by its source, destination and id. -/
def DistinctPackets : Prop := ((m.queued cfg).map fun x => x.2.triple).Nodup

/-- Building turned `m` into `m'` and the A-MPDU without losing or doubling a
packet. -/
def Conserved (ampdu : AmpduPacket) (m' : QueueModule) : Prop :=
  (m.queued cfg).map Prod.snd = (m'.queued cfg).map Prod.snd + unstampedPackets ampdu.mpduPackets

/-- No id clash: no failed packet has the id of a sent one and, if downlink
packets are removed by their bare id, no other packet of a queue that
contributed has the id of an aggregated one. -/
structure NoIdClash : Prop where
  loss : ∀ x ∈ sentOf cfg m first linkId, ∀ y ∈ failedOf cfg m first linkId,
    x.2.packetId ≠ y.2.packetId
  legacy : cfg.dlPacketIdLegacy = true → first.isUl = false →
    ∀ x ∈ aggregated cfg m first linkId, ∀ y ∈ aggregated cfg m first linkId,
      ∀ p ∈ m.perFlowQueues x.1, p.packetId = y.2.packetId →
        (x.1, p) ∈ aggregated cfg m first linkId

variable {cfg m first linkId}

theorem DistinctPackets.eq_of_triple (hd : DistinctPackets cfg m) {x y : MacKey × MpduPacket}
    (hx : x ∈ m.queued cfg) (hy : y ∈ m.queued cfg) (h : x.2.triple = y.2.triple) : x = y :=
  Multiset.inj_on_of_nodup_map hd x hx y hy h

theorem mem_queued {k : MacKey} (hk : k ∈ cfg.macKeys) {p : MpduPacket}
    (hp : p ∈ m.perFlowQueues k) : (k, p.withoutStamps) ∈ m.queued cfg :=
  mem_contents.2 ⟨hk, List.mem_map.2 ⟨p, hp, rfl⟩⟩

theorem DistinctPackets.nodup_queue (hd : DistinctPackets cfg m) {k : MacKey}
    (hk : k ∈ cfg.macKeys) : ((m.perFlowQueues k).map MpduPacket.triple).Nodup := by
  have hle := Multiset.map_le_map (f := fun x : MacKey × MpduPacket => x.2.triple)
    (map_le_contents (s := fun k => unstampedPackets (m.perFlowQueues k)) hk)
  have hn := Multiset.nodup_of_le hle hd
  simpa [unstampedPackets, Function.comp_def] using hn

theorem lostOf_eq_nil_iff : lostOf cfg m first linkId = [] ↔
    ∀ x ∈ sentOf cfg m first linkId, ∀ y ∈ failedOf cfg m first linkId,
      x.2.packetId ≠ y.2.packetId := by
  rw [lostOf, List.filter_eq_nil_iff]
  constructor
  · intro h x hx y hy heq
    refine h y hy ?_
    simp only [idSent, decide_eq_true_eq]
    exact List.mem_map.2 ⟨x, hx, heq⟩
  · intro h y hy hsent
    simp only [idSent, decide_eq_true_eq] at hsent
    obtain ⟨x, hx, heq⟩ := List.mem_map.1 hsent
    exact h x hx y hy heq

/-- Nothing is swept from a queue without repetitions exactly when every packet
of it whose key was aggregated was itself aggregated. -/
theorem sweptIn_eq_zero_iff {k : MacKey} (hn : (m.perFlowQueues k).Nodup)
    (hdl : first.isUl = false) (hinv : involved cfg m first linkId k = true) :
    sweptIn cfg m first linkId k = 0 ↔
      ∀ p ∈ m.perFlowQueues k, keyTaken cfg m first linkId p = true →
        (k, p) ∈ aggregated cfg m first linkId := by
  simp only [sweptIn, hdl, hinv, Bool.false_eq_true, if_false, if_true]
  rw [tsub_eq_zero_iff_le,
    Multiset.le_iff_subset (Multiset.coe_nodup.2 (hn.filter _)), Multiset.coe_subset]
  constructor
  · intro h p hp hkt
    exact mem_fiber.1 (h (List.mem_filter.2 ⟨hp, hkt⟩))
  · intro h p hp
    obtain ⟨hp, hkt⟩ := List.mem_filter.1 hp
    exact mem_fiber.2 (h p hp hkt)

theorem mem_aggregated_of_keyTaken (hd : DistinctPackets cfg m)
    (hkey : cfg.hasKey (ampduKey first linkId) = true) (hleg : cfg.dlPacketIdLegacy = false)
    {k : MacKey} (hk : k ∈ cfg.macKeys) {p : MpduPacket} (hp : p ∈ m.perFlowQueues k)
    (hkt : keyTaken cfg m first linkId p = true) : (k, p) ∈ aggregated cfg m first linkId := by
  simp only [keyTaken, List.contains_eq_mem, decide_eq_true_eq] at hkt
  obtain ⟨⟨j, q⟩, hx, heq⟩ := List.mem_map.1 hkt
  have htriple : q.triple = p.triple := by simpa [idKey, hleg] using heq
  have hj : j ∈ cfg.macKeys := cfg.mem_macKeys.2 (aggregated_hasKey hkey hx)
  have hq := (mem_queue_of_aggregated hx).1
  obtain ⟨rfl, -⟩ := Prod.mk.inj (hd.eq_of_triple (mem_queued hj hq) (mem_queued hk hp) htriple)
  obtain rfl : q = p := List.inj_on_of_nodup_map (hd.nodup_queue hk) hq hp htriple
  exact hx

/-- Nothing is swept if and only if no queue is. -/
theorem swept_eq_zero_iff_forall : swept cfg m first linkId = 0 ↔
    ∀ k ∈ cfg.macKeys, sweptIn cfg m first linkId k = 0 := by
  constructor
  · intro h k hk
    have hle := map_le_contents (s := sweptIn cfg m first linkId) hk
    rw [show contents cfg.macKeys (sweptIn cfg m first linkId) = 0 from h] at hle
    exact Multiset.map_eq_zero.1 (Multiset.le_zero.1 hle)
  · intro h
    rw [swept, contents_congr h, contents_zero]

theorem swept_eq_zero_iff (hd : DistinctPackets cfg m)
    (hkey : cfg.hasKey (ampduKey first linkId) = true) :
    swept cfg m first linkId = 0 ↔
      (cfg.dlPacketIdLegacy = true → first.isUl = false →
        ∀ x ∈ aggregated cfg m first linkId, ∀ y ∈ aggregated cfg m first linkId,
          ∀ p ∈ m.perFlowQueues x.1, p.packetId = y.2.packetId →
            (x.1, p) ∈ aggregated cfg m first linkId) := by
  have hnodup : ∀ k ∈ cfg.macKeys, (m.perFlowQueues k).Nodup := fun k hk =>
    (hd.nodup_queue hk).of_map _
  rw [swept_eq_zero_iff_forall]
  constructor
  · intro h hleg hdl x hx y hy p hp hid
    have hk : x.1 ∈ cfg.macKeys := cfg.mem_macKeys.2 (aggregated_hasKey hkey hx)
    have hinv : involved cfg m first linkId x.1 = true := by
      simp only [involved, decide_eq_true_eq]
      exact List.mem_map.2 ⟨x, hx, rfl⟩
    refine (sweptIn_eq_zero_iff (hnodup _ hk) hdl hinv).1 (h _ hk) p hp ?_
    simp only [keyTaken, List.contains_eq_mem, decide_eq_true_eq]
    exact List.mem_map.2 ⟨y, hy, by simp [idKey, hleg, hid]⟩
  · intro h k hk
    by_cases hul : first.isUl = true
    · simp [sweptIn, hul]
    have hdl : first.isUl = false := by simpa using hul
    by_cases hinv : involved cfg m first linkId k = true
    · refine (sweptIn_eq_zero_iff (hnodup k hk) hdl hinv).2 fun p hp hkt => ?_
      -- by bare id the condition decides, by full key only aggregated packets match
      by_cases hleg : cfg.dlPacketIdLegacy = true
      · simp only [keyTaken, involved, List.contains_eq_mem, decide_eq_true_eq] at hkt hinv
        obtain ⟨x, hx, rfl⟩ := List.mem_map.1 hinv
        obtain ⟨y, hy, heq⟩ := List.mem_map.1 hkt
        exact h hleg hdl x hx y hy p hp (by simpa [idKey, hleg] using heq.symm)
      · exact mem_aggregated_of_keyTaken hd hkey (by simpa using hleg) hk hp hkt
    · simp [sweptIn, hdl, hinv]

/-- Two sources that both number their packets from 0 and feed station 200, with
the first of two loss draws a loss. -/
def sharedDestination : MacConfig :=
  { plainConfig [100, 101, 200] [0] (by decide) (by decide) oneStation.links_nodup with
    plProbability := 1 / 10
    lossDraws := fun n => if n = 0 then 1 / 20 else 1 / 2 }

/-- Packet 0 of both sources in the access point's best-effort queue. -/
def sharedDestinationQueues : QueueModule :=
  { QueueModule.new sharedDestination with
    staCoordsMap := fun _ => some {}
    perFlowQueues := fun k =>
      if k = ⟨-1, .bestEffort, 0⟩ then [plainPacket 100 200 0, plainPacket 101 200 0] else [] }

/-- The build for the two sources' packets. -/
def sharedDestinationBuild : Option (AmpduPacket × Nat × QueueModule) :=
  buildNewAmpdu sharedDestination sharedDestinationQueues (plainPacket 100 200 0) 0 0

/-- The failed packet 0 of station 100 is neither sent nor put back, since packet
0 of station 101 was sent. -/
theorem build_loses_packet_of_shared_id :
    DistinctPackets sharedDestination sharedDestinationQueues ∧
      (∃ r, sharedDestinationBuild = some r) ∧
      ∀ r, sharedDestinationBuild = some r →
        ¬ Conserved sharedDestination sharedDestinationQueues r.1 r.2.2 := by
  have hlost : (sharedDestinationBuild.map fun r =>
      (r.1.mpduPackets.length, (r.2.2.queued sharedDestination).card)) = some (1, 0) := by
    decide +kernel
  have hbefore : (sharedDestinationQueues.queued sharedDestination).card = 2 := by decide +kernel
  refine ⟨by unfold DistinctPackets; decide +kernel, ?_, fun r hr hcons => ?_⟩
  · cases hb : sharedDestinationBuild with
    | none => simp [hb] at hlost
    | some r => exact ⟨r, rfl⟩
  · have hcard := congrArg Multiset.card hcons
    simp only [hr, Option.map_some, Option.some.injEq, Prod.mk.injEq] at hlost
    rw [Multiset.card_map, Multiset.card_add, Multiset.card_map, card_unstampedPackets, hbefore,
      hlost.1, hlost.2] at hcard
    omega

/-- **A build conserves packets exactly when no ids clash.** -/
theorem buildNewAmpdu_conserved_iff {now airtime : Nat} {ampdu : AmpduPacket} {m' : QueueModule}
    (hd : DistinctPackets cfg m)
    (h : buildNewAmpdu cfg m first linkId now = some (ampdu, airtime, m')) :
    Conserved cfg m ampdu m' ↔ NoIdClash cfg m first linkId := by
  have he := buildEffect_of_build h
  have hbal := congrArg (Multiset.map Prod.snd) (queued_build he)
  have hpackets : (unstamped (sentOf cfg m first linkId)).map Prod.snd
      = unstampedPackets ampdu.mpduPackets := by
    rw [unstampedPackets, he.packets]
    simp [unstamped, Function.comp_def]
  rw [Multiset.map_add, Multiset.map_add, Multiset.map_add, hpackets] at hbal
  -- nothing was lost and nothing swept
  have hcons : Conserved cfg m ampdu m' ↔
      lostOf cfg m first linkId = [] ∧ swept cfg m first linkId = 0 := by
    rw [Conserved, hbal, add_assoc, add_eq_left, add_eq_zero, Multiset.map_eq_zero,
      Multiset.map_eq_zero, Multiset.map_eq_zero, unstamped, Multiset.coe_eq_zero,
      List.map_eq_nil_iff]
  rw [hcons, lostOf_eq_nil_iff, swept_eq_zero_iff hd he.hasKey]
  constructor
  · rintro ⟨hnone, hswept⟩
    exact ⟨hnone, hswept⟩
  · rintro ⟨hnone, hswept⟩
    exact ⟨hnone, hswept⟩

/-- Packets 0 and 1 of one source in the same queue. -/
def oneFlowQueues : QueueModule :=
  { sharedDestinationQueues with
    perFlowQueues := fun k =>
      if k = ⟨-1, .bestEffort, 0⟩ then [plainPacket 100 200 0, plainPacket 100 200 1] else [] }

/-- With different ids the failed packet is put back. -/
theorem build_conserves_one_flow :
    ∃ r, buildNewAmpdu sharedDestination oneFlowQueues (plainPacket 100 200 0) 0 0 = some r ∧
      Conserved sharedDestination oneFlowQueues r.1 r.2.2 := by
  have hd : DistinctPackets sharedDestination oneFlowQueues := by
    unfold DistinctPackets
    decide +kernel
  have hclash : NoIdClash sharedDestination oneFlowQueues (plainPacket 100 200 0) 0 :=
    ⟨by decide +kernel, fun h => absurd h (by decide)⟩
  obtain ⟨r, hr⟩ := Option.isSome_iff_exists.1
    (by decide +kernel : (buildNewAmpdu sharedDestination oneFlowQueues
      (plainPacket 100 200 0) 0 0).isSome = true)
  exact ⟨r, hr, (buildNewAmpdu_conserved_iff hd hr).2 hclash⟩

end Conserved

end SiestaVR.Mac
