import SiestaVR.Mac.Airtime
import SiestaVR.Mac.Dcf
import SiestaVR.Mac.Stats
import SiestaVR.Lib.Shelves
import Mathlib.Data.List.Sort

/-!
# State of the MAC (lib/models_mm1k.rs:2479–2711)

`MacConfig` is what `QueueModule::new` is given and never changes: stations,
links, capabilities, limits, the random streams, and the airtime function.
`QueueModule` is the mutable part. `Sim` adds what the handlers see of the
simulator: the current time, the events they have scheduled, and what left
through the output ports.

Two reading aids:

- Per-flow queues and contention functions are functions of their `MacKey`.
  The source stores them in vectors behind `mac_key_index`; a key absent from
  that index is a key that is not in `MacConfig.macKeys`, and looking it up
  aborts.
- `Sim.occupations` and `Sim.countdowns` record every occupation of a link and
  every decrement of a back-off counter, newest first. The source emits them as
  visualisation events; no handler reads them.
-/

namespace SiestaVR.Mac

open Lib

/-- What the MAC is configured with. -/
structure MacConfig where
  /-- Station ids, in the order of `vec_ids`. -/
  staIds : List Int
  /-- Link ids, in the order of `link_configs`. -/
  links : List Nat
  /-- The order in which iterating `link_mediums` visits the links. -/
  mediumOrder : List Nat
  linkChannelWidths : Nat → Nat
  /-- `sta_capabilities`: the links of a station, if it registered any. -/
  staCapabilities : Int → Option (List Nat)
  mloLinkselectionStrat : LinkSelectionStrategy
  packsPerAmpdu : Nat
  plProbability : ℚ
  /-- `DOWNLINK_QUEUE_SIZE` unless set otherwise. -/
  queueMaxsizeDl : Nat := 8192
  /-- `UPLINK_QUEUE_SIZE` unless set otherwise. -/
  ulCapacityQueueDevice : Nat := 1024
  coordsQueue : Coords := {}
  /-- `dl_packet_id_legacy`, the environment switch `XRSIM_DL_ID_LEGACY`. -/
  dlPacketIdLegacy : Bool := false
  /-- `airtime_ampdu`: padded bits, MPDUs, both positions, channel width. -/
  airtimeAmpdu : Nat → Nat → Coords → Coords → Nat → Nat × Nat
  edcafDraws : MacKey → Nat → Nat
  lossDraws : Nat → ℚ
  linkDraws : Nat → Bool
  staIds_nodup : staIds.Nodup
  ap_notMem : (-1 : Int) ∉ staIds
  links_nodup : links.Nodup
  mediumOrder_perm : mediumOrder.Perm links
  ul_le_dl : ulCapacityQueueDevice ≤ queueMaxsizeDl

/-- A plain configuration to run the MAC with: 80 MHz links, 50 dB path loss, no
registered capabilities, no losses, every random draw the least possible. -/
def plainConfig (staIds : List Int) (links : List Nat) (hs : staIds.Nodup)
    (hap : (-1 : Int) ∉ staIds) (hl : links.Nodup) : MacConfig where
  staIds := staIds
  links := links
  mediumOrder := links
  linkChannelWidths := fun _ => 80
  staCapabilities := fun _ => none
  mloLinkselectionStrat := .primaryFirst
  packsPerAmpdu := 64
  plProbability := 0
  airtimeAmpdu := airtimeAmpdu {} fun _ _ => 50
  edcafDraws := fun _ _ => 0
  lossDraws := fun _ => 1
  linkDraws := fun _ => true
  staIds_nodup := hs
  ap_notMem := hap
  links_nodup := hl
  mediumOrder_perm := .refl links
  ul_le_dl := by decide

/-- One station and one link. -/
def oneStation : MacConfig := plainConfig [200] [0] (by decide) (by decide) (by decide)

/-- Two stations and one link. -/
def twoStations : MacConfig := plainConfig [200, 201] [0] (by decide) (by decide) (by decide)

/-- Two links, every back-off draw zero. -/
def twoLinks : MacConfig := plainConfig [200] [0, 1] (by decide) (by decide) (by decide)

namespace MacConfig

variable (cfg : MacConfig)

/-- Stations and access point, in table order (the access point last). -/
def owners : List Int := cfg.staIds ++ [-1]

/-- The keys of `mac_key_index`, in table order. -/
def macKeys : List MacKey :=
  cfg.owners.flatMap fun sta =>
    cfg.links.flatMap fun link => EdcaAc.all.map fun ac => ⟨sta, ac, link⟩

/-- Whether `mac_key_index` has the key. -/
def hasKey (k : MacKey) : Bool := k.sta ∈ cfg.owners && k.link ∈ cfg.links

theorem mem_macKeys {k : MacKey} : k ∈ cfg.macKeys ↔ cfg.hasKey k = true := by
  obtain ⟨sta, ac, link⟩ := k
  simp only [macKeys, hasKey, List.mem_flatMap, List.mem_map, Bool.and_eq_true,
    decide_eq_true_eq]
  constructor
  · rintro ⟨s, hs, l, hl, a, -, heq⟩
    obtain ⟨rfl, rfl, rfl⟩ := MacKey.mk.inj heq
    exact ⟨hs, hl⟩
  · rintro ⟨hs, hl⟩
    exact ⟨sta, hs, link, hl, ac, EdcaAc.mem_all ac, rfl⟩

theorem link_mem {k : MacKey} (h : k ∈ cfg.macKeys) : k.link ∈ cfg.links := by
  have hkey := cfg.mem_macKeys.1 h
  simp only [hasKey, Bool.and_eq_true, decide_eq_true_eq] at hkey
  exact hkey.2

theorem mem_macKeys_of_link {k : MacKey} (h : k ∈ cfg.macKeys) {l : Nat} (hl : l ∈ cfg.links) :
    { k with link := l } ∈ cfg.macKeys := by
  rw [mem_macKeys] at h ⊢
  simp only [hasKey, Bool.and_eq_true, decide_eq_true_eq] at h ⊢
  exact ⟨h.1, hl⟩

theorem owners_nodup : cfg.owners.Nodup := by
  refine List.nodup_append.2 ⟨cfg.staIds_nodup, List.nodup_singleton _, ?_⟩
  intro a ha b hb hab
  rw [List.mem_singleton] at hb
  exact cfg.ap_notMem (hb ▸ hab ▸ ha)

theorem macKeys_nodup : cfg.macKeys.Nodup := by
  refine List.nodup_flatMap.2 ⟨fun sta _ => ?_, ?_⟩
  · refine List.nodup_flatMap.2 ⟨fun link _ => ?_, ?_⟩
    · exact (by decide : EdcaAc.all.Nodup).map fun a b h => (MacKey.mk.inj h).2.1
    · refine cfg.links_nodup.imp fun {l l'} hne => ?_
      simp only [Function.onFun, List.disjoint_left, List.mem_map]
      rintro k ⟨a, -, rfl⟩ ⟨b, -, h⟩
      exact hne (MacKey.mk.inj h).2.2.symm
  · refine cfg.owners_nodup.imp fun {s s'} hne => ?_
    simp only [Function.onFun, List.disjoint_left, List.mem_flatMap, List.mem_map]
    rintro k ⟨l, -, a, -, rfl⟩ ⟨l', -, b, -, h⟩
    exact hne (MacKey.mk.inj h).1.symm

/-- The links other than `linkId` in ascending order, as the STR+ fallbacks
visit them (`keys()`, `filter`, `sort_unstable`). -/
def otherLinks (linkId : Nat) : List Nat :=
  (cfg.mediumOrder.filter (· ≠ linkId)).insertionSort (· ≤ ·)

theorem mem_otherLinks {linkId l : Nat} :
    l ∈ cfg.otherLinks linkId ↔ l ∈ cfg.links ∧ l ≠ linkId := by
  simp [otherLinks, List.mem_insertionSort, cfg.mediumOrder_perm.mem_iff]

theorem otherLinks_nodup (linkId : Nat) : (cfg.otherLinks linkId).Nodup :=
  (List.perm_insertionSort _ _).nodup_iff.2
    ((cfg.mediumOrder_perm.nodup_iff.2 cfg.links_nodup).filter _)

end MacConfig

/-- The packets of a queue as a multiset, without their stamps. -/
def unstampedPackets (ps : List MpduPacket) : Multiset MpduPacket :=
  ↑(ps.map MpduPacket.withoutStamps)

@[simp] theorem unstampedPackets_append (ps qs : List MpduPacket) :
    unstampedPackets (ps ++ qs) = unstampedPackets ps + unstampedPackets qs := by
  simp [unstampedPackets]

@[simp] theorem card_unstampedPackets (ps : List MpduPacket) :
    Multiset.card (unstampedPackets ps) = ps.length := by
  simp [unstampedPackets]

/-- `QueueModule`, the mutable part. -/
structure QueueModule where
  rng : DrawStream ℚ
  linkRng : DrawStream Bool
  perFlowQueues : MacKey → List MpduPacket
  linkIsTransmitting : Nat → Bool
  blockedPacketCounter : Nat
  arrivedPacketCounter : Nat
  queueLengthCounter : Nat
  staCoordsMap : Int → Option Coords
  cumulativeStatsQueue : QueueStats
  /-- Records sent on `stats_tx` and not yet received from `stats_rx`. -/
  statsChannel : List StatsUpdate
  /-- `sta_stats_cache`, of which the MAC reads only `packet_count`. -/
  staStatsCache : CountMap (Int × Int)
  ampduId : Nat
  linkMediums : Nat → Medium
  linkQueueDepths : CountMap Nat
  dcfValues : MacKey → DcfStats
  windowMetricsMcsUtil : WindowKey → WindowMetrics
  outputMetrics : List WindowMetricReport
  activeMacKeyCounts : CountMap (Int × EdcaAc)
  slotTickPending : Bool

/-- `QueueModule::new`. -/
def QueueModule.new (cfg : MacConfig) : QueueModule where
  rng := DrawStream.fresh cfg.lossDraws
  linkRng := DrawStream.fresh cfg.linkDraws
  perFlowQueues := fun _ => []
  linkIsTransmitting := fun _ => false
  blockedPacketCounter := 0
  arrivedPacketCounter := 0
  queueLengthCounter := 0
  staCoordsMap := fun _ => none
  cumulativeStatsQueue := {}
  statsChannel := []
  staStatsCache := CountMap.empty
  ampduId := 0
  linkMediums := fun _ => {}
  linkQueueDepths := CountMap.zeros cfg.links cfg.links_nodup
  dcfValues := fun k => DcfStats.new k.ac (cfg.edcafDraws k)
  windowMetricsMcsUtil := fun _ => {}
  outputMetrics := []
  activeMacKeyCounts := CountMap.empty
  slotTickPending := false

namespace QueueModule

variable (m : QueueModule)

/-- Change one contention function (`dcf_mut`). -/
def dcfMut (k : MacKey) (f : DcfStats → DcfStats) : QueueModule :=
  { m with dcfValues := Function.update m.dcfValues k (f (m.dcfValues k)) }

/-- Change the queue of one key. -/
def setQueue (k : MacKey) (q : List MpduPacket) : QueueModule :=
  { m with perFlowQueues := Function.update m.perFlowQueues k q }

/-- `link_is_transmitting.insert`. -/
def setTransmitting (link : Nat) (b : Bool) : QueueModule :=
  { m with linkIsTransmitting := Function.update m.linkIsTransmitting link b }

/-- Change the medium of one link. -/
def setMedium (link : Nat) (md : Medium) : QueueModule :=
  { m with linkMediums := Function.update m.linkMediums link md }

/-- `queue_depth`; no result for a key outside the index. -/
def queueDepth (cfg : MacConfig) (k : MacKey) : Option Nat :=
  if cfg.hasKey k then some (m.perFlowQueues k).length else none

/-- Packets in all queues together. -/
def totalQueued (cfg : MacConfig) : Nat :=
  (cfg.macKeys.map fun k => (m.perFlowQueues k).length).sum

/-- `per_flow_queues.iter().any(|dq| !dq.is_empty())`. -/
def anyQueued (cfg : MacConfig) : Bool :=
  cfg.macKeys.any fun k => !(m.perFlowQueues k).isEmpty

/-- `txop_cap_secs`, in nanoseconds; no value stands for infinity. -/
def txopCap (k : MacKey) : Option Nat :=
  let limit := (m.dcfValues k).param.txopLimitUs
  if limit = 0 then none else some (limit * 1000)

/-- Everything queued, labelled with its queue, without the stamps of earlier
aggregations. -/
def queued (cfg : MacConfig) : Multiset (MacKey × MpduPacket) :=
  contents cfg.macKeys fun k => unstampedPackets (m.perFlowQueues k)

end QueueModule

/-- An occupation of a link: a transmission (one contender) or a collision. -/
structure Occupation where
  link : Nat
  start : Nat
  stop : Nat
  contenders : List MacKey
  isCollision : Bool
  deriving DecidableEq, Repr

/-- The MAC together with what its handlers see of the simulator. -/
structure Sim where
  mac : QueueModule
  now : Nat := 0
  /-- Times of the outstanding `deque_schedule_service` events. -/
  ticks : List Nat := []
  /-- The outstanding `send_ampdu` events. -/
  completions : List (Nat × AmpduPacket) := []
  /-- What the output ports have sent. -/
  delivered : List AmpduPacket := []
  occupations : List Occupation := []
  countdowns : List (Nat × MacKey) := []

/-- The simulator at time zero, nothing scheduled. -/
def Sim.new (cfg : MacConfig) : Sim := { mac := QueueModule.new cfg }

end SiestaVR.Mac
