import SiestaVR.Mac.Airtime
import SiestaVR.Mac.Arrival

/-!
# Building one A-MPDU (lib/models_mm1k.rs:3790–4167)

`buildNewAmpdu` in the steps of the source: aggregate from the winning queue
and, in STR+ mode, from the other links' queues of the same station and
category (`aggDeques`, `aggDeque`); draw the loss of each MPDU (`lossLoop`);
remove what was aggregated (`removeTaken`: by count for uplink, by key for
downlink); push the packets that failed back to the front (`pushBackFailed`,
which recognises them by their bare packet id); lower the counters.

Kept as the source has them: `resultz` and the MCS are overwritten by the
packet that no longer fits; a failed packet returns with the stamps of this
aggregation; `T_s` is taken from `resultz`.

A missing result is an abort: a station id that is not positive, a link or key
outside the configuration, or a destination without coordinates.
-/

namespace SiestaVR.Mac

open Lib

/-! ## Aggregation -/

/-- Accumulators of the aggregation loops. -/
structure Aggregation where
  ampdu : AmpduPacket
  flowBacklog : Nat
  takenSnapshot : List (MacKey × MpduPacket) := []
  dequeSources : List (MacKey × Nat) := []
  resultz : Nat := 0
  lastServiceDuration : Nat := 0
  /-- The loop was left through `break 'agg`. -/
  limitReached : Bool := false

section Aggregate

variable (cfg : MacConfig) (m : QueueModule) (first : MpduPacket) (linkId : Nat) (now : Nat)

/-- The key that won the link, as `build_new_ampdu` derives it. -/
def ampduKey : MacKey :=
  if first.isUl then ⟨first.staSrcId, first.edcaAc, linkId⟩ else ⟨-1, first.edcaAc, linkId⟩

/-- `source_deque_idxs`: the winning queue, then the non-empty queues of the
same station and category on the other links in ascending order. -/
def sourceDeques : List MacKey :=
  ampduKey first linkId ::
    (if strPlusModeMlo then
      ((cfg.otherLinks linkId).map fun l =>
        ({ ampduKey first linkId with link := l } : MacKey)).filter fun k =>
          cfg.hasKey k && !(m.perFlowQueues k).isEmpty
    else [])

/-- The packets an A-MPDU may contain: all of them for uplink, those to the
first packet's destination for downlink. -/
def wanted (p : MpduPacket) : Bool := first.isUl || p.staDestId = first.staDestId

/-- Airtime and MCS with `p` as the last of `size` MPDUs; no result when a
downlink destination has no coordinates. -/
def airtimeWith (p : MpduPacket) (paddedBits size : Nat) : Option (Nat × Nat) :=
  if first.isUl then
    some (cfg.airtimeAmpdu paddedBits size p.staSrcCoords cfg.coordsQueue
      (cfg.linkChannelWidths linkId))
  else
    (m.staCoordsMap p.staDestId).map fun dest =>
      cfg.airtimeAmpdu paddedBits size cfg.coordsQueue dest (cfg.linkChannelWidths linkId)

/-- The three limits of the aggregation loop. -/
def exceedsLimits (airtime size : Nat) : Bool :=
  defaultTmaxAgg ≤ airtime || cfg.packsPerAmpdu < size ||
    (m.txopCap (ampduKey first linkId)).any (· ≤ airtime)

/-- `if taken > 0 { deque_sources.push((deq_idx, taken)) }`. -/
def Aggregation.record (a : Aggregation) (deq : MacKey) (taken : Nat) : Aggregation :=
  if 0 < taken then { a with dequeSources := a.dequeSources ++ [(deq, taken)] } else a

/-- The stamped clone of a packet that is aggregated. -/
def stamp (a : Aggregation) (p : MpduPacket) : MpduPacket :=
  { p with
    queueLengthWhenOut := a.flowBacklog
    queueOutInstant := now
    tQ := now - p.queueInInstant
    macKeyCached := some (ampduKey first linkId) }

/-- Add a packet to the A-MPDU under construction. -/
def Aggregation.take (a : Aggregation) (deq : MacKey) (p : MpduPacket)
    (paddedBits airtime : Nat) : Aggregation :=
  let q := stamp first linkId now a p
  { a with
    -- the backlog of the winning queue, also for packets of the other links' queues
    flowBacklog := a.flowBacklog - 1
    takenSnapshot := a.takenSnapshot ++ [(deq, q)]
    ampdu := { a.ampdu with
      mpduPackets := a.ampdu.mpduPackets ++ [q]
      totalLength := a.ampdu.totalLength + p.lengthPacketBits
      paddedBitsSum := paddedBits
      size := a.ampdu.size + 1 }
    lastServiceDuration := airtime }

/-- The inner loop, over the packets of one queue; `taken` counts those of this
queue. -/
def aggDeque (deq : MacKey) : List MpduPacket → Nat → Aggregation → Option Aggregation
  | [], taken, a => some (a.record deq taken)
  | p :: ps, taken, a =>
    -- a downlink queue is shared: packets to other stations are passed over
    if !wanted first p then aggDeque deq ps taken a
    else
      let paddedBits := a.ampdu.paddedBitsSum + paddedMpduBits p.lengthPacketBits
      let size := a.ampdu.size + 1
      match airtimeWith cfg m first linkId p paddedBits size with
      | none => none
      | some (airtime, mcs) =>
        -- both are overwritten before the limits are checked
        let a := { a with resultz := airtime, ampdu := { a.ampdu with mcsAssigned := mcs } }
        if exceedsLimits cfg m first linkId airtime size then
          some { a.record deq taken with limitReached := true }
        else aggDeque deq ps (taken + 1) (a.take first linkId now deq p paddedBits airtime)

/-- The outer loop, over the queues. -/
def aggDeques : List MacKey → Aggregation → Option Aggregation
  | [], a => some a
  | deq :: deqs, a =>
    (aggDeque cfg m first linkId now deq (m.perFlowQueues deq) 0 a).bind fun a' =>
      if a'.limitReached then some a' else aggDeques deqs a'

/-- The A-MPDU before anything is aggregated. -/
def emptyAmpdu : AmpduPacket :=
  { staDestId := first.staDestId, staSrcId := first.staSrcId,
    coordinates := first.staSrcCoords, linkId := linkId, macKey := ampduKey first linkId }

/-- The whole aggregation. -/
def aggregate : Option Aggregation :=
  aggDeques cfg m first linkId now (sourceDeques cfg m first linkId)
    { ampdu := emptyAmpdu first linkId
      flowBacklog := (m.perFlowQueues (ampduKey first linkId)).length }

end Aggregate

/-! ## Loss draws -/

/-- The record of a transmitted packet. -/
def sentStats (m : QueueModule) (linkId now resultz : Nat) (p : MpduPacket) : StatsUpdate :=
  { tS := resultz, tQ := p.tQ
    blockedPacketCounter := m.blockedPacketCounter
    arrivedPacketCounter := m.arrivedPacketCounter
    queueLengthWhenOut := p.queueLengthWhenOut
    staSrcId := p.staSrcId, staDestId := p.staDestId, packetId := p.packetId
    now := now, lengthPacket := p.lengthPacketBits, ampduId := m.ampduId
    linkId := linkId, alvrHeader := p.headerAlvr, edcaAc := p.edcaAc }

/-- One draw for each MPDU in order: a failure raises `blocked_packet_counter`,
a success is recorded and kept. -/
def lossLoop (cfg : MacConfig) (linkId now resultz : Nat) :
    List MpduPacket → QueueModule → List MpduPacket → QueueModule × List MpduPacket
  | [], m, sent => (m, sent)
  | p :: ps, m, sent =>
    let p := { p with tS := resultz }
    let value := m.rng.peek
    let m := { m with rng := m.rng.skip 1 }
    -- `≤`: a draw of 0 fails even with probability 0
    if value ≤ cfg.plProbability then
      lossLoop cfg linkId now resultz ps
        { m with blockedPacketCounter := m.blockedPacketCounter + 1 } sent
    else
      lossLoop cfg linkId now resultz ps
        { m with statsChannel := m.statsChannel ++ [sentStats m linkId now resultz p] }
        (sent ++ [p])

/-! ## Removal and re-insertion -/

/-- `id_key`: what a sent downlink packet is recognised by. -/
def idKey (cfg : MacConfig) (p : MpduPacket) : Int × Int × Nat :=
  if cfg.dlPacketIdLegacy then (0, 0, p.packetId) else p.triple

/-- Uplink: pop the recorded number of packets from the front of each queue. -/
def popSources (srcs : List (MacKey × Nat)) (queues : MacKey → List MpduPacket) :
    MacKey → List MpduPacket :=
  srcs.foldl (fun q src => Function.update q src.1 ((q src.1).drop src.2)) queues

/-- Downlink: from every queue that contributed, remove the packets whose key
is one of those aggregated. -/
def retainUntaken (cfg : MacConfig) (taken : List (MacKey × MpduPacket))
    (queues : MacKey → List MpduPacket) : MacKey → List MpduPacket := fun k =>
  if k ∈ taken.map Prod.fst then
    (queues k).filter fun p => !(idKey cfg p ∈ taken.map fun x => idKey cfg x.2)
  else queues k

/-- Remove what was aggregated. -/
def removeTaken (cfg : MacConfig) (isUl : Bool) (a : Aggregation)
    (queues : MacKey → List MpduPacket) : MacKey → List MpduPacket :=
  if isUl then popSources a.dequeSources queues else retainUntaken cfg a.takenSnapshot queues

/-- `push_front` one packet after the other. -/
def pushFrontAll (q : List MpduPacket) (ps : List MpduPacket) : List MpduPacket :=
  ps.foldl (fun q p => p :: q) q

/-- Push the packets whose id no sent packet has back to the front of their
queue, in their old order. -/
def pushBackFailed (taken : List (MacKey × MpduPacket)) (sent : List MpduPacket)
    (queues : MacKey → List MpduPacket) : MacKey → List MpduPacket := fun k =>
  -- by the bare id, also where `idKey` tells the flows apart
  let failed := taken.filter fun x => !(x.2.packetId ∈ sent.map MpduPacket.packetId)
  pushFrontAll (queues k) (fiber failed k).reverse

/-- Lower the three counters for the sent packets. The link depth is lowered
only for packets that carry an assigned link. -/
def lowerCounters (m : QueueModule) (sent : List MpduPacket) : QueueModule :=
  { m with
    linkQueueDepths := m.linkQueueDepths.decrAll (sent.filterMap MpduPacket.assignedLinkId)
    activeMacKeyCounts := m.activeMacKeyCounts.decrAll (sent.map MpduPacket.acKey)
    staStatsCache := m.staStatsCache.decrAll (sent.map MpduPacket.flow) }

/-- `build_new_ampdu`: the A-MPDU, its airtime and the state after. -/
def buildNewAmpdu (cfg : MacConfig) (m : QueueModule) (first : MpduPacket) (linkId now : Nat) :
    Option (AmpduPacket × Nat × QueueModule) :=
  if first.staSrcId ≤ 0 ∨ first.staDestId ≤ 0 then none
  else if !cfg.hasKey (ampduKey first linkId) then none
  else (aggregate cfg m first linkId now).map fun a =>
    let (m₁, sent) := lossLoop cfg linkId now a.resultz a.ampdu.mpduPackets m []
    let queues := pushBackFailed a.takenSnapshot sent
      (removeTaken cfg first.isUl a m₁.perFlowQueues)
    let m₂ := lowerCounters { m₁ with perFlowQueues := queues } sent
    -- `size` and `totalLength` still count the packets that failed
    ({ a.ampdu with mpduPackets := sent }, a.lastServiceDuration, m₂.setTransmitting linkId true)

end SiestaVR.Mac
