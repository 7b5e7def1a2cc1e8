import SiestaVR.Mac.Module

/-!
# Arrivals: link choice and the two inputs (lib/models_mm1k.rs:2986–3533, 4170–4181)

`input` takes downlink packets, `inputUL` uplink ones. Background traffic in
both directions is connected to both ports, so each handler ignores the
packets of the other direction, after having counted them and after having run
the link choice (which may consume a draw of `link_rng`).

A handler without a result is one that aborts: the chosen link has no queue for
the packet's station and category.
-/

namespace SiestaVR.Mac

open Lib

/-! ## Link choice -/

section LinkChoice

variable (cfg : MacConfig) (m : QueueModule)

/-- `link_mediums.get(&l).map_or(false, |m| m.is_idle(now))`. -/
def linkIdle (now l : Nat) : Bool := l ∈ cfg.links && (m.linkMediums l).isIdle now

/-- `get_link_queue_depth`. -/
def getLinkQueueDepth (l : Nat) : Nat := m.linkQueueDepths.count l

/-- The scan of `select_mlo_channel_lyapunov_backpressure` for the least depth;
`none` stands for the initial `usize::MAX`. -/
def leastDepthScan : List Nat → Option Nat × Nat → Nat
  | [], (_, selected) => selected
  | l :: ls, (minDepth, selected) =>
    let depth := getLinkQueueDepth m l
    if minDepth.all (depth < ·) then leastDepthScan ls (some depth, l)
    else leastDepthScan ls (minDepth, selected)

/-- `select_mlo_channel_lyapunov_backpressure`. -/
def selectMloChannelLyapunovBackpressure (available : List Nat) : Option Nat :=
  match available with
  | [] => none
  | [l] => some l
  | l :: _ => some (leastDepthScan m available (none, l))

/-- `select_mlo_channel_opportunistic`: the idle one of the first two links,
drawn at random when both or neither are idle. -/
def selectMloChannelOpportunistic (now : Nat) (available : List Nat) :
    Option Nat × DrawStream Bool :=
  match available with
  | [] => (none, m.linkRng)
  | [l] => (some l, m.linkRng)
  | a :: b :: _ =>
    match linkIdle cfg m now a, linkIdle cfg m now b with
    | true, false => (some a, m.linkRng)
    | false, true => (some b, m.linkRng)
    | _, _ => (some (if m.linkRng.peek then a else b), m.linkRng.skip 1)

/-- `select_mlo_channel_primary_first`: the primary link while it is idle or its
depth is below 10, else the first idle other link. -/
def selectMloChannelPrimaryFirst (now primary : Nat) (rest : List Nat) : Nat :=
  if linkIdle cfg m now primary then primary
  else if getLinkQueueDepth m primary < 10 then primary
  else (rest.find? (linkIdle cfg m now)).getD primary

/-- `select_link_for_packet`; the strategies without an implementation fall back
to the opportunistic one. -/
def selectLinkForPacket (p : MpduPacket) (now : Nat) : Option Nat × DrawStream Bool :=
  let staId := if p.isUl then p.staSrcId else p.staDestId
  match cfg.staCapabilities staId with
  -- an unregistered station counts as a single-link device
  | none => (some 0, m.linkRng)
  | some [] => (none, m.linkRng)
  | some [l] => (some l, m.linkRng)
  | some (l :: ls) =>
    match cfg.mloLinkselectionStrat with
    | .primaryFirst => (some (selectMloChannelPrimaryFirst cfg m now l ls), m.linkRng)
    | .lyapunovBackpressure => (selectMloChannelLyapunovBackpressure m (l :: ls), m.linkRng)
    | _ => selectMloChannelOpportunistic cfg m now (l :: ls)

end LinkChoice

/-! ## Scheduling a slot tick -/

/-- `schedule_event(delay, deque_schedule_service)`. -/
def Sim.scheduleService (s : Sim) (delay : Nat) : Sim :=
  { s with ticks := s.ticks ++ [s.now + delay] }

/-- `schedule_tick`: one slot from now, unless a tick is marked as pending. -/
def scheduleTick (s : Sim) : Sim :=
  if s.mac.slotTickPending then s
  else { s with mac := { s.mac with slotTickPending := true } }.scheduleService slotTime

/-! ## The inputs -/

/-- `cache_input_packet`, of whose entry the MAC reads only the packet count. -/
def cacheInputPacket (m : QueueModule) (p : MpduPacket) : QueueModule :=
  { m with staStatsCache := m.staStatsCache.incr p.flow }

/-- `any_link_idle` of both inputs. -/
def anyLinkIdle (cfg : MacConfig) (m : QueueModule) (link : Nat) : Bool :=
  if strPlusModeMlo then cfg.links.any fun l => !m.linkIsTransmitting l
  else !m.linkIsTransmitting link

/-- What both inputs do with a packet that found room: count it under its flow,
link and contention key, append it, and start a tick if its queue was empty and
a link is free. -/
def enqueue (cfg : MacConfig) (s : Sim) (key : MacKey) (p : MpduPacket) : Sim :=
  let m := cacheInputPacket s.mac p
  let depth := (m.perFlowQueues key).length
  let m := { m with
    linkQueueDepths := m.linkQueueDepths.incr key.link
    activeMacKeyCounts := m.activeMacKeyCounts.incr (key.sta, p.edcaAc) }
  let m := m.setQueue key (m.perFlowQueues key ++ [p])
  let s := { s with mac := m }
  if depth + 1 = 1 ∧ anyLinkIdle cfg m key.link then scheduleTick s else s

/-- `input`: a packet offered to the downlink port. -/
def input (cfg : MacConfig) (s : Sim) (pkt : MpduPacket) : Option Sim :=
  let p := { pkt with queueInInstant := s.now }
  let m := { s.mac with arrivedPacketCounter := s.mac.arrivedPacketCounter + 1 }
  let (selected, rng) := selectLinkForPacket cfg m p s.now
  let m := { m with linkRng := rng }
  -- counted above, also if it is for the other port
  if p.isUl then some { s with mac := m }
  else
    match selected with
    | none =>
      some { s with mac := { m with blockedPacketCounter := m.blockedPacketCounter + 1 } }
    | some link => do
      let p ← p.assignLink link
      let key : MacKey := ⟨-1, p.edcaAc, link⟩
      let p := { p with macKeyCached := some key }
      -- the limit of one link's queue, shared by all destinations
      let depth ← m.queueDepth cfg key
      if depth < cfg.queueMaxsizeDl then
        some (enqueue cfg { s with mac := m } key p)
      else
        some { s with mac := { m with blockedPacketCounter := m.blockedPacketCounter + 1 } }

/-- `input_UL`: a packet offered to the uplink port. A packet that finds its
queue full is dropped without touching `blocked_packet_counter`. -/
def inputUL (cfg : MacConfig) (s : Sim) (pkt : MpduPacket) : Option Sim :=
  let m := { s.mac with
    arrivedPacketCounter := s.mac.arrivedPacketCounter + 1
    queueLengthCounter := s.mac.queueLengthCounter + s.mac.totalQueued cfg }
  let (selected, rng) := selectLinkForPacket cfg m pkt s.now
  let m := { m with linkRng := rng }
  if pkt.isUl then
    match selected with
    | none =>
      some { s with mac := { m with blockedPacketCounter := m.blockedPacketCounter + 1 } }
    | some link => do
      let p ← pkt.assignLink link
      let key : MacKey := ⟨p.staSrcId, p.edcaAc, link⟩
      let p := { p with macKeyCached := some key }
      let depth ← m.queueDepth cfg key
      if depth < cfg.ulCapacityQueueDevice then
        some (enqueue cfg { s with mac := m } key { p with queueInInstant := s.now })
      -- dropped, and not counted as blocked
      else some { s with mac := m }
  else some { s with mac := m }

/-- `input_coords_update`. -/
def inputCoordsUpdate (s : Sim) (sta : Int) (c : Coords) : Sim :=
  { s with mac := { s.mac with
      staCoordsMap := Function.update s.mac.staCoordsMap sta (some c) } }

end SiestaVR.Mac
