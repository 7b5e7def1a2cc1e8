import SiestaVR.Mac.Ampdu

/-!
# Slot ticks and completions (lib/models_mm1k.rs:2749–2983, 3599–3787, 4184–4629)

`dequeScheduleService` is one slot tick: the overflow pass, one step of every
back-off (`tickBackoff`), the link loop (`serveLinks`, one `serveLink` for each
link with a ready contention function) and the decision whether another slot is
needed. `sendAmpdu` is the completion of a transmission.

Iterating a hash map visits its entries in an order the program does not fix.
The three iterations of a tick whose order can matter take it from a
`HashOrder`, an arbitrary rearrangement for each; the iterations whose steps
touch different entries are written as one update.
-/

namespace SiestaVR.Mac

open Lib

/-- The iteration orders of one slot tick. -/
structure HashOrder where
  /-- `ready_per_link`. -/
  links : List (Nat × List MacKey) → List (Nat × List MacKey)
  /-- `winner.into_values()` while resolving a link. -/
  winners : Nat → List MacKey → List MacKey
  /-- `overflowing_flows`. -/
  flows : List ((Int × Int) × Nat) → List ((Int × Int) × Nat)
  links_perm : ∀ l, (links l).Perm l
  winners_perm : ∀ link l, (winners link l).Perm l
  flows_perm : ∀ l, (flows l).Perm l

/-- Every iteration in insertion order. -/
def HashOrder.insertion : HashOrder :=
  ⟨id, fun _ => id, id, fun l => .refl l, fun _ l => .refl l, fun l => .refl l⟩

/-! ## Overflow pass -/

/-- The queue limit of a flow. -/
def flowLimit (cfg : MacConfig) (flow : Int × Int) : Nat :=
  if flow.2 < flow.1 then cfg.ulCapacityQueueDevice else cfg.queueMaxsizeDl

/-- `overflowing_flows`: each flow above its limit with its excess. -/
def overflowingFlows (cfg : MacConfig) (m : QueueModule) : List ((Int × Int) × Nat) :=
  m.staStatsCache.keys.filterMap fun flow =>
    let count := m.staStatsCache.count flow
    if flowLimit cfg flow < count then some (flow, count - flowLimit cfg flow) else none

/-- `retain` with a counter: drop the first `n` packets to `dest`. The dropped
ones come first in the result. -/
def dropFirstTo (dest : Int) : Nat → List MpduPacket → List MpduPacket × List MpduPacket
  | _, [] => ([], [])
  | n, p :: ps =>
    if 0 < n ∧ p.staDestId = dest then
      let r := dropFirstTo dest (n - 1) ps
      (p :: r.1, r.2)
    else
      let r := dropFirstTo dest n ps
      (r.1, p :: r.2)

/-- Take `dropped` out of a queue that keeps `kept`: every drop is counted as
blocked and leaves the link and contention counters; `flows` are the entries of
`sta_stats_cache` it is taken from. -/
def dropPackets (m : QueueModule) (key : MacKey) (dropped kept : List MpduPacket)
    (flows : List (Int × Int)) : QueueModule :=
  { m with
    perFlowQueues := Function.update m.perFlowQueues key kept
    blockedPacketCounter := m.blockedPacketCounter + dropped.length
    linkQueueDepths := m.linkQueueDepths.decrAll (List.replicate dropped.length key.link)
    activeMacKeyCounts := m.activeMacKeyCounts.decrAll
      (List.replicate dropped.length (key.sta, key.ac))
    staStatsCache := m.staStatsCache.decrAll flows }

/-- One queue of the overflow pass: uplink pops from the back whatever is there,
downlink drops the oldest packets to the flow's destination. The second
component is `remaining_drops`. -/
def overflowQueue (cfg : MacConfig) (flow : Int × Int) (key : MacKey)
    (st : QueueModule × Nat) : QueueModule × Nat :=
  let (m, remaining) := st
  if remaining = 0 ∨ !cfg.hasKey key then st
  else
    let q := m.perFlowQueues key
    if flow.2 < flow.1 then
      -- each drop is taken from the flow of the packet that was at the back
      let n := min remaining q.length
      let kept := q.take (q.length - n)
      let dropped := q.drop (q.length - n)
      (dropPackets m key dropped kept (dropped.map MpduPacket.flow), remaining - n)
    else
      -- selected by destination alone, all taken from the overflowing flow
      let (dropped, kept) := dropFirstTo flow.2 remaining q
      (dropPackets m key dropped kept (List.replicate dropped.length flow),
        remaining - dropped.length)

/-- One flow: for each category, its excess is dropped from the links' queues. -/
def overflowFlow (cfg : MacConfig) (m : QueueModule) (x : (Int × Int) × Nat) : QueueModule :=
  let sta := if x.1.2 < x.1.1 then x.1.1 else -1
  -- every category starts again from the full excess
  EdcaAc.all.foldl (fun m ac =>
    (cfg.mediumOrder.foldl (fun st l => overflowQueue cfg x.1 ⟨sta, ac, l⟩ st) (m, x.2)).1) m

/-- The overflow pass. -/
def overflowPass (cfg : MacConfig) (order : HashOrder) (m : QueueModule) : QueueModule :=
  (order.flows (overflowingFlows cfg m)).foldl (overflowFlow cfg) m

/-! ## Back-off -/

/-- Whether `active_mac_key_counts` has packets for a contention function. -/
def contending (m : QueueModule) (k : MacKey) : Bool :=
  0 < m.activeMacKeyCounts.count (k.sta, k.ac)

namespace DcfStats

/-- Unfreeze once the medium has been idle for the arbitration space. -/
def unfreeze (st : DcfStats) (idleSlot : Bool) (now : Nat) : DcfStats :=
  if idleSlot && st.mediumFreeSince + aifs st.param ≤ now then
    { st with backoffFrozen := false }
  else st

/-- Whether the counter is decremented in this slot. -/
def countsDown (st : DcfStats) (idleSlot : Bool) (now : Nat) : Bool :=
  let st := st.unfreeze idleSlot now
  idleSlot && !st.backoffFrozen && 0 < st.backoffCounter

/-- One slot of one contention function. -/
def slot (st : DcfStats) (idleSlot : Bool) (now : Nat) : DcfStats :=
  let st' := st.unfreeze idleSlot now
  if st.countsDown idleSlot now then { st' with backoffCounter := st'.backoffCounter - 1 } else st'

/-- Counter at zero and not frozen. -/
def isReady (st : DcfStats) : Bool := st.backoffCounter = 0 && !st.backoffFrozen

end DcfStats

/-- `tick_backoff`, its effect on the state. -/
def tickBackoff (m : QueueModule) (now : Nat) : QueueModule :=
  { m with
    linkMediums := fun l => (m.linkMediums l).clearIfIdle now
    dcfValues := fun k =>
      if contending m k then (m.dcfValues k).slot ((m.linkMediums k.link).isIdle now) now
      else m.dcfValues k }

/-- The contention functions whose counter `tick_backoff` decrements. -/
def decremented (cfg : MacConfig) (m : QueueModule) (now : Nat) : List MacKey :=
  cfg.macKeys.filter fun k =>
    contending m k && (m.dcfValues k).countsDown ((m.linkMediums k.link).isIdle now) now

/-- The ready contention functions of a link after the tick, in table order. -/
def readyOn (cfg : MacConfig) (m : QueueModule) (link : Nat) : List MacKey :=
  cfg.macKeys.filter fun k => k.link = link && contending m k && (m.dcfValues k).isReady

/-- `ready_per_link`: the links with a ready contention function. -/
def readyPerLink (cfg : MacConfig) (m : QueueModule) : List (Nat × List MacKey) :=
  (cfg.links.filter fun l => !(readyOn cfg m l).isEmpty).map fun l => (l, readyOn cfg m l)

/-! ## Virtual collisions -/

/-- The loop of `resolve_virtual_collision`: the first function of a station
wins, the others fail. -/
def resolveLoop : List MacKey → List MacKey → QueueModule → List MacKey × QueueModule
  | [], winners, m => (winners, m)
  | k :: ks, winners, m =>
    if k.sta ∈ winners.map MacKey.sta then
      resolveLoop ks winners (m.dcfMut k fun st => st.onFailure.2)
    else resolveLoop ks (winners ++ [k]) m

/-- `resolve_virtual_collision`: by priority, stably. -/
def resolveVirtualCollision (order : HashOrder) (link : Nat) (m : QueueModule)
    (ready : List MacKey) : List MacKey × QueueModule :=
  let (winners, m) :=
    resolveLoop (ready.insertionSort fun a b => acPrio a.ac ≤ acPrio b.ac) [] m
  (order.winners link winners, m)

/-! ## Window statistics -/

/-- `update_window_stats`: report and reset a window that is over, then add. -/
def updateWindowStats (m : QueueModule) (key : WindowKey) (mcs : Option Nat) (duration : Nat)
    (success : Bool) (now : Nat) : QueueModule :=
  let w := m.windowMetricsMcsUtil key
  let (w, reports) :=
    if w.windowDuration ≤ now - w.windowStart then
      let ((avgMcs, totalUtil, staUtil), w') := w.computeAndReset now
      (w', m.outputMetrics ++ [⟨now, key, avgMcs, totalUtil, staUtil⟩])
    else (w, m.outputMetrics)
  { m with
    windowMetricsMcsUtil := Function.update m.windowMetricsMcsUtil key
      (w.updateMetricsMcsUtil mcs duration success)
    outputMetrics := reports }

/-! ## The link loop -/

/-- Freeze every contention function of a link until it is free from `t` on. -/
def freezeLink (m : QueueModule) (link t : Nat) : QueueModule :=
  { m with dcfValues := fun k =>
      if k.link = link then (m.dcfValues k).freeze t else m.dcfValues k }

/-- The record of a contender of a collision: the packet at the head of its
queue, or the key alone if that queue is empty. -/
def collisionStats (m : QueueModule) (link now : Nat) (key : MacKey) : StatsUpdate :=
  match m.perFlowQueues key with
  | p :: _ =>
    { now := now, isCollision := true, collisionBackoff := collisionDelay
      staSrcId := p.staSrcId, staDestId := p.staDestId, linkId := link
      packetId := p.packetId, lengthPacket := p.lengthPacketBits
      tQ := now - p.queueInInstant, alvrHeader := p.headerAlvr
      blockedPacketCounter := m.blockedPacketCounter
      arrivedPacketCounter := m.arrivedPacketCounter
      ampduId := m.ampduId, edcaAc := p.edcaAc }
  | [] =>
    { now := now, isCollision := true, collisionBackoff := collisionDelay
      staSrcId := key.sta, staDestId := if key.sta = -1 then 1 else -1, linkId := link }

/-- The collision branch on the MAC's own state: occupy the medium, let every
contender fail, freeze the link, record. -/
def collideMac (m : QueueModule) (now link : Nat) (contenders : List MacKey) : QueueModule :=
  let m := m.setMedium link ((m.linkMediums link).occupyCollision now (now + collisionDelay))
  let m := contenders.foldl (fun m k => m.dcfMut k fun st => st.onFailure.2) m
  let m := freezeLink m link (now + collisionDelay)
  let m := contenders.foldl
    (fun m k => updateWindowStats m (k.sta, k.link) none collisionDelay false now) m
  { m with
    statsChannel := m.statsChannel ++ contenders.map (collisionStats m link now)
    -- the collision owns the next wake-up, of all links
    slotTickPending := true }

/-- The collision branch: it schedules its own wake-up at the collision's end,
whether or not a tick is pending. -/
def collide (s : Sim) (link : Nat) (contenders : List MacKey) : Sim :=
  { s with
    mac := collideMac s.mac s.now link contenders
    occupations := ⟨link, s.now, s.now + collisionDelay, contenders, true⟩ :: s.occupations
  }.scheduleService collisionDelay

/-- The first packet of a winner: the head of its own queue or, in STR+ mode, of
the first non-empty queue of its station and category on another link. -/
def firstPacket (cfg : MacConfig) (m : QueueModule) (winner : MacKey) : Option MpduPacket :=
  match m.perFlowQueues winner with
  | p :: _ => some p
  | [] =>
    if strPlusModeMlo then
      (((cfg.otherLinks winner.link).map fun l => ({ winner with link := l } : MacKey)).filter
        cfg.hasKey).findSome? fun k => (m.perFlowQueues k).head?
    else none

/-- The transmission of an A-MPDU that was built: occupy the medium, freeze the
link, schedule the completion. -/
def startTransmission (s : Sim) (link : Nat) (winner : MacKey) (ampdu : AmpduPacket)
    (airtime : Nat) : Sim :=
  let m := s.mac.setMedium link
    ((s.mac.linkMediums link).startTxop s.now (s.now + airtime) winner)
  { s with
    mac := freezeLink m link (s.now + airtime)
    completions := s.completions ++ [(s.now + airtime, ampdu)]
    occupations := ⟨link, s.now, s.now + airtime, [winner], false⟩ :: s.occupations }

/-- An A-MPDU without packets or airtime is skipped and its winner fails. -/
def skipTransmission (s : Sim) (link : Nat) (winner : MacKey) : Sim :=
  scheduleTick { s with
    mac := (s.mac.setTransmitting link false).dcfMut winner fun st => st.onFailure.2 }

/-- The single-winner branch. -/
def serveWinner (cfg : MacConfig) (s : Sim) (link : Nat) (winner : MacKey) : Option Sim :=
  match firstPacket cfg s.mac winner with
  -- nothing to send on any link: as after a success, without occupying the medium
  | none => some { s with mac := s.mac.dcfMut winner fun st => st.onSuccess st.param.cwMin }
  | some first =>
    (buildNewAmpdu cfg s.mac first link s.now).map fun (ampdu, airtime, m) =>
      let s := { s with mac := m }
      let ampdu := { ampdu with linkId := link }
      -- also when every MPDU was lost
      if ampdu.mpduPackets.isEmpty || airtime = 0 then skipTransmission s link winner
      else startTransmission s link winner ampdu airtime

/-- One iteration of the link loop. -/
def serveLink (cfg : MacConfig) (order : HashOrder) (s : Sim) (x : Nat × List MacKey) :
    Option Sim :=
  let (contenders, m) := resolveVirtualCollision order x.1 s.mac x.2
  let s := { s with mac := m }
  match contenders with
  | [] => some s
  -- neither the medium nor `linkIsTransmitting` is looked at again
  | [winner] => serveWinner cfg s x.1 winner
  | _ :: _ :: _ => some (collide s x.1 contenders)

/-- The link loop. -/
def serveLinks (cfg : MacConfig) (order : HashOrder) :
    List (Nat × List MacKey) → Sim → Option Sim
  | [], s => some s
  | x :: xs, s => (serveLink cfg order s x).bind (serveLinks cfg order xs)

/-! ## Slot tick and completion -/

/-- `need_next_slot`. -/
def needNextSlot (cfg : MacConfig) (m : QueueModule) : Bool :=
  (m.linkQueueDepths.keys.any fun l => 0 < m.linkQueueDepths.count l) &&
    cfg.macKeys.any fun k => !m.linkIsTransmitting k.link && contending m k

/-- What a tick does before its link loop. -/
def beginTick (cfg : MacConfig) (order : HashOrder) (s : Sim) : Sim :=
  let m := overflowPass cfg order { s.mac with slotTickPending := false }
  { s with
    mac := tickBackoff m s.now
    countdowns := (decremented cfg m s.now).map (s.now, ·) ++ s.countdowns }

/-- What a tick does after its link loop. -/
def endTick (cfg : MacConfig) (s : Sim) : Sim :=
  if needNextSlot cfg s.mac then scheduleTick s else s

/-- The links a tick serves, in the order it serves them. -/
def tickLinks (cfg : MacConfig) (order : HashOrder) (s : Sim) : List (Nat × List MacKey) :=
  order.links (readyPerLink cfg (beginTick cfg order s).mac)

/-- `deque_schedule_service`. -/
def dequeScheduleService (cfg : MacConfig) (order : HashOrder) (s : Sim) : Option Sim :=
  (serveLinks cfg order (tickLinks cfg order s) (beginTick cfg order s)).map (endTick cfg)

/-- The statistics part of `send_ampdu`: drain the channel into the cumulative
statistics and the window of the sender. -/
def drainStats (m : QueueModule) (ampdu : AmpduPacket) (now : Nat) : QueueModule :=
  match m.statsChannel with
  | [] => m
  | u :: us =>
    let m := { m with
      statsChannel := []
      cumulativeStatsQueue := (u :: us).foldl QueueStats.updateCumstats m.cumulativeStatsQueue }
    updateWindowStats m (ampdu.macKey.sta, ampdu.macKey.link) (some ampdu.mcsAssigned) u.tS true now

/-- `send_ampdu`. -/
def sendAmpdu (cfg : MacConfig) (s : Sim) (ampdu : AmpduPacket) : Option Sim :=
  let link := ampdu.linkId
  let m := s.mac.setMedium link ((s.mac.linkMediums link).releaseTxop s.now)
  let m := { m with ampduId := m.ampduId + 1 }.setTransmitting link false
  let s := { s with mac := m, delivered := s.delivered ++ [ampdu] }
  let s := if m.anyQueued cfg then scheduleTick s else s
  if cfg.hasKey ampdu.macKey then
    let m := s.mac.dcfMut ampdu.macKey fun st => st.onSuccess st.param.cwMin
    some { s with mac := drainStats m ampdu s.now }
  else none

end SiestaVR.Mac
