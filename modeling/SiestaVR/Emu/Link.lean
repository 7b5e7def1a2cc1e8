import SiestaVR.Lib.Agenda
import SiestaVR.Emu.Pattern

/-!
# The emulated link (lib/models_mm1k.rs:877–882, 1003–1137, 1316–1332)

A queue of packets in front of the medium access layer. A packet that arrives is dropped
or put at the end of the queue, and a flush is scheduled if none is marked as scheduled.
A flush takes packets off the front for as long as they are eligible and the bandwidth
patterns let them through; where it stops it marks and schedules the next flush.

The driver schedules one more flush when the simulation starts (xr_entry/mod.rs:1020–1030),
without marking it. So several flushes can be outstanding while there is one mark only,
which each of them clears first.

`accepted` and `emitted` keep the history: the queue entries in the order they were made,
and those that were sent on with the time.
-/

namespace SiestaVR.Emu

open SiestaVR.Lib

/-- `MpduPacket`, as the emulator reads it. -/
structure MpduPacket where
  packetId : Nat
  lengthPacketBits : Nat
  emulatedAddedDelayDeadline : Option Nat := none
deriving DecidableEq, Repr

/-- `QueuedPacket`. -/
structure QueuedPacket where
  packet : MpduPacket
  enqueuedAt : Nat
  bandwidthEligibleAt : Nat
deriving DecidableEq, Repr

/-- `EnqueueOutcome`. -/
inductive EnqueueOutcome
  | queued
  | dropped
deriving DecidableEq, Repr

/-- `QueueMechanism`, without the times of its log lines. -/
structure QueueMechanism where
  queue : List QueuedPacket := []
  networkEmulator : NetworkPatternEmulator := {}
  maxQueueSize : Nat
  nextFlushScheduled : Option Nat := none
deriving DecidableEq, Repr

/-- `QueueMechanism::enqueue`. The arrival effects come first, also for a full queue. -/
def QueueMechanism.enqueue (q : QueueMechanism) (packet : MpduPacket) (draws : Nat → ℚ)
    (now : Nat) : Option (EnqueueOutcome × QueueMechanism) := do
  let (outcome, e) ← q.networkEmulator.applyArrivalEffects draws now
  let q := { q with networkEmulator := e }
  match outcome with
  | .drop => some (.dropped, q)
  | .delay jitterExtra =>
    if q.maxQueueSize ≤ q.queue.length then some (.dropped, q)
    else
      let nicFloor := max (packet.emulatedAddedDelayDeadline.getD now) now
      let bandwidthEligibleAt := (checkedAdd nicFloor jitterExtra).getD nicFloor
      some (.queued, { q with
        queue := q.queue ++ [{ packet, enqueuedAt := now, bandwidthEligibleAt }] })

/-- What the link schedules. -/
inductive LinkTask
  | flushQueue
deriving DecidableEq, Repr

/-- `EmulatedLink`, with the events it has scheduled and what went through it. -/
structure EmulatedLink where
  queueMechanism : QueueMechanism
  agenda : Agenda LinkTask
  accepted : List QueuedPacket := []
  emitted : List (Nat × QueuedPacket) := []
deriving DecidableEq, Repr

/-- What the loop of `drain` leaves: the emulator, the rest of the queue, the packets sent on,
and the time of the next flush if it stopped before the end of the queue. -/
structure Drained where
  emulator : NetworkPatternEmulator
  queue : List QueuedPacket
  sent : List QueuedPacket := []
  wakeAt : Option Nat := none
deriving DecidableEq, Repr

/-- The loop of `drain`. -/
def drainLoop (now : Nat) : NetworkPatternEmulator → List QueuedPacket → Option Drained
  | e, [] => some { emulator := e, queue := [] }
  | e, front :: rest =>
    if now < front.bandwidthEligibleAt then
      some { emulator := e, queue := front :: rest, wakeAt := some front.bandwidthEligibleAt }
    else do
      let (outcome, e) ← e.trySendBandwidth now front.packet.lengthPacketBits
        (now - front.enqueuedAt)
      match outcome with
      | .sent => (drainLoop now e rest).map fun d => { d with sent := front :: d.sent }
      | .wait retryIn =>
        some { emulator := e, queue := front :: rest, wakeAt := (checkedAdd now retryIn).getD now }
      | .exceedsLimit => drainLoop now e rest

namespace EmulatedLink

/-- `EmulatedLink::schedule_drain_at`. -/
def scheduleDrainAt (l : EmulatedLink) (wakeAt : Nat) : EmulatedLink :=
  { l with
    queueMechanism := { l.queueMechanism with nextFlushScheduled := some wakeAt }
    agenda := l.agenda.schedule (max (wakeAt - l.agenda.now) 1) .flushQueue }

/-- `EmulatedLink::drain`. -/
def drain (l : EmulatedLink) : Option EmulatedLink := do
  let now := l.agenda.now
  let d ← drainLoop now l.queueMechanism.networkEmulator l.queueMechanism.queue
  let l := { l with
    queueMechanism := { l.queueMechanism with
      queue := d.queue, networkEmulator := d.emulator, nextFlushScheduled := none }
    emitted := l.emitted ++ d.sent.map (now, ·) }
  some (match d.wakeAt with
    | some wakeAt => l.scheduleDrainAt wakeAt
    | none => l)

/-- `EmulatedLink::input`. -/
def input (l : EmulatedLink) (packet : MpduPacket) (draws : Nat → ℚ) : Option EmulatedLink := do
  let now := l.agenda.now
  let (outcome, q) ← l.queueMechanism.enqueue packet draws now
  let l := { l with queueMechanism := q }
  match outcome with
  | .dropped => some l
  | .queued =>
    let l := { l with accepted := l.accepted ++ q.queue.getLast?.toList }
    if q.nextFlushScheduled.isNone then some (l.scheduleDrainAt now) else some l

end EmulatedLink

/-- A packet arrives, or a scheduled flush is run. -/
inductive LinkEvent
  | input (now : Nat) (packet : MpduPacket) (draws : Nat → ℚ)
  | flushQueue (due : Nat)

/-- One event of the link. -/
def EmulatedLink.step (l : EmulatedLink) : LinkEvent → Option EmulatedLink
  | .input now packet draws => (l.agenda.advance now).bind fun a =>
      { l with agenda := a }.input packet draws
  | .flushQueue due => (l.agenda.fire due .flushQueue).bind fun a =>
      { l with agenda := a }.drain

/-- A link as it is built, for the driver's flush at `flushAt`. -/
def EmulatedLink.start (maxQueueSize : Nat) (e : NetworkPatternEmulator) (flushAt : Nat) :
    EmulatedLink where
  queueMechanism := { networkEmulator := e, maxQueueSize }
  agenda := { now := 0, pending := [(flushAt, .flushQueue)] }

end SiestaVR.Emu
