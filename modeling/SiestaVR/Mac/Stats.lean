import SiestaVR.Mac.Types
import Mathlib.Data.Rat.Cast.Defs

/-!
# Statistics the MAC keeps (lib/models_mm1k.rs:434–464, 2004–2025, 2340–2418)

- `StatsUpdate`: one record per transmitted packet or colliding contender,
  sent over an unbounded channel and drained when an A-MPDU completes.
- `QueueStats`: the cumulative statistics the drained records are added to.
- `WindowMetrics`: utilisation and MCS of one (station, link) over a window.

Sums of durations are in nanoseconds; only the reported ratios are rationals.
-/

namespace SiestaVR.Mac

/-- `StatsUpdate`. -/
structure StatsUpdate where
  tS : Nat := 0
  tQ : Nat := 0
  blockedPacketCounter : Nat := 0
  arrivedPacketCounter : Nat := 0
  queueLengthWhenOut : Nat := 0
  staSrcId : Int := 0
  staDestId : Int := 0
  packetId : Nat := 0
  now : Nat := 0
  lengthPacket : Nat := 0
  edcaAc : EdcaAc := .bestEffort
  ampduId : Nat := 0
  isCollision : Bool := false
  collisionBackoff : Nat := 0
  linkId : Nat := 0
  alvrHeader : HeaderALVRStream := {}
  deriving DecidableEq, Repr

/-- `CumulativeStats`. -/
structure CumulativeStats where
  values : List Nat := []
  sum : Nat := 0
  sumOfSquares : Nat := 0
  deriving DecidableEq, Repr

/-- `CumulativeStats::add`. -/
def CumulativeStats.add (c : CumulativeStats) (v : Nat) : CumulativeStats :=
  { values := c.values ++ [v], sum := c.sum + v, sumOfSquares := c.sumOfSquares + v * v }

/-- `QueueStats`. -/
structure QueueStats where
  waitingTimeCum : CumulativeStats := {}
  serviceTimeCum : CumulativeStats := {}
  queueLengthCounter : Nat := 0
  numPacketsDropped : Nat := 0
  numPacketsRx : Nat := 0
  deriving DecidableEq, Repr

/-- `update_cumstats` for one drained record. -/
def QueueStats.updateCumstats (q : QueueStats) (u : StatsUpdate) : QueueStats :=
  { waitingTimeCum := q.waitingTimeCum.add u.tQ
    serviceTimeCum := q.serviceTimeCum.add u.tS
    queueLengthCounter := q.queueLengthCounter + u.queueLengthWhenOut
    numPacketsDropped := u.blockedPacketCounter
    numPacketsRx := u.arrivedPacketCounter }

/-- `MCS_REPORT_PERIOD_F32`, in nanoseconds. -/
def mcsReportPeriod : Nat := 100000000

/-- `WindowMetrics`. -/
structure WindowMetrics where
  windowStart : Nat := 0
  windowDuration : Nat := mcsReportPeriod
  totalBusyTime : Nat := 0
  staTxTime : Nat := 0
  staCollisionTime : Nat := 0
  mcsSum : Nat := 0
  packetCount : Nat := 0
  deriving DecidableEq, Repr

/-- `WindowMetricReport`. -/
structure WindowMetricReport where
  timestamp : Nat
  windowKey : WindowKey
  avgMcs : ℚ
  totalUtil : ℚ
  staUtil : ℚ
  deriving DecidableEq, Repr

namespace WindowMetrics

/-- `reset`. -/
def reset (w : WindowMetrics) (now : Nat) : WindowMetrics :=
  { windowStart := now, windowDuration := w.windowDuration }

/-- `update_metrics_mcs_util`. -/
def updateMetricsMcsUtil (w : WindowMetrics) (mcs : Option Nat) (duration : Nat)
    (success : Bool) : WindowMetrics :=
  if success then
    match mcs with
    | some v =>
      { w with
        staTxTime := w.staTxTime + duration
        totalBusyTime := w.totalBusyTime + duration
        packetCount := w.packetCount + 1
        mcsSum := w.mcsSum + v }
    | none => w
  else
    { w with
      staCollisionTime := w.staCollisionTime + duration
      totalBusyTime := w.totalBusyTime + duration }

/-- `compute_and_reset`: average MCS, total and per-station utilisation. -/
def computeAndReset (w : WindowMetrics) (now : Nat) : (ℚ × ℚ × ℚ) × WindowMetrics :=
  let duration := now - w.windowStart
  if duration = 0 then ((0, 0, 0), w)
  else
    let avgMcs : ℚ := if 0 < w.packetCount then w.mcsSum / w.packetCount else 0
    let staUtil : ℚ := (w.staTxTime + w.staCollisionTime) / duration
    let totalUtil : ℚ := w.totalBusyTime / duration
    ((avgMcs, totalUtil, staUtil), w.reset now)

end WindowMetrics

end SiestaVR.Mac
