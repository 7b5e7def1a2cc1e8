import Mathlib.Tactic.Linarith
import Mathlib.Tactic.Positivity
import SiestaVR.Abr.Nada

/-!
# The receiving side of NADA (lib/gcc_nada_estimator.rs:1508–1757, 1820–1832)

`NadaReceiver` at level 2: the frames and the losses of an interval are added up, and every
100 ms a report is made of them, with the receive rate, the smoothed loss ratio and the
congestion signal. An interval in which nothing was received at all should count the frames
that were due as lost.

As at the sender, floating point is exact here. The counters have no upper limit.
-/

namespace SiestaVR.Abr

/-- `NADA_PARAM_LOGWIN`. -/
def nadaParamLogwin : Int := 500

/-- `NADA_PARAM_QEPS_US`. -/
def nadaParamQepsUs : Int := 10000

/-- `NADA_PARAM_QTH`. -/
def nadaParamQth : ℚ := 50

/-- `NADA_PARAM_QMAX`. -/
def nadaParamQmax : ℚ := 400

/-- `NADA_PARAM_DMARK`. -/
def nadaParamDmark : ℚ := 200

/-- `NADA_PARAM_DLOSS_RFC_MS`. -/
def nadaParamDlossRfcMs : ℚ := 1000

/-- `NADA_PARAM_ALPHA`. -/
def nadaParamAlpha : ℚ := 1 / 10

/-- `RateUpdateMode`. -/
inductive RateUpdateMode
  | acceleratedRampUp
  | gradualUpdate
deriving DecidableEq, Repr

/-- `NadaTimerReport`. -/
structure NadaTimerReport where
  seq : Nat
  xcurr : ℚ
  rmode : Int
  recv : Int
  plr : ℚ
  dTilde : ℚ
  dQueue : Int
deriving DecidableEq, Repr

/-- `NadaReceiver`, without what only the levels below 2 use. -/
structure NadaReceiver where
  dBase : Int
  dTilde : ℚ
  dQueue : Int
  pLoss : ℚ
  pMark : ℚ
  rRecv : Int
  tLast : Int
  dQueueHistory : SlidingWindowAverage Int
  xCurr : ℚ
  rmode : RateUpdateMode
  totalReceivedBytes : Nat
  totalNumPackets : Nat
  totalPacketsLost : Nat
  lastLossUs : Option Int
  ivFrames : Nat
  ivLosses : Nat
  seenFrame : Bool
  lastShards : Nat
  reportSeq : Nat
deriving DecidableEq, Repr

/-- `warp_rfc`. -/
def warpRfc (dQueueMs : ℚ) : ℚ :=
  if dQueueMs < nadaParamQth then dQueueMs
  else if dQueueMs < nadaParamQmax then
    nadaParamQth * ((nadaParamQmax - dQueueMs) / (nadaParamQmax - nadaParamQth)) ^ 4
  else 0

/-- `p_inst`. -/
def lossRatio (packetsLost numPackets : Nat) : ℚ :=
  if 0 < numPackets then (packetsLost : ℚ) / numPackets else 0

/-- The smoothed loss ratio. -/
def smoothLoss (pInst pLoss : ℚ) : ℚ := nadaParamAlpha * pInst + (1 - nadaParamAlpha) * pLoss

/-- The frames due in an interval, in microseconds, at a frame rate. -/
def framesDue (intervalUs : Int) (fps : ℚ) : Nat := ⌊(intervalUs : ℚ) * fps / 1000000⌋.toNat

namespace NadaReceiver

/-- `new`. -/
def new : NadaReceiver where
  dBase := 2 ^ 63 - 1
  dTilde := 0
  dQueue := 0
  pLoss := 0
  pMark := 0
  rRecv := 0
  tLast := 0
  dQueueHistory := .new 0 15
  xCurr := 0
  rmode := .gradualUpdate
  totalReceivedBytes := 0
  totalNumPackets := 0
  totalPacketsLost := 0
  lastLossUs := none
  ivFrames := 0
  ivLosses := 0
  seenFrame := false
  lastShards := 0
  reportSeq := 0

/-- `compute_oneway_delay`. -/
def computeOnewayDelay (n : NadaReceiver) (sendTimestamp arrivalTimestamp : Int) : NadaReceiver :=
  let dFwd := arrivalTimestamp - sendTimestamp
  let dBase := min n.dBase dFwd
  { n with
    dBase := dBase
    dQueue := dFwd - dBase
    dQueueHistory := n.dQueueHistory.submitSample (dFwd - dBase) }

/-- `record_lost_shards`. -/
def recordLostShards (n : NadaReceiver) (lost expected : Nat) (nowUs : Int) : NadaReceiver :=
  { n with
    totalPacketsLost := n.totalPacketsLost + lost
    totalNumPackets := n.totalNumPackets + expected
    lastLossUs := if 0 < lost then some nowUs else n.lastLossUs
    -- also when nothing was lost
    ivLosses := n.ivLosses + 1 }

/-- `accumulate_frame`. A `Duration` has 16 bytes, an `i64` has 8. -/
def accumulateFrame (n : NadaReceiver) (receivedBytes shards : Nat) : NadaReceiver :=
  { n with
    totalReceivedBytes := n.totalReceivedBytes + (receivedBytes + 16 + 8)
    totalNumPackets := n.totalNumPackets + shards
    ivFrames := n.ivFrames + 1
    seenFrame := true
    lastShards := shards }

/-- The stall rule of `timer_report`. -/
def countStall (n : NadaReceiver) (nowUs : Int) (fps : ℚ) : NadaReceiver :=
  if n.ivFrames = 0 ∧ n.ivLosses = 0 ∧ n.seenFrame = true then
    let due := framesDue (nowUs - n.tLast) fps
    if 0 < due then
      { n with
        totalPacketsLost := n.totalPacketsLost + due * n.lastShards
        totalNumPackets := n.totalNumPackets + due * n.lastShards
        lastLossUs := some nowUs }
    else n
  else n

/-- `determine_rate_adaptation_mode`. -/
def determineRateAdaptationMode (n : NadaReceiver) (hadPacketLoss : Bool) : RateUpdateMode :=
  if hadPacketLoss || n.dQueueHistory.historyBuffer.any (nadaParamQepsUs < ·) then .gradualUpdate
  else .acceleratedRampUp

/-- A report is due. -/
def ReportDue (n : NadaReceiver) (nowUs : Int) : Prop :=
  nadaParamDelta < ((nowUs - n.tLast).tdiv 1000 : ℚ)

instance (n : NadaReceiver) (nowUs : Int) : Decidable (n.ReportDue nowUs) :=
  inferInstanceAs (Decidable (_ < _))

/-- `timer_report`. -/
def timerReport (n : NadaReceiver) (nowUs : Int) (fps : ℚ) :
    Option NadaTimerReport × NadaReceiver :=
  if ¬ n.ReportDue nowUs then (none, n)
  else
    let intervalUs := nowUs - n.tLast
    let n := n.countStall nowUs fps
    let pInst := lossRatio n.totalPacketsLost n.totalNumPackets
    let n := { n with
      rRecv := round ((n.totalReceivedBytes * 8 : Nat) / (intervalUs / 1000000 : ℚ))
      pLoss := smoothLoss pInst n.pLoss
      totalReceivedBytes := 0
      totalPacketsLost := 0
      totalNumPackets := 0
      ivFrames := 0
      ivLosses := 0 }
    let hadPacketLoss :=
      n.lastLossUs.elim false fun t => decide (nowUs - t < nadaParamLogwin * 1000)
    -- the history is never empty: it starts with a sample
    let dQueueMs := (n.dQueueHistory.getAverageInt).getD 0 / 1000
    let dTilde := if hadPacketLoss then warpRfc dQueueMs else dQueueMs
    let n := { n with
      dTilde := dTilde
      xCurr := dTilde + n.pMark * nadaParamDmark + n.pLoss * nadaParamDlossRfcMs
      rmode := n.determineRateAdaptationMode hadPacketLoss
      tLast := nowUs
      reportSeq := n.reportSeq + 1 }
    (some
      { seq := n.reportSeq
        xcurr := n.xCurr
        rmode := if n.rmode = .acceleratedRampUp then 0 else 1
        recv := n.rRecv
        plr := n.pLoss
        dTilde := n.dTilde
        dQueue := n.dQueue }, n)

/-! ## What a report does to the loss ratio -/

variable {n : NadaReceiver} {nowUs : Int} (fps : ℚ)

theorem timerReport_of_not_due (h : ¬ n.ReportDue nowUs) :
    n.timerReport nowUs fps = (none, n) := if_pos h

/-- The counters that a report leaves behind. -/
structure Reported (n n' : NadaReceiver) (nowUs : Int) (fps : ℚ) : Prop where
  pLoss : n'.pLoss = smoothLoss (lossRatio (n.countStall nowUs fps).totalPacketsLost
    (n.countStall nowUs fps).totalNumPackets) n.pLoss
  totals : n'.totalPacketsLost = 0 ∧ n'.totalNumPackets = 0
  interval : n'.ivFrames = 0 ∧ n'.ivLosses = 0
  frame : n'.seenFrame = n.seenFrame ∧ n'.lastShards = n.lastShards
  tLast : n'.tLast = nowUs

theorem countStall_frame (n : NadaReceiver) (nowUs : Int) (fps : ℚ) :
    (n.countStall nowUs fps).pLoss = n.pLoss ∧ (n.countStall nowUs fps).seenFrame = n.seenFrame ∧
      (n.countStall nowUs fps).lastShards = n.lastShards := by
  unfold countStall
  dsimp only
  split
  · split <;> exact ⟨rfl, rfl, rfl⟩
  · exact ⟨rfl, rfl, rfl⟩

/-- **A due report**: it carries the new loss ratio, and the next interval begins. -/
theorem timerReport_of_due (h : n.ReportDue nowUs) :
    ∃ r n', n.timerReport nowUs fps = (some r, n') ∧ r.plr = n'.pLoss ∧
      Reported n n' nowUs fps := by
  obtain ⟨hloss, hseen, hshards⟩ := countStall_frame n nowUs fps
  refine ⟨_, _, if_neg (not_not.2 h), rfl, ?_, ⟨rfl, rfl⟩, ⟨rfl, rfl⟩, ⟨hseen, hshards⟩, rfl⟩
  show smoothLoss _ (n.countStall nowUs fps).pLoss = _
  rw [hloss]

end NadaReceiver

theorem lossRatio_nonneg (packetsLost numPackets : Nat) : 0 ≤ lossRatio packetsLost numPackets := by
  unfold lossRatio
  split
  · positivity
  · exact le_rfl

theorem lossRatio_le_one {packetsLost numPackets : Nat} (h : packetsLost ≤ numPackets) :
    lossRatio packetsLost numPackets ≤ 1 := by
  unfold lossRatio
  split
  · exact div_le_one_of_le₀ (by exact_mod_cast h) (Nat.cast_nonneg _)
  · exact zero_le_one

theorem smoothLoss_mem {pInst pLoss : ℚ} (hInst : 0 ≤ pInst ∧ pInst ≤ 1)
    (hLoss : 0 ≤ pLoss ∧ pLoss < 1) : 0 ≤ smoothLoss pInst pLoss ∧ smoothLoss pInst pLoss < 1 := by
  unfold smoothLoss nadaParamAlpha
  constructor <;> linarith [hInst.1, hInst.2, hLoss.1, hLoss.2]

theorem lt_smoothLoss_one {pLoss : ℚ} (h : pLoss < 1) : pLoss < smoothLoss 1 pLoss := by
  unfold smoothLoss nadaParamAlpha
  linarith

end SiestaVR.Abr
