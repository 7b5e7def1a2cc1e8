import Mathlib.Algebra.Order.Field.Rat
import Mathlib.Data.Rat.Floor

/-!
# Network-assisted dynamic adaptation (lib/gcc_nada_estimator.rs:1173–1510,
lib/mod.rs:2101–2146)

`NadaSender` is the sending side of NADA: from every report of the receiver it computes a
reference rate, by an accelerated ramp-up or by a gradual update, and keeps it between
`RMIN` and `RMAX`. The rates are in bit/s, times in microseconds.

What the source computes in floating point is computed in exact rationals; what is kept for
debugging, or written and never read, is left out.
-/

namespace SiestaVR.Abr

/-! ## Sliding averages -/

/-- `SlidingWindowAverage`. -/
structure SlidingWindowAverage (α : Type) where
  historyBuffer : List α
  maxHistorySize : Nat
deriving DecidableEq, Repr

namespace SlidingWindowAverage

variable {α : Type}

/-- `new`. -/
def new (initialValue : α) (maxHistorySize : Nat) : SlidingWindowAverage α :=
  ⟨[initialValue], maxHistorySize⟩

/-- `clear`. -/
def clear (w : SlidingWindowAverage α) : SlidingWindowAverage α := { w with historyBuffer := [] }

/-- `submit_sample`. -/
def submitSample (w : SlidingWindowAverage α) (sample : α) : SlidingWindowAverage α :=
  { w with historyBuffer :=
    (if w.historyBuffer.length ≥ w.maxHistorySize then w.historyBuffer.tail
      else w.historyBuffer) ++ [sample] }

/-- `get_average`. The average of an empty buffer is not a number. -/
def getAverage (w : SlidingWindowAverage ℚ) : Option ℚ :=
  if w.historyBuffer = [] then none
  else some (w.historyBuffer.sum / w.historyBuffer.length)

/-- `get_average` of integers. -/
def getAverageInt (w : SlidingWindowAverage Int) : Option ℚ :=
  if w.historyBuffer = [] then none
  else some ((w.historyBuffer.sum : Int) / w.historyBuffer.length)

end SlidingWindowAverage

/-! ## The sender -/

/-- `RMCAT_CC_DEFAULT_RMIN`. -/
def rmcatCcDefaultRmin : Int := 10000000

/-- `RMCAT_CC_DEFAULT_RMAX`. -/
def rmcatCcDefaultRmax : Int := 100000000

/-- `NADA_INITIAL_RATE`. -/
def nadaInitialRate : Int := rmcatCcDefaultRmax

/-- `NADA_PARAM_PRIO`. -/
def nadaParamPrio : ℚ := 1

/-- `NADA_PARAM_XREF`. -/
def nadaParamXref : ℚ := 20

/-- `NADA_PARAM_KAPPA`. -/
def nadaParamKappa : ℚ := 5 / 10

/-- `NADA_PARAM_ETA`. -/
def nadaParamEta : ℚ := 2

/-- `NADA_PARAM_TAU`. -/
def nadaParamTau : ℚ := 500

/-- `NADA_PARAM_DELTA`. -/
def nadaParamDelta : ℚ := 100

/-- `NADA_PARAM_DFILT`. -/
def nadaParamDfilt : ℚ := 120

/-- `NADA_PARAM_GAMMA_MAX`. -/
def nadaParamGammaMax : ℚ := 5 / 10

/-- `NADA_PARAM_QBOUND`. -/
def nadaParamQbound : ℚ := 50

/-- `NADA_RTT_HISTORY_SIZE`. -/
def nadaRttHistorySize : Nat := 15

/-- `f64::round`: the nearest integer, away from zero in a tie. -/
def round (x : ℚ) : Int := if 0 ≤ x then ⌊x + 1 / 2⌋ else -⌊-x + 1 / 2⌋

/-- `as i64`, without its limits. -/
def truncate (x : ℚ) : Int := if 0 ≤ x then ⌊x⌋ else ⌈x⌉

/-- `Ord::clamp`. -/
def clamp (x lo hi : Int) : Int := if x < lo then lo else if x > hi then hi else x

/-- `NADAFeedbackReport`. -/
structure NadaFeedbackReport where
  rmode : Int
  xCurr : ℚ
  rRecv : Int
deriving DecidableEq, Repr

/-- `NadaSender`. -/
structure NadaSender where
  rRef : Int
  rttHistory : SlidingWindowAverage Int
  rRecv : Int
  xCurr : ℚ
  xPrev : ℚ
  rVin : Int
  tLast : Int
deriving DecidableEq, Repr

namespace NadaSender

/-- `new`, at `now` nanoseconds. -/
def new (now : Nat) : NadaSender where
  rRef := nadaInitialRate
  rttHistory := .new 0 nadaRttHistorySize
  rRecv := nadaInitialRate
  xCurr := 0
  xPrev := 0
  rVin := nadaInitialRate
  tLast := (now / 1000 : Nat)

/-- `new_at`. -/
def newAt (now : Nat) (rateBps : ℚ) : NadaSender :=
  let r := clamp (truncate rateBps) rmcatCcDefaultRmin rmcatCcDefaultRmax
  { new now with rRef := r, rRecv := r, rVin := r }

/-- `update_accelerated_rampup`. -/
def updateAcceleratedRampup (n : NadaSender) : Int :=
  let rttAverageMs := (n.rttHistory.getAverageInt).getD 0 / 1000
  let res := nadaParamQbound / (rttAverageMs + nadaParamDelta + nadaParamDfilt)
  let gamma := if res < nadaParamGammaMax then res else nadaParamGammaMax
  if (n.rRef : ℚ) > (1 + gamma) * n.rRecv then n.rRef else round ((1 + gamma) * n.rRecv)

/-- `update_gradual`. -/
def updateGradual (n : NadaSender) (deltaUs : Int) : Int :=
  let delta : ℚ := deltaUs / 1000
  let rightSide := nadaParamPrio * nadaParamXref * rmcatCcDefaultRmax / n.rRef
  let xOffset := n.xCurr - rightSide
  let xDiff := n.xCurr - n.xPrev
  round (n.rRef - nadaParamKappa * (delta / nadaParamTau) * (xOffset / nadaParamTau) * n.rRef -
    nadaParamKappa * nadaParamEta * (xDiff / nadaParamTau) * n.rRef)

/-- `update_on_receive_feedback`. -/
def updateOnReceiveFeedback (n : NadaSender) (now : Nat) (sendTimestamp : Int)
    (report : NadaFeedbackReport) : NadaSender :=
  let tCurr : Int := (now / 1000 : Nat)
  let n := { n with
    xCurr := report.xCurr
    rRecv := report.rRecv
    rttHistory := n.rttHistory.submitSample (tCurr - sendTimestamp) }
  let updatedRRef :=
    if report.rmode = 0 then n.updateAcceleratedRampup else n.updateGradual (tCurr - n.tLast)
  let rRef := clamp updatedRRef rmcatCcDefaultRmin rmcatCcDefaultRmax
  { n with rRef := rRef, tLast := tCurr, xPrev := n.xCurr, rVin := rRef }

/-- `update_on_timer_feedback`. -/
def updateOnTimerFeedback (n : NadaSender) (now : Nat) (report : NadaFeedbackReport) : NadaSender :=
  let t : Int := (now / 1000 : Nat)
  let rtt := truncate ((n.rttHistory.getAverageInt).getD 0)
  n.updateOnReceiveFeedback now (t - rtt) report

/-- `get_target_bitrate`. -/
def getTargetBitrate (n : NadaSender) : Int := n.rVin

/-- The target rate is one of the application. -/
def Bounded (n : NadaSender) : Prop := rmcatCcDefaultRmin ≤ n.rVin ∧ n.rVin ≤ rmcatCcDefaultRmax

theorem clamp_mem (x : Int) {lo hi : Int} (h : lo ≤ hi) :
    lo ≤ clamp x lo hi ∧ clamp x lo hi ≤ hi := by
  unfold clamp
  split_ifs <;> omega

theorem bounded_updateOnReceiveFeedback (n : NadaSender) (now : Nat) (sendTimestamp : Int)
    (report : NadaFeedbackReport) : (n.updateOnReceiveFeedback now sendTimestamp report).Bounded :=
  clamp_mem _ (by decide)

theorem bounded_updateOnTimerFeedback (n : NadaSender) (now : Nat) (report : NadaFeedbackReport) :
    (n.updateOnTimerFeedback now report).Bounded :=
  bounded_updateOnReceiveFeedback n now _ report

end NadaSender

end SiestaVR.Abr
