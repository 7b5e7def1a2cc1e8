import Mathlib.Algebra.Order.Field.Rat
import Mathlib.Data.Rat.Floor

/-!
# Google congestion control (lib/gcc_nada_estimator.rs:33–42, 216–485, 488–885, 887–1162)

The bandwidth estimator of the server. From every frame report it follows the trend of the
one-way delay (`TrendlineEstimator`) and the throughput (`BitrateEstimator`); the trend says
whether the link is overused, and a rate control (`AimdRateControl`) moves the bitrate by
additive or multiplicative increase and multiplicative decrease.

What the source computes in floating point is computed in exact rationals, with the square
root and powers as parameters. An infinite bound is none, the time `i64::MIN` stands for
"never" as in the source, and fields that are written and never read are left out.
-/

namespace SiestaVR.Abr

/-- Floating-point functions without an exact rational result. -/
structure MathFns where
  sqrt : ℚ → ℚ
  powf : ℚ → ℚ → ℚ

/-- `i64::MIN`. -/
def i64Min : Int := -2 ^ 63

/-- `GCC_WINDOW_SIZE`. -/
def gccWindowSize : Nat := 20

/-- `GCC_MIN_CONFIGURED_BITRATE`. -/
def gccMinConfiguredBitrate : ℚ := 10 * 1000 * 1000

/-- `GCC_MAX_CONFIGURED_BITRATE`. -/
def gccMaxConfiguredBitrate : ℚ := 100 * 1000 * 1000

/-- `GCC_INIT_CONFIGURED_BITRATE`. -/
def gccInitConfiguredBitrate : ℚ := gccMaxConfiguredBitrate

/-- `GCC_INCREASE_COEF_ALPHA`. -/
def gccIncreaseCoefAlpha : ℚ := 108 / 100

/-- `GCC_DECREASE_COEF_BETA`. -/
def gccDecreaseCoefBeta : ℚ := 85 / 100

/-- `GCC_DEFAULT_RTT`. -/
def gccDefaultRtt : Int := 200

/-- `BandwidthUsage`. -/
inductive BandwidthUsage
  | normal
  | underusing
  | overusing
deriving DecidableEq, Repr

/-! ## The trend of the delay -/

/-- `PacketTiming`. -/
structure PacketTiming where
  arrivalTimeMs : ℚ
  smoothedDelayMs : ℚ
deriving DecidableEq, Repr

/-- `LinearFitSlope`. -/
def linearFitSlope (packets : List PacketTiming) : Option ℚ :=
  if packets.length > 2 then
    let xAvg := (packets.map PacketTiming.arrivalTimeMs).sum / packets.length
    let yAvg := (packets.map PacketTiming.smoothedDelayMs).sum / packets.length
    let numerator :=
      (packets.map fun p => (p.arrivalTimeMs - xAvg) * (p.smoothedDelayMs - yAvg)).sum
    let denominator :=
      (packets.map fun p => (p.arrivalTimeMs - xAvg) * (p.arrivalTimeMs - xAvg)).sum
    if denominator = 0 then none else some (numerator / denominator)
  else none

/-- `TrendlineEstimator`. -/
structure TrendlineEstimator where
  numOfDeltas : Int := 0
  firstArrivalTimeMs : Int := -1
  accumulatedDelay : ℚ := 0
  smoothedDelay : ℚ := 0
  threshold : ℚ := 125 / 10
  lastUpdateMs : Int := -1
  prevTrend : ℚ := 0
  timeOverUsing : ℚ := -1
  overuseCounter : Int := 0
  hypothesis : BandwidthUsage := .normal
  delayHist : List PacketTiming := []
deriving DecidableEq, Repr

namespace TrendlineEstimator

/-- `smoothing_coef_`. -/
def smoothingCoef : ℚ := 9 / 10

/-- `threshold_gain_`. -/
def thresholdGain : ℚ := 4

/-- `k_up_`. -/
def kUp : ℚ := 87 / 10000

/-- `k_down_`. -/
def kDown : ℚ := 39 / 1000

/-- `overusing_time_threshold_`. -/
def overusingTimeThreshold : ℚ := 10

/-- `UpdateThreshold`. -/
def updateThreshold (e : TrendlineEstimator) (modifiedTrend : ℚ) (nowMs : Int) :
    TrendlineEstimator :=
  let e := if e.lastUpdateMs = -1 then { e with lastUpdateMs := nowMs } else e
  if |modifiedTrend| > e.threshold + 15 then { e with lastUpdateMs := nowMs }
  else
    let k := if |modifiedTrend| < e.threshold then kDown else kUp
    let timeDeltaMs := min (nowMs - e.lastUpdateMs) 100
    let threshold := e.threshold + k * (|modifiedTrend| - e.threshold) * timeDeltaMs
    { e with
      threshold := if threshold > 600 then 600 else if threshold < 6 then 6 else threshold
      lastUpdateMs := nowMs }

/-- How `Detect` judges the link by the modified trend. -/
def judge (e : TrendlineEstimator) (trend tsDelta modifiedTrend : ℚ) : TrendlineEstimator :=
  if modifiedTrend > e.threshold then
    let e := { e with
      timeOverUsing := if e.timeOverUsing = -1 then tsDelta / 2 else e.timeOverUsing + tsDelta
      overuseCounter := e.overuseCounter + 1 }
    if e.timeOverUsing > overusingTimeThreshold ∧ e.overuseCounter > 1 ∧ trend ≥ e.prevTrend then
      { e with timeOverUsing := 0, overuseCounter := 0, hypothesis := .overusing }
    else e
  else
    { e with
      timeOverUsing := -1
      overuseCounter := 0
      hypothesis := if modifiedTrend < -e.threshold then .underusing else .normal }

/-- `Detect`. -/
def detect (e : TrendlineEstimator) (trend tsDelta : ℚ) (nowMs : Int) : TrendlineEstimator :=
  if e.numOfDeltas < 2 then { e with hypothesis := .normal }
  else
    let modifiedTrend := (min e.numOfDeltas 60 : Int) * trend * thresholdGain
    { e.judge trend tsDelta modifiedTrend with prevTrend := trend }.updateThreshold
      modifiedTrend nowMs

/-- `UpdateTrendline`. -/
def updateTrendline (e : TrendlineEstimator) (recvDeltaMs sendDeltaMs : ℚ) (arrivalTimeMs : Int) :
    TrendlineEstimator :=
  let firstArrivalTimeMs :=
    if e.firstArrivalTimeMs = -1 then arrivalTimeMs else e.firstArrivalTimeMs
  -- Exponential backoff filter.
  let accumulatedDelay := e.accumulatedDelay + (recvDeltaMs - sendDeltaMs)
  let smoothedDelay := smoothingCoef * e.smoothedDelay + (1 - smoothingCoef) * accumulatedDelay
  let hist := e.delayHist ++ [⟨(arrivalTimeMs - firstArrivalTimeMs : Int), smoothedDelay⟩]
  let hist := if hist.length > gccWindowSize then hist.tail else hist
  let trend :=
    if hist.length = gccWindowSize then (linearFitSlope hist).getD e.prevTrend else e.prevTrend
  { e with
    numOfDeltas := min (e.numOfDeltas + 1) 1000
    firstArrivalTimeMs := firstArrivalTimeMs
    accumulatedDelay := accumulatedDelay
    smoothedDelay := smoothedDelay
    delayHist := hist }.detect trend sendDeltaMs arrivalTimeMs

end TrendlineEstimator

/-! ## The throughput -/

/-- `BitrateEstimator`. -/
structure BitrateEstimator where
  sum : Int := 0
  currentWindowMs : Int := 0
  prevTimeMs : Int := -1
  bitrateEstimateKbps : ℚ := -1
  bitrateEstimateVar : ℚ := 50
deriving DecidableEq, Repr

namespace BitrateEstimator

/-- `UpdateWindow`: the sample in kbit/s, negative if the window is not full. -/
def updateWindow (e : BitrateEstimator) (nowMs : Int) (bytes : Nat) (rateWindowMs : Int) :
    ℚ × BitrateEstimator :=
  let e :=
    if nowMs < e.prevTimeMs then { e with prevTimeMs := -1, sum := 0, currentWindowMs := 0 } else e
  let e :=
    if e.prevTimeMs ≥ 0 then
      let window := e.currentWindowMs + (nowMs - e.prevTimeMs)
      -- Reset if nothing has been received for more than a full window.
      if nowMs - e.prevTimeMs > rateWindowMs then
        { e with sum := 0, currentWindowMs := window % rateWindowMs }
      else { e with currentWindowMs := window }
    else e
  let e := { e with prevTimeMs := nowMs }
  if e.currentWindowMs ≥ rateWindowMs then
    (8 * e.sum / rateWindowMs,
      { e with currentWindowMs := e.currentWindowMs - rateWindowMs, sum := bytes })
  else (-1, { e with sum := e.sum + bytes })

/-- `Update`. All scales of the uncertainty are the same. -/
def update (e : BitrateEstimator) (atTime : Int) (amount : Nat) : BitrateEstimator :=
  let rateWindowMs := if e.bitrateEstimateKbps < 0 then 350 else 250
  let (sampleKbps, e) := e.updateWindow atTime amount rateWindowMs
  if sampleKbps < 0 then e
  else if e.bitrateEstimateKbps < 0 then { e with bitrateEstimateKbps := sampleKbps }
  else
    let sampleUncertainty :=
      10 * |e.bitrateEstimateKbps - sampleKbps| / (e.bitrateEstimateKbps + min sampleKbps 0)
    let sampleVar := sampleUncertainty * sampleUncertainty
    let predVar := e.bitrateEstimateVar + 5
    { e with
      bitrateEstimateKbps :=
        max ((sampleVar * e.bitrateEstimateKbps + predVar * sampleKbps) / (sampleVar + predVar)) 0
      bitrateEstimateVar := sampleVar * predVar / (sampleVar + predVar) }

/-- `bitrate`. -/
def bitrate (e : BitrateEstimator) : Option ℚ :=
  if e.bitrateEstimateKbps < 0 then none else some (e.bitrateEstimateKbps * 1000)

end BitrateEstimator

/-! ## The capacity of the link -/

/-- `LinkCapacityEstimator`. -/
structure LinkCapacityEstimator where
  estimateKbps : Option ℚ := none
  deviationKbps : ℚ := 4 / 10
deriving DecidableEq, Repr

namespace LinkCapacityEstimator

variable (fns : MathFns) (l : LinkCapacityEstimator)

/-- `deviation_estimate_kbps`, for the present estimate. -/
def deviationEstimateKbps (estimate : ℚ) : ℚ := fns.sqrt (l.deviationKbps * estimate)

/-- `UpperBound`; none is infinite. -/
def upperBound : Option ℚ :=
  l.estimateKbps.map fun e => (e + 3 * l.deviationEstimateKbps fns e) * 1000

/-- `LowerBound`. -/
def lowerBound : ℚ :=
  match l.estimateKbps with
  | some e => max 0 (e - 3 * l.deviationEstimateKbps fns e) * 1000
  | none => 0

/-- `Reset`. -/
def reset : LinkCapacityEstimator := { l with estimateKbps := none }

/-- `Update`. -/
def update (capacitySample alpha : ℚ) : LinkCapacityEstimator :=
  let sampleKbps := capacitySample / 1000
  let estimate := l.estimateKbps.elim sampleKbps fun e => (1 - alpha) * e + alpha * sampleKbps
  let norm := max estimate 1
  let errorKbps := estimate - sampleKbps
  let deviation := (1 - alpha) * l.deviationKbps + alpha * errorKbps * errorKbps / norm
  { estimateKbps := some estimate
    deviationKbps :=
      if deviation > 25 / 10 then 25 / 10 else if deviation < 4 / 10 then 4 / 10 else deviation }

/-- `OnOveruseDetected`. -/
def onOveruseDetected (acknowledgedRate : ℚ) : LinkCapacityEstimator :=
  l.update acknowledgedRate (5 / 100)

end LinkCapacityEstimator

/-! ## The rate control -/

/-- `RateControlState`. -/
inductive RateControlState
  | hold
  | increase
  | decrease
deriving DecidableEq, Repr

/-- `RateControlInput`. -/
structure RateControlInput where
  bwState : BandwidthUsage
  estimatedThroughput : Option ℚ
deriving DecidableEq, Repr

/-- `NetworkStateEstimate`, by the bounds that are used; none is negative infinity. -/
structure NetworkStateEstimate where
  linkCapacityLower : Option ℚ := none
  linkCapacityUpper : Option ℚ := none
deriving DecidableEq, Repr

/-- `AimdRateControl`. -/
structure AimdRateControl where
  currentBitrate : ℚ := gccInitConfiguredBitrate
  latestEstimatedThroughput : ℚ := gccInitConfiguredBitrate
  linkCapacity : LinkCapacityEstimator := {}
  networkEstimate : NetworkStateEstimate := {}
  rateControlState : RateControlState := .hold
  timeLastBitrateChange : Int := i64Min
  timeFirstThroughputEstimate : Int := i64Min
  bitrateIsInitialized : Bool := false
  rtt : Int := gccDefaultRtt
  gccFrameInterval : ℚ
deriving DecidableEq, Repr

namespace AimdRateControl

/-- `new`. -/
def new (framerate : ℚ) : AimdRateControl := { gccFrameInterval := 1 / framerate }

/-- `ChangeState`. -/
def changeState (a : AimdRateControl) (input : RateControlInput) (atTime : Int) :
    AimdRateControl :=
  match input.bwState with
  | .normal =>
    match a.rateControlState with
    | .hold => { a with timeLastBitrateChange := atTime, rateControlState := .increase }
    | .decrease => { a with rateControlState := .hold }
    | .increase => a
  | .overusing => { a with rateControlState := .decrease }
  | .underusing => { a with rateControlState := .hold }

/-- `GetNearMaxIncreaseRateBpsPerSecond`. -/
def getNearMaxIncreaseRateBpsPerSecond (a : AimdRateControl) : ℚ :=
  let frameSize := a.currentBitrate * a.gccFrameInterval
  let packetsPerFrame := frameSize / (1500 * 8)
  let avgPacketSize := frameSize / packetsPerFrame
  let responseTime : ℚ := (a.rtt + 100 : Int) / 1000 * 2
  max 4000 (avgPacketSize / responseTime)

/-- `MultiplicativeRateIncrease`. -/
def multiplicativeRateIncrease (fns : MathFns) (atTime lastTime : Int) (currentBitrate : ℚ) : ℚ :=
  let alpha :=
    if lastTime = i64Min then
      fns.powf gccIncreaseCoefAlpha (min ((atTime - lastTime : Int) / 1000) 1)
    else gccIncreaseCoefAlpha
  max (currentBitrate * (alpha - 1)) 1000

/-- `AdditiveRateIncrease`. -/
def additiveRateIncrease (a : AimdRateControl) (atTime lastTime : Int) : ℚ :=
  a.getNearMaxIncreaseRateBpsPerSecond * ((atTime - lastTime : Int) / 1000)

/-- The bitrate of `ClampBitrate`. -/
def clampBitrate (a : AimdRateControl) (newBitrate : ℚ) : ℚ :=
  let bitrate := a.networkEstimate.linkCapacityUpper.elim newBitrate (min · newBitrate)
  let bitrate :=
    match a.networkEstimate.linkCapacityLower with
    | some lower =>
      if bitrate < a.currentBitrate then
        min a.currentBitrate (max bitrate (lower * gccDecreaseCoefBeta))
      else bitrate
    | none => bitrate
  max bitrate gccMinConfiguredBitrate

/-- `ChangeBitrate` while the rate increases: the new bitrate, if there is one. -/
def increase (fns : MathFns) (a : AimdRateControl) (estimatedThroughput : ℚ) (atTime : Int) :
    Option ℚ × AimdRateControl :=
  let a :=
    if (a.linkCapacity.upperBound fns).any (· < estimatedThroughput) then
      { a with linkCapacity := a.linkCapacity.reset }
    else a
  let increaseLimit := 15 / 10 * estimatedThroughput + 10000
  let newBitrate :=
    if a.currentBitrate < increaseLimit then
      let increased :=
        if a.linkCapacity.estimateKbps.isSome then
          a.currentBitrate + a.additiveRateIncrease atTime a.timeLastBitrateChange
        else
          a.currentBitrate +
            multiplicativeRateIncrease fns atTime a.timeLastBitrateChange a.currentBitrate
      some (min increased increaseLimit)
    else none
  (newBitrate, { a with timeLastBitrateChange := atTime })

/-- `ChangeBitrate` while the rate decreases. -/
def decrease (fns : MathFns) (a : AimdRateControl) (estimatedThroughput : ℚ) (atTime : Int) :
    Option ℚ × AimdRateControl :=
  let decreased := estimatedThroughput * gccDecreaseCoefBeta
  let decreased :=
    if a.currentBitrate < decreased then
      a.linkCapacity.estimateKbps.elim decreased fun e => gccDecreaseCoefBeta * (e * 1000)
    else decreased
  let newBitrate := if decreased < a.currentBitrate then some decreased else none
  let linkCapacity :=
    if estimatedThroughput < a.linkCapacity.lowerBound fns then a.linkCapacity.reset
    else a.linkCapacity
  (newBitrate, { a with
    bitrateIsInitialized := true
    linkCapacity := linkCapacity.onOveruseDetected estimatedThroughput
    rateControlState := .hold
    timeLastBitrateChange := atTime })

/-- The part of `ChangeBitrate` that depends on the state. -/
def act (fns : MathFns) (a : AimdRateControl) (estimatedThroughput : ℚ) (atTime : Int) :
    Option ℚ × AimdRateControl :=
  match a.rateControlState with
  | .hold => (none, a)
  | .increase => a.increase fns estimatedThroughput atTime
  | .decrease => a.decrease fns estimatedThroughput atTime

/-- The bounds of the network estimate, from the link capacity and the configuration. -/
def updateNetworkEstimate (fns : MathFns) (a : AimdRateControl) : AimdRateControl :=
  let lower := a.linkCapacity.lowerBound fns
  { a with networkEstimate :=
    { linkCapacityLower :=
        some (if lower ≠ 0 then
          if lower < gccMinConfiguredBitrate then gccMinConfiguredBitrate else lower
        else gccMinConfiguredBitrate)
      linkCapacityUpper :=
        some ((a.linkCapacity.upperBound fns).elim gccMaxConfiguredBitrate fun upper =>
          if upper > gccMaxConfiguredBitrate then gccMaxConfiguredBitrate else upper) } }

/-- `ChangeBitrate`. -/
def changeBitrate (fns : MathFns) (a : AimdRateControl) (input : RateControlInput)
    (atTime : Int) : AimdRateControl :=
  let estimatedThroughput := input.estimatedThroughput.getD a.latestEstimatedThroughput
  let a := { a with latestEstimatedThroughput := estimatedThroughput }
  if !a.bitrateIsInitialized ∧ input.bwState ≠ .overusing then a
  else
    let (newBitrate, a) := (a.changeState input atTime).act fns estimatedThroughput atTime
    let a := a.updateNetworkEstimate fns
    { a with currentBitrate := a.clampBitrate (newBitrate.getD a.currentBitrate) }

/-- The first part of `Update`: after five seconds the bitrate becomes the throughput. -/
def initBitrate (a : AimdRateControl) (input : RateControlInput) (atTime : Int) : AimdRateControl :=
  if a.bitrateIsInitialized then a
  else
    match input.estimatedThroughput with
    | none => a
    | some throughput =>
      if a.timeFirstThroughputEstimate = i64Min then
        { a with timeFirstThroughputEstimate := atTime }
      else if atTime - a.timeFirstThroughputEstimate > 5000 then
        { a with currentBitrate := throughput, bitrateIsInitialized := true }
      else a

/-- `Update`. -/
def update (fns : MathFns) (a : AimdRateControl) (input : RateControlInput) (atTime : Int) :
    AimdRateControl :=
  (a.initBitrate input atTime).changeBitrate fns input atTime

end AimdRateControl

/-! ## The estimator -/

/-- `GccBandwidthEstimator`. The timestamps of the last frame are in microseconds. -/
structure GccBandwidthEstimator where
  trendlineManager : TrendlineEstimator := {}
  aimdManager : AimdRateControl
  rateControlInputManager : RateControlInput := ⟨.normal, some gccInitConfiguredBitrate⟩
  bitrateEstimatorManager : BitrateEstimator := {}
  lastFrameSendTimestamp : ℚ := 0
  lastFrameArrivalTimestamp : ℚ := 0
deriving DecidableEq, Repr

namespace GccBandwidthEstimator

/-- `new`. -/
def new (framerate : ℚ) : GccBandwidthEstimator := { aimdManager := .new framerate }

/-- The first part of `Update`: what the report says about the link. Frame timestamps in
nanoseconds. -/
def measure (g : GccBandwidthEstimator) (sendInstant now frameSize : Nat) :
    GccBandwidthEstimator :=
  let sendUs : ℚ := sendInstant / 1000
  let arrivalUs : ℚ := now / 1000
  let (sendDeltaMs, recvDeltaMs) :=
    if g.lastFrameSendTimestamp ≠ 0 then
      ((sendUs - g.lastFrameSendTimestamp) / 1000, (arrivalUs - g.lastFrameArrivalTimestamp) / 1000)
    else (0, 0)
  let arrivalTimeMs : Int := (now / 1000000 : Nat)
  let trendline := g.trendlineManager.updateTrendline recvDeltaMs sendDeltaMs arrivalTimeMs
  let bitrateEstimator := g.bitrateEstimatorManager.update arrivalTimeMs frameSize
  { g with
    trendlineManager := trendline
    bitrateEstimatorManager := bitrateEstimator
    rateControlInputManager :=
      { bwState := trendline.hypothesis
        estimatedThroughput :=
          bitrateEstimator.bitrate.orElse fun _ => g.rateControlInputManager.estimatedThroughput }
    lastFrameSendTimestamp := sendUs
    lastFrameArrivalTimestamp := arrivalUs }

/-- `Update`. -/
def update (fns : MathFns) (g : GccBandwidthEstimator) (sendInstant now frameSize : Nat) :
    GccBandwidthEstimator :=
  let g := g.measure sendInstant now frameSize
  { g with aimdManager :=
      g.aimdManager.update fns g.rateControlInputManager (now / 1000000 : Nat) }

/-- `get_target_bitrate_bps`. -/
def getTargetBitrateBps (g : GccBandwidthEstimator) : ℚ := g.aimdManager.currentBitrate

end GccBandwidthEstimator

end SiestaVR.Abr
