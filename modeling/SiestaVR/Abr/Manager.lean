import SiestaVR.Abr.Gcc
import SiestaVR.Abr.Nada
import SiestaVR.Emu.Pattern

/-!
# The bitrate manager (lib/models_XR.rs:127–160, 1305–1354, 1639–2751, 2753–2789, 7822–7850)

`BitrateManager` holds the target bitrate of the video encoder. The target is written by the
periodic pass of the mode (`onePassAbr`), by the stats timeout of NeSt-VR, by the oracle's
events, and by a session reset; reports of the network feed the averages that a pass reads.

- What the source computes in floating point is computed in exact rationals. The average of
  an empty window is not a number: none, with the comparisons and `f32::max` of such a value.
  An infinite capacity is none as well.
- Times are in nanoseconds from the epoch.
- The random numbers of NeSt-VR are arguments of the pass. Logging, the statistics for the
  viewer and the observations for learning are left out, and so is the content of FovOptix,
  whose pass leaves the target alone.
-/

namespace SiestaVR.Abr

open Emu

/-! ## Constants -/

/-- `MAX_MBPS_LADDER`. -/
def maxMbpsLadder : ℚ := 100

/-- `MIN_MBPS_LADDER`. -/
def minMbpsLadder : ℚ := 10

/-- `ORACLE_BITRATE_MARGIN_MBPS`. -/
def oracleBitrateMarginMbps : ℚ := 5

/-- `ORACLE_LOOKAHEAD_SECS`, in nanoseconds. -/
def oracleLookahead : Nat := 10000000

/-- `ORACLE_RAMP_UP_MBPS_PER_SEC`. -/
def oracleRampUpMbpsPerSec : ℚ := 1

/-- `MIN_ORACLE_BITRATE_MBPS`. -/
def minOracleBitrateMbps : ℚ := 5

/-- `NESTVR_STEP_COUNT`. -/
def nestvrStepCount : Nat := 9

/-- `TIME_WARMUP_ABR`. -/
def timeWarmupAbr : Nat := 8000000000

/-- `f32::max` with a value that may not be a number. -/
def fmax (x : Option ℚ) (y : ℚ) : ℚ := x.elim y (max · y)

/-! ## Modes -/

/-- `ProfileConfig`, by what a pass reads. -/
structure ProfileConfig where
  bitrateIncSteps : Nat
  bitrateDecSteps : Nat
  rttAdjProb : ℚ
  bitrateIncProb : ℚ
  nfrThresh : ℚ
  rttThreshMs : ℚ
  capacityScalingFactor : ℚ
deriving DecidableEq, Repr

/-- `NestVrProfile`. -/
inductive NestVrProfile
  | custom
  | balanced
  | speedy
  | anxious
deriving DecidableEq, Repr

/-- `BitrateMode`. -/
inductive BitrateMode
  | constantMbps (mbps : ℚ)
  | adaptive (saturationMultiplier : ℚ) (maxBitrateMbps minBitrateMbps maxRttMs : Option ℚ)
  | everest (bitrateLadderMbps : List ℚ)
  | nestVr (maxBitrateMbps minBitrateMbps : ℚ) (profile : ProfileConfig)
  | gccPort (gccEstimator : GccBandwidthEstimator) (framerate : ℚ)
  | nadaCiscoPort
  | fovOptixPort
  | oracle (marginMbps minMbps maxMbps : ℚ)
deriving DecidableEq, Repr

/-- `EverestCommand`. -/
inductive EverestCommand
  | slowDown
  | speedUp
  | continue
deriving DecidableEq, Repr

/-- `BitrateManager`. -/
structure BitrateManager where
  lastFrameInstant : Nat := 0
  lastUpdateInstant : Nat := 0
  bitrateMode : BitrateMode
  frameIntervalAverage : SlidingWindowAverage ℚ
  bitrateAverageMbps : SlidingWindowAverage ℚ
  rttAverage : SlidingWindowAverage ℚ
  peakThroughputAverage : SlidingWindowAverage ℚ
  frameInterarrivalAverage : SlidingWindowAverage ℚ
  everestCapacityEwma : ℚ := 0
  everestThroughputEwma : ℚ := 0
  everestTimeLastCapacityUpdate : Nat := 0
  everestTimeLastThroughputUpdate : Nat := 0
  everestLastOrder : EverestCommand := .continue
  lastStatsReceived : Nat := 0
  lastTargetBitrateBps : ℚ
  bitrateLadderBps : Option (List ℚ)
  bitrateStepSizeBpsNest : ℚ
  lastNadaTargetBitrateMbps : Option ℚ := none
  framerate : ℚ
  oracleBandwidthTrace : List NetworkPattern
deriving DecidableEq, Repr

/-- The parameters a manager is made from. -/
structure AbrConfig where
  abrEnabled : Nat
  initialBitrateMbps : ℚ
  framerate : ℚ
  nestVrProfile : NestVrProfile
  /-- `t_update_abr`, as a duration. -/
  tUpdateAbr : Nat
  /-- `XRSIM_NADA_FIX`. -/
  nadaLevel : Nat
  maxHistorySize : Nat
  networkEffects : List NetworkPattern
deriving DecidableEq, Repr

namespace BitrateManager

/-- The ladder of NeSt-VR, from `last` upwards. -/
def nestLadder (step : ℚ) : Nat → ℚ → List ℚ
  | 0, last => [last]
  | n + 1, last => last :: nestLadder step n (last + step)

/-- The step between two rungs of NeSt-VR. -/
def nestStepSizeBps : ℚ :=
  (maxMbpsLadder * 1000000 - minMbpsLadder * 1000000) / nestvrStepCount

/-- The ladder of EVeREst. -/
def everestLadderMbps : List ℚ := [10, 20, 40, 60, 80, maxMbpsLadder]

/-- The mode for `abr_enabled`. -/
def modeOf (cfg : AbrConfig) : BitrateMode :=
  match cfg.abrEnabled with
  | 1 => .nestVr maxMbpsLadder minMbpsLadder
    { bitrateIncSteps := 1
      bitrateDecSteps :=
        match cfg.nestVrProfile with
        | .anxious => 10
        | .balanced => 1
        | .speedy => 2
        | .custom => 1
      rttAdjProb := 1
      bitrateIncProb := 25 / 100
      nfrThresh := 99 / 100
      rttThreshMs := 22
      capacityScalingFactor := 9 / 10 }
  | 2 => .everest everestLadderMbps
  | 4 => .gccPort (.new cfg.framerate) cfg.framerate
  | 5 => .nadaCiscoPort
  | 6 => .fovOptixPort
  | 8 => .oracle oracleBitrateMarginMbps minOracleBitrateMbps maxMbpsLadder
  | 9 => .adaptive (95 / 100) (some maxMbpsLadder) (some minMbpsLadder) (some 8)
  | _ => .constantMbps cfg.initialBitrateMbps

/-- The ladder for `abr_enabled`, empty for modes without one. -/
def ladderOf (cfg : AbrConfig) : List ℚ :=
  match cfg.abrEnabled with
  | 1 => nestLadder nestStepSizeBps nestvrStepCount (minMbpsLadder * 1000000)
  | 2 => everestLadderMbps.map (· * 1000000)
  | _ => []

/-- The bitrate to start with: the top of the ladder for modes that adapt. -/
def seedBitrateMbps (cfg : AbrConfig) : ℚ :=
  if cfg.abrEnabled ∈ [1, 2, 4, 5, 6, 8] then maxMbpsLadder else cfg.initialBitrateMbps

/-- `BitrateManager::new`, and what `XRServer::new` sets of it. -/
def new (cfg : AbrConfig) : BitrateManager where
  bitrateMode := modeOf cfg
  frameIntervalAverage := .new (1 / cfg.framerate) cfg.maxHistorySize
  bitrateAverageMbps := .new (seedBitrateMbps cfg) cfg.maxHistorySize
  rttAverage := .new (5 / 1000) cfg.maxHistorySize
  peakThroughputAverage := .new 300000000 cfg.maxHistorySize
  frameInterarrivalAverage := .new (1 / cfg.framerate) cfg.maxHistorySize
  lastTargetBitrateBps := seedBitrateMbps cfg * 1000000
  bitrateLadderBps := some (ladderOf cfg)
  bitrateStepSizeBpsNest := nestStepSizeBps
  -- XRSIM_NADA_FIX=2: the initial bitrate, within NADA's bounds.
  lastNadaTargetBitrateMbps :=
    if cfg.abrEnabled = 5 ∧ cfg.nadaLevel ≥ 2 then
      some (max (rmcatCcDefaultRmin : ℚ)
        (min (cfg.initialBitrateMbps * 1000000) (rmcatCcDefaultRmax : ℚ)) / 1000000)
    else none
  framerate := cfg.framerate
  oracleBandwidthTrace := cfg.networkEffects

end BitrateManager

/-! ## Bounds -/

/-- The binary search of a sorted ladder: the index of the bitrate, or where it would be. -/
def binarySearch (ladder : List ℚ) (bitrateBps : ℚ) : Except Nat Nat :=
  let index := ladder.countP (· < bitrateBps)
  if ladder[index]? = some bitrateBps then .ok index else .error index

/-- `upper_bound_bitrate`. -/
def upperBoundBitrate (bitrateBps : ℚ) (ladder : List ℚ) : ℚ :=
  match binarySearch ladder bitrateBps with
  | .ok index => ladder.getD index bitrateBps
  | .error index =>
    if index = 0 then ladder.head?.getD bitrateBps else ladder.getD (index - 1) bitrateBps

/-- `minmax_bitrate`. -/
def minmaxBitrate (bitrateBps maxBitrateBps minBitrateBps : ℚ) : ℚ :=
  max (min bitrateBps maxBitrateBps) minBitrateBps

namespace BitrateManager

/-! ## Reports -/

/-- What a frame report brings: `NetworkStatisticsPacket`, and what the server measures. -/
structure NetworkStatistics where
  /-- The round-trip time, in nanoseconds. -/
  networkRtt : Nat
  peakThroughputBps : ℚ
  frameInterarrivalS : ℚ
  bytesInFrame : Nat
  everestCapacityUpdate : ℚ
  everestThroughputUpdate : ℚ
  everestCommand : EverestCommand
deriving DecidableEq, Repr

/-- The moving average of EVeREst, `dt` after the last sample. -/
def everestEwma (dt : Nat) (sample ewma : ℚ) : ℚ :=
  secs dt / 5 * sample + (1 - secs dt / 5) * ewma

/-- `report_encoded_frame_server`. -/
def reportEncodedFrameServer (m : BitrateManager) (now : Nat) : BitrateManager :=
  let m :=
    if m.lastFrameInstant ≠ 0 then
      { m with frameIntervalAverage :=
          m.frameIntervalAverage.submitSample (secs (now - m.lastFrameInstant)) }
    else if m.lastStatsReceived = 0 then { m with lastStatsReceived := now }
    else m
  { m with lastFrameInstant := now }

/-- The averages that a report feeds. -/
def submitAverages (m : BitrateManager) (stats : NetworkStatistics) : BitrateManager :=
  { m with
    rttAverage := m.rttAverage.submitSample (secs stats.networkRtt)
    bitrateAverageMbps :=
      if 0 < stats.networkRtt then
        m.bitrateAverageMbps.submitSample
          (stats.bytesInFrame * 8 / secs stats.networkRtt / 1000000)
      else m.bitrateAverageMbps
    peakThroughputAverage := m.peakThroughputAverage.submitSample stats.peakThroughputBps
    frameInterarrivalAverage :=
      if stats.frameInterarrivalS < 1 then
        m.frameInterarrivalAverage.submitSample stats.frameInterarrivalS
      else m.frameInterarrivalAverage }

/-- The estimates of EVeREst that a report feeds. -/
def submitEverest (m : BitrateManager) (stats : NetworkStatistics) (now : Nat) : BitrateManager :=
  let m :=
    if 0 < stats.everestCapacityUpdate then
      { m with
        everestCapacityEwma := everestEwma (now - m.everestTimeLastCapacityUpdate)
          stats.everestCapacityUpdate m.everestCapacityEwma
        everestTimeLastCapacityUpdate := now }
    else m
  let m :=
    if 0 < stats.everestThroughputUpdate then
      { m with
        everestThroughputEwma := everestEwma (now - m.everestTimeLastThroughputUpdate)
          stats.everestThroughputUpdate m.everestThroughputEwma
        everestTimeLastThroughputUpdate := now }
    else m
  { m with everestLastOrder := stats.everestCommand }

/-- `report_network_statistics_abr`. -/
def reportNetworkStatisticsAbr (fns : MathFns) (m : BitrateManager) (stats : NetworkStatistics)
    (now sendInstant : Nat) : BitrateManager :=
  let m := { m with
    lastStatsReceived := now
    bitrateMode :=
      match m.bitrateMode with
      | .gccPort gcc framerate =>
        .gccPort (gcc.update fns sendInstant now stats.bytesInFrame) framerate
      | mode => mode }
  (m.submitAverages stats).submitEverest stats now

/-! ## The stats timeout -/

/-- One rung down the ladder from the target. -/
def stepDown (ladder : List ℚ) (target : ℚ) : ℚ :=
  let current := upperBoundBitrate target ladder
  let index := (ladder.idxOf? current).getD 0
  ladder.getD (index - 1) target

/-- The frame interval that the timeout is measured in. -/
def timeoutInterval (m : BitrateManager) : Option Nat :=
  match m.frameIntervalAverage.getAverage with
  | some average =>
    if 0 < average then Duration.fromSecsF64 average else Duration.fromQuotient 1 m.framerate
  | none => Duration.fromQuotient 1 m.framerate

/-- `check_stats_timeout`. -/
def checkStatsTimeout (m : BitrateManager) (now : Nat) : Option BitrateManager :=
  m.timeoutInterval.map fun frameInterval =>
    if m.lastStatsReceived = 0 ∨ now < m.lastStatsReceived then m
    else if now - m.lastStatsReceived < frameInterval * 3 then m
    else
      let m := { m with lastStatsReceived := now }
      match m.bitrateLadderBps with
      | none => m
      | some ladder =>
        if ladder.isEmpty then m
        else { m with lastTargetBitrateBps := stepDown ladder m.lastTargetBitrateBps }

/-- `stats_timeout_per_frame`. -/
def statsTimeoutPerFrame (m : BitrateManager) (now : Nat) : Option BitrateManager :=
  match m.bitrateMode with
  | .nestVr _ _ _ => m.checkStatsTimeout now
  | _ => some m

/-! ## Passes -/

/-- The pass of `Adaptive`. -/
def passAdaptive (m : BitrateManager) (saturationMultiplier : ℚ)
    (maxBitrateMbps minBitrateMbps maxRttMs : Option ℚ) : ℚ :=
  let achieved := fmax m.bitrateAverageMbps.getAverage (1 / 1000000000) * 1000000
  let bitrate := achieved * saturationMultiplier
  let bitrate := maxRttMs.elim bitrate fun maxMs =>
    min bitrate (achieved * (maxMs / 1000) / fmax m.rttAverage.getAverage (1 / 1000000000))
  let bitrate := maxBitrateMbps.elim bitrate fun max => min bitrate (max * 1000000)
  minBitrateMbps.elim bitrate fun min => max bitrate (min * 1000000)

/-- The rung of EVeREst for its last order. The ladder is never empty. -/
def everestRung (ladder : List ℚ) (current : ℚ) : EverestCommand → ℚ
  | .continue => (ladder.find? fun x => |x - current| < 1 / 8388608).getD current
  | .speedUp => (ladder.find? (current < ·)).getD (ladder.getLast?.getD current)
  | .slowDown => (ladder.reverse.find? (· < current)).getD (ladder.head?.getD current)

/-- The pass of `EVeREst`. -/
def passEverest (m : BitrateManager) (ladderMbps : List ℚ) : ℚ :=
  let current := m.lastTargetBitrateBps / 1000000
  let bitrate := everestRung ladderMbps current m.everestLastOrder * 1000000
  let bitrate :=
    if 0 < m.everestThroughputEwma then
      let nUsers := ⌈m.everestCapacityEwma / m.everestThroughputEwma⌉.toNat
      min (m.everestCapacityEwma / (nUsers + 1)) bitrate
    else bitrate
  m.bitrateLadderBps.elim bitrate (upperBoundBitrate bitrate)

/-- `nestvr_capacity_bps`; none is infinite. -/
def nestvrCapacityBps (m : BitrateManager) : Option ℚ :=
  if m.peakThroughputAverage.historyBuffer = [] ∨
      m.peakThroughputAverage.historyBuffer.any (· ≤ 0) then none
  else some (fmax m.peakThroughputAverage.getAverage (1 / 1000000000))

/-- The rate of frames for their mean interval. -/
def fpsOf (interval : Option ℚ) : ℚ :=
  if interval = some 0 then 0 else 1 / fmax interval (1 / 1000000000)

/-- The step NeSt-VR takes from the target, for its random numbers. -/
def nestDecision (m : BitrateManager) (profile : ProfileConfig) (rRtt rInc : ℚ) : ℚ :=
  let nfr := fpsOf m.frameInterarrivalAverage.getAverage /
    (1 / fmax m.frameIntervalAverage.getAverage (1 / 1000000000))
  let down := -(profile.bitrateDecSteps * m.bitrateStepSizeBpsNest)
  if m.frameIntervalAverage.getAverage.any (0 < ·) ∧
      30 ≤ m.frameIntervalAverage.historyBuffer.length ∧
      30 ≤ m.frameInterarrivalAverage.historyBuffer.length then
    if nfr < profile.nfrThresh then down
    else if m.rttAverage.getAverage.any (profile.rttThreshMs < · * 1000) then
      if rRtt ≤ profile.rttAdjProb then down else 0
    else if rInc ≤ profile.bitrateIncProb then
      profile.bitrateIncSteps * m.bitrateStepSizeBpsNest
    else 0
  else 0

/-- The pass of `NestVr`. -/
def passNestVr (m : BitrateManager) (maxBitrateMbps minBitrateMbps : ℚ) (profile : ProfileConfig)
    (rRtt rInc : ℚ) : ℚ :=
  let bitrate := m.lastTargetBitrateBps + m.nestDecision profile rRtt rInc
  let bitrate := m.nestvrCapacityBps.elim bitrate fun capacity =>
    min bitrate (profile.capacityScalingFactor * capacity)
  let bitrate := minmaxBitrate bitrate (maxBitrateMbps * 1000000) (minBitrateMbps * 1000000)
  m.bitrateLadderBps.elim bitrate (upperBoundBitrate bitrate)

/-- The data of a bandwidth pattern. -/
def asBandwidth : NetworkPattern → Option Bandwidth
  | .bandwidth b => some b
  | _ => none

/-- `oracle_min_cap_over_lookahead_mbps`. -/
def oracleMinCapOverLookaheadMbps (m : BitrateManager) (now : Nat) : Option ℚ :=
  let horizon := (checkedAdd now oracleLookahead).getD now
  let bandwidths := m.oracleBandwidthTrace.filterMap asBandwidth
  if bandwidths.any fun b => b.validFrom ≤ now ∧ now < b.validUntil then
    ((bandwidths.filter fun b => b.validFrom ≤ horizon ∧ now < b.validUntil).map
      fun b => b.maxBps / 1000000).min?
  else none

/-- The pass of `Oracle`. -/
def passOracle (m : BitrateManager) (marginMbps minMbps maxMbps : ℚ) (now : Nat) : ℚ :=
  (m.oracleMinCapOverLookaheadMbps now).elim m.lastTargetBitrateBps fun cap =>
    min (max (cap - marginMbps) minMbps) maxMbps * 1000000

/-- The target of a pass after the warm-up. -/
def passTarget (m : BitrateManager) (now : Nat) (rRtt rInc : ℚ) : ℚ :=
  match m.bitrateMode with
  | .constantMbps mbps => mbps * 1000000
  | .adaptive saturation max min maxRtt => m.passAdaptive saturation max min maxRtt
  | .everest ladder => m.passEverest ladder
  | .nestVr max min profile => m.passNestVr max min profile rRtt rInc
  | .gccPort gcc _ => gcc.getTargetBitrateBps
  | .nadaCiscoPort => m.lastNadaTargetBitrateMbps.elim (nadaInitialRate : ℚ) (· * 1000000)
  | .fovOptixPort => m.lastTargetBitrateBps
  | .oracle margin min max => m.passOracle margin min max now

/-- `one_pass_abr`. -/
def onePassAbr (m : BitrateManager) (now : Nat) (rRtt rInc : ℚ) : BitrateManager :=
  if now < timeWarmupAbr then m
  else { m with lastTargetBitrateBps := m.passTarget now rRtt rInc }

/-! ## The oracle's events -/

/-- `oracle_ramp_target_mbps`. -/
def oracleRampTargetMbps (m : BitrateManager) (capMbps marginMbps minMbps : ℚ) (now : Nat) : ℚ :=
  let target := max (capMbps - marginMbps) minMbps
  let prev := m.lastTargetBitrateBps / 1000000
  if target ≥ prev then
    min (prev + oracleRampUpMbpsPerSec * secs (now - m.lastUpdateInstant)) target
  else target

/-- `oracle_apply_cap`. The maximum of the mode is not used. -/
def oracleApplyCap (m : BitrateManager) (now : Nat) (capMbps : ℚ) : BitrateManager :=
  match m.bitrateMode with
  | .oracle margin min _ =>
    { m with
      lastTargetBitrateBps := m.oracleRampTargetMbps capMbps margin min now * 1000000
      lastUpdateInstant := now }
  | _ => m

/-- The cap in effect at a time. -/
def activeCapMbps (m : BitrateManager) (now : Nat) : Option ℚ :=
  ((m.oracleBandwidthTrace.filterMap asBandwidth).find? fun b =>
    b.validFrom ≤ now ∧ now < b.validUntil).map fun b => b.maxBps / 1000000

/-- `oracle_snap_to_cap`. -/
def oracleSnapToCap (m : BitrateManager) (now : Nat) : BitrateManager :=
  (m.activeCapMbps now).elim m (m.oracleApplyCap now)

/-! ## Session resets -/

/-- The target after a reset. -/
def resetTarget (m : BitrateManager) : ℚ :=
  match m.bitrateMode with
  | .constantMbps mbps => mbps * 1000000
  | .adaptive _ max _ _ => max.getD maxMbpsLadder * 1000000
  | .everest ladder => ladder.getLast?.getD 0 * 1000000
  | .nestVr max _ _ => max * 1000000
  -- `GCC_INIT_CONFIGURED_BITRATE` is in bit/s already.
  | .gccPort _ _ => gccInitConfiguredBitrate * 1000000
  | .nadaCiscoPort => nadaInitialRate
  | .fovOptixPort => maxMbpsLadder * 1000000
  | .oracle _ _ max => max * 1000000

/-- `reset`. -/
def reset (m : BitrateManager) : BitrateManager :=
  { m with
    lastFrameInstant := 0
    lastUpdateInstant := 0
    lastStatsReceived := 0
    frameIntervalAverage := m.frameIntervalAverage.clear
    rttAverage := m.rttAverage.clear
    peakThroughputAverage := m.peakThroughputAverage.clear
    frameInterarrivalAverage := m.frameInterarrivalAverage.clear
    bitrateAverageMbps := m.bitrateAverageMbps.clear
    lastTargetBitrateBps := m.resetTarget
    bitrateMode :=
      match m.bitrateMode with
      | .gccPort _ framerate => .gccPort (.new framerate) framerate
      | mode => mode
    everestCapacityEwma := 0
    everestThroughputEwma := 0
    everestTimeLastCapacityUpdate := 0
    everestTimeLastThroughputUpdate := 0
    everestLastOrder := .continue }

end BitrateManager

end SiestaVR.Abr
