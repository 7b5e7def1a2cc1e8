import SiestaVR.Lib.Prefixes
import SiestaVR.Abr.PerFrame

/-!
# The ladder (lib/models_XR.rs:2247–2327, 2425–2484, 2486–2623, 7822–7850)

NeSt-VR and EVeREst move on a ladder of bitrates. The pass of either ends with
`upper_bound_bitrate`, which goes down to the next rung; NeSt-VR's stats timeout goes one rung
down. This module is about any strictly increasing ladder whose lowest rung is the configured
minimum (`Laddered`), and any sequence of reports, frames, timeouts and passes.

The target never leaves the ladder. A pass of NeSt-VR does not go above the target before by
more than its increase steps, nor above the scaled capacity, unless it ends on the lowest rung;
a timeout goes from a rung to the one below (`ladder_kept`).
-/

namespace SiestaVR.Abr

open Lib

/-! ## Rungs -/

variable {ladder : List ℚ} {bps lowest : ℚ} {i : Nat}

theorem upperBoundBitrate_eq (bps : ℚ) (ladder : List ℚ) :
    upperBoundBitrate bps ladder =
      let place := ladder.countP (· < bps)
      if ladder[place]? = some bps then bps
      else if place = 0 then ladder.head?.getD bps else ladder.getD (place - 1) bps := by
  unfold upperBoundBitrate binarySearch
  dsimp only
  split_ifs with hfound hzero
  · dsimp only
    rw [List.getD_eq_getElem?_getD, hfound, Option.getD_some]
  · dsimp only
    rw [if_pos hzero]
  · dsimp only
    rw [if_neg hzero]

theorem lowest_le (hsorted : ladder.Pairwise (· < ·)) (hhead : ladder.head? = some lowest)
    (hmem : bps ∈ ladder) : lowest ≤ bps := by
  obtain ⟨rest, rfl⟩ := List.head?_eq_some_iff.1 hhead
  rcases List.mem_cons.1 hmem with rfl | hmem
  · exact le_rfl
  · exact (List.rel_of_pairwise_cons hsorted hmem).le

theorem upperBoundBitrate_le (hsorted : ladder.Pairwise (· < ·))
    (hhead : ladder.head? = some lowest) (hle : lowest ≤ bps) :
    upperBoundBitrate bps ladder ≤ bps := by
  rw [upperBoundBitrate_eq]
  dsimp only
  split_ifs with hfound hzero
  · exact le_rfl
  · rw [hhead, Option.getD_some]
    exact hle
  · -- the rung before the place of the bitrate
    have hlen : ladder.countP (· < bps) ≤ ladder.length := List.countP_le_length
    have hlt : ladder.countP (· < bps) - 1 < ladder.length := by omega
    have hrung := List.getElem?_eq_getElem hlt
    rw [List.getD_eq_getElem?_getD, hrung, Option.getD_some]
    have hbelow := (lt_countP_iff (initial_of_sorted hsorted bps) hrung).1 (by omega)
    exact (of_decide_eq_true hbelow).le

theorem upperBoundBitrate_rung (hsorted : ladder.Pairwise (· < ·)) (hi : ladder[i]? = some bps) :
    upperBoundBitrate bps ladder = bps := by
  rw [upperBoundBitrate_eq, countP_lt_getElem? hsorted hi]
  exact if_pos hi

namespace BitrateManager

theorem stepDown_rung (hsorted : ladder.Pairwise (· < ·)) (hi : ladder[i]? = some bps) :
    ladder[i - 1]? = some (stepDown ladder bps) := by
  obtain ⟨hlt, hrung⟩ := List.getElem?_eq_some_iff.1 hi
  have hindex : ladder.idxOf? bps = some i := by
    refine List.idxOf?_eq_some_iff.2 ⟨hlt, hrung, fun j hj heq => ?_⟩
    have hj' : ladder[j]? = some bps := List.getElem?_eq_some_iff.2 ⟨hj.trans hlt, heq⟩
    exact lt_irrefl _ (lt_of_getElem?_lt hsorted hj hj' hi)
  simp only [stepDown, upperBoundBitrate_rung hsorted hi, hindex, Option.getD_some]
  rw [List.getElem?_eq_getElem (by omega), List.getD_eq_getElem _ _ (by omega)]

/-! ## Managers on a ladder -/

/-- The manager moves on the ladder, whose lowest rung is the minimum of NeSt-VR. -/
structure Laddered (ladder : List ℚ) (lowest : ℚ) (m : BitrateManager) : Prop where
  rungs : m.bitrateLadderBps = some ladder
  sorted : ladder.Pairwise (· < ·)
  head : ladder.head? = some lowest
  mode : m.bitrateMode.OnLadder
  minimum : ∀ max min profile, m.bitrateMode = .nestVr max min profile → min * 1000000 = lowest
  stepSize : 0 ≤ m.bitrateStepSizeBpsNest

/-- The stats timeout of NeSt-VR has passed. -/
def TimedOut (m : BitrateManager) (now : Nat) : Prop :=
  (∃ max min profile, m.bitrateMode = .nestVr max min profile) ∧
    ∃ frameInterval ∈ m.timeoutInterval, m.lastStatsReceived ≠ 0 ∧ m.lastStatsReceived ≤ now ∧
      frameInterval * 3 ≤ now - m.lastStatsReceived

/-- What happens to the manager. -/
inductive LadderEvent
  | statistics (stats : NetworkStatistics) (sendInstant : Nat)
  | encodedFrame
  | statsTimeout
  /-- A pass, with its random numbers. -/
  | pass (rRtt rInc : ℚ)
deriving DecidableEq, Repr

/-- What an event does, at a time. -/
def ladderStep (fns : MathFns) (m : BitrateManager) (e : Nat × LadderEvent) :
    Option BitrateManager :=
  match e.2 with
  | .statistics stats sendInstant => some (m.reportNetworkStatisticsAbr fns stats e.1 sendInstant)
  | .encodedFrame => some (m.reportEncodedFrameServer e.1)
  | .statsTimeout => m.statsTimeoutPerFrame e.1
  | .pass rRtt rInc => some (m.onePassAbr e.1 rRtt rInc)

/-- What a pass and a timeout do to the target. -/
def Moves (ladder : List ℚ) (lowest : ℚ) (m : BitrateManager) (e : Nat × LadderEvent)
    (m' : BitrateManager) : Prop :=
  match e.2 with
  | .pass _ _ => timeWarmupAbr ≤ e.1 →
    m'.lastTargetBitrateBps ∈ ladder ∧
      ∀ max min profile, m.bitrateMode = .nestVr max min profile →
        (m.lastTargetBitrateBps ∈ ladder → m'.lastTargetBitrateBps ≤
          m.lastTargetBitrateBps + profile.bitrateIncSteps * m.bitrateStepSizeBpsNest) ∧
        ∀ capacity ∈ m.nestvrCapacityBps,
          m'.lastTargetBitrateBps ≤ profile.capacityScalingFactor * capacity ∨
            m'.lastTargetBitrateBps = lowest
  | .statsTimeout => m.TimedOut e.1 →
    m'.lastTargetBitrateBps ∈ ladder ∧ ∀ i : Nat, ladder[i]? = some m.lastTargetBitrateBps →
      ladder[i - 1]? = some m'.lastTargetBitrateBps
  | _ => m'.lastTargetBitrateBps = m.lastTargetBitrateBps

variable {fns : MathFns} {m m' : BitrateManager} {e : Nat × LadderEvent} {profile : ProfileConfig}
  {maxMbps minMbps rRtt rInc : ℚ}

/-! ## The pass of NeSt-VR -/

theorem nestDecision_le (hstep : 0 ≤ m.bitrateStepSizeBpsNest) (profile : ProfileConfig)
    (rRtt rInc : ℚ) :
    m.nestDecision profile rRtt rInc ≤ profile.bitrateIncSteps * m.bitrateStepSizeBpsNest := by
  have hup : 0 ≤ profile.bitrateIncSteps * m.bitrateStepSizeBpsNest :=
    mul_nonneg (Nat.cast_nonneg _) hstep
  have hdown : -(profile.bitrateDecSteps * m.bitrateStepSizeBpsNest) ≤ 0 :=
    neg_nonpos.2 (mul_nonneg (Nat.cast_nonneg _) hstep)
  simp only [nestDecision]
  split_ifs
  · exact hdown.trans hup
  · exact hdown.trans hup
  · exact hup
  · exact le_rfl
  · exact hup
  · exact hup

/-- The bitrate of a pass of NeSt-VR before it goes down to a rung. -/
def nestBitrate (m : BitrateManager) (maxBitrateMbps minBitrateMbps : ℚ) (profile : ProfileConfig)
    (rRtt rInc : ℚ) : ℚ :=
  let bitrate := m.lastTargetBitrateBps + m.nestDecision profile rRtt rInc
  let bitrate := m.nestvrCapacityBps.elim bitrate fun capacity =>
    min bitrate (profile.capacityScalingFactor * capacity)
  minmaxBitrate bitrate (maxBitrateMbps * 1000000) (minBitrateMbps * 1000000)

theorem Laddered.passNestVr_eq (h : Laddered ladder lowest m) :
    m.passNestVr maxMbps minMbps profile rRtt rInc =
      upperBoundBitrate (m.nestBitrate maxMbps minMbps profile rRtt rInc) ladder := by
  simp only [passNestVr, nestBitrate, h.rungs, Option.elim_some]

/-- The bitrate is at most the target with the increase, and the scaled capacity; or the
minimum. -/
theorem nestBitrate_le (hstep : 0 ≤ m.bitrateStepSizeBpsNest) (maxMbps minMbps : ℚ)
    (profile : ProfileConfig) (rRtt rInc : ℚ) :
    m.nestBitrate maxMbps minMbps profile rRtt rInc ≤
        max (m.lastTargetBitrateBps + profile.bitrateIncSteps * m.bitrateStepSizeBpsNest)
          (minMbps * 1000000) ∧
      ∀ capacity ∈ m.nestvrCapacityBps, m.nestBitrate maxMbps minMbps profile rRtt rInc ≤
        max (profile.capacityScalingFactor * capacity) (minMbps * 1000000) := by
  have hdecision := m.nestDecision_le hstep profile rRtt rInc
  simp only [nestBitrate, minmaxBitrate]
  constructor
  · refine max_le_max_right _ ((min_le_left _ _).trans ?_)
    cases m.nestvrCapacityBps with
    | none => exact add_le_add_right hdecision _
    | some capacity => exact (min_le_left _ _).trans (add_le_add_right hdecision _)
  · intro capacity hcapacity
    rw [Option.mem_def.1 hcapacity, Option.elim_some]
    exact max_le_max_right _ ((min_le_left _ _).trans (min_le_right _ _))

namespace Laddered

theorem ne_nil (h : Laddered ladder lowest m) : ladder ≠ [] :=
  List.ne_nil_of_mem (List.mem_of_mem_head? h.head)

theorem lowest_stays (h : Laddered ladder lowest m) : upperBoundBitrate lowest ladder = lowest :=
  upperBoundBitrate_rung h.sorted (List.head?_eq_getElem?.symm.trans h.head)

/-- A pass of NeSt-VR, by the target before and by the capacity. -/
theorem passNestVr_le (h : Laddered ladder lowest m)
    (hmode : m.bitrateMode = .nestVr maxMbps minMbps profile) (rRtt rInc : ℚ) :
    let target := m.passNestVr maxMbps minMbps profile rRtt rInc
    (m.lastTargetBitrateBps ∈ ladder → target ≤
      m.lastTargetBitrateBps + profile.bitrateIncSteps * m.bitrateStepSizeBpsNest) ∧
    ∀ capacity ∈ m.nestvrCapacityBps,
      target ≤ profile.capacityScalingFactor * capacity ∨ target = lowest := by
  intro target
  have htarget : target = _ := h.passNestVr_eq
  have hminimum := h.minimum maxMbps minMbps profile hmode
  obtain ⟨hincrease, hcapacity⟩ := nestBitrate_le h.stepSize maxMbps minMbps profile rRtt rInc
  rw [hminimum] at hincrease hcapacity
  have hlow : lowest ≤ m.nestBitrate maxMbps minMbps profile rRtt rInc :=
    hminimum ▸ le_max_right _ _
  have hdown : target ≤ m.nestBitrate maxMbps minMbps profile rRtt rInc :=
    htarget ▸ upperBoundBitrate_le h.sorted h.head hlow
  constructor
  · intro hrung
    have hprev : lowest ≤ m.lastTargetBitrateBps := lowest_le h.sorted h.head hrung
    have hup : 0 ≤ profile.bitrateIncSteps * m.bitrateStepSizeBpsNest :=
      mul_nonneg (Nat.cast_nonneg _) h.stepSize
    exact hdown.trans (hincrease.trans (max_le le_rfl (by linarith)))
  · intro capacity hmem
    rcases le_total lowest (profile.capacityScalingFactor * capacity) with hle | hle
    · exact .inl (hdown.trans ((hcapacity capacity hmem).trans (max_le le_rfl hle)))
    · -- the minimum is above the scaled capacity
      have hbitrate := le_antisymm ((hcapacity capacity hmem).trans (max_le hle le_rfl)) hlow
      exact .inr (by rw [htarget, hbitrate, h.lowest_stays])

theorem passTarget_mem (h : Laddered ladder lowest m) (now : Nat) (rRtt rInc : ℚ) :
    m.passTarget now rRtt rInc ∈ ladder := by
  have hmode := h.mode
  unfold passTarget
  cases hm : m.bitrateMode with
  | everest ladderMbps =>
    simp only [passEverest, h.rungs, Option.elim_some]
    exact upperBoundBitrate_mem h.ne_nil _
  | nestVr maxMbps minMbps profile =>
    dsimp only
    rw [h.passNestVr_eq]
    exact upperBoundBitrate_mem h.ne_nil _
  | _ =>
    rw [hm] at hmode
    exact hmode.elim

/-! ## The stats timeout -/

theorem target_of_timedOut (h : Laddered ladder lowest m) {now : Nat} (hout : m.TimedOut now)
    (hm' : m.statsTimeoutPerFrame now = some m') :
    m'.lastTargetBitrateBps = stepDown ladder m.lastTargetBitrateBps := by
  obtain ⟨⟨max, min, profile, hmode⟩, frameInterval, hinterval, hstarted, hle, hlate⟩ := hout
  have hwait : ¬ (m.lastStatsReceived = 0 ∨ now < m.lastStatsReceived) :=
    not_or.2 ⟨hstarted, hle.not_gt⟩
  have hempty : ladder.isEmpty = false := by simpa using h.ne_nil
  simp only [statsTimeoutPerFrame, hmode, checkStatsTimeout, Option.mem_def.1 hinterval,
    Option.map_some, if_neg hwait, if_neg hlate.not_gt, h.rungs, hempty, Bool.false_eq_true,
    if_false, Option.some.injEq] at hm'
  rw [← hm']

theorem target_of_not_timedOut {now : Nat} (hout : ¬ m.TimedOut now)
    (hm' : m.statsTimeoutPerFrame now = some m') :
    m'.lastTargetBitrateBps = m.lastTargetBitrateBps := by
  unfold statsTimeoutPerFrame at hm'
  split at hm'
  · next max min profile hmode =>
    obtain ⟨frameInterval, hinterval, rfl⟩ := Option.map_eq_some_iff.1 hm'
    split_ifs with hwait hearly
    · rfl
    · rfl
    · obtain ⟨hstarted, hle⟩ := not_or.1 hwait
      exact absurd ⟨⟨max, min, profile, hmode⟩, frameInterval, hinterval, hstarted,
        not_lt.1 hle, not_lt.1 hearly⟩ hout
  · cases hm'
    rfl

/-! ## Runs -/

/-- What a pass and a timeout do to the target. -/
theorem moves (h : Laddered ladder lowest m) (hm' : ladderStep fns m e = some m') :
    Moves ladder lowest m e m' := by
  obtain ⟨now, event⟩ := e
  cases event with
  | statistics stats sendInstant =>
    cases hm'
    exact (m.reportNetworkStatisticsAbr_spec fns stats now sendInstant).2.2.2.2
  | encodedFrame =>
    cases hm'
    exact (m.reportEncodedFrameServer_spec now).2.2.2
  | statsTimeout =>
    intro hout
    rw [h.target_of_timedOut hout hm']
    exact ⟨stepDown_mem h.ne_nil _, fun i hi => stepDown_rung h.sorted hi⟩
  | pass rRtt rInc =>
    intro hwarm
    cases hm'
    rw [onePassAbr, if_neg hwarm.not_gt]
    refine ⟨h.passTarget_mem now rRtt rInc, fun maxMbps minMbps profile hmode => ?_⟩
    simp only [passTarget, hmode]
    exact h.passNestVr_le hmode rRtt rInc

/-- The events leave the mode, the ladder and the step size. -/
theorem ladderStep_keeps (h : Laddered ladder lowest m) (hm' : ladderStep fns m e = some m') :
    m'.bitrateMode = m.bitrateMode ∧ m'.bitrateLadderBps = m.bitrateLadderBps ∧
      m'.bitrateStepSizeBpsNest = m.bitrateStepSizeBpsNest := by
  have hretargeted : m.Retargeted m' → m'.bitrateMode = m.bitrateMode ∧
      m'.bitrateLadderBps = m.bitrateLadderBps ∧
      m'.bitrateStepSizeBpsNest = m.bitrateStepSizeBpsNest := by
    rintro ⟨_, _, _, _, _, rfl⟩
    exact ⟨rfl, rfl, rfl⟩
  obtain ⟨now, event⟩ := e
  cases event with
  | statistics stats sendInstant =>
    cases hm'
    refine ⟨?_, (m.reportNetworkStatisticsAbr_spec fns stats now sendInstant).2.1, ?_⟩
    · rw [(m.reportNetworkStatisticsAbr_spec fns stats now sendInstant).1]
      have hmode := h.mode
      cases hm : m.bitrateMode with
      | gccPort gcc framerate =>
        rw [hm] at hmode
        exact hmode.elim
      | _ => rfl
    · simp only [reportNetworkStatisticsAbr, submitEverest]
      split_ifs <;> rfl
  | encodedFrame =>
    cases hm'
    exact hretargeted (m.retargeted_reportEncodedFrameServer now)
  | statsTimeout => exact hretargeted (retargeted_statsTimeoutPerFrame hm')
  | pass rRtt rInc =>
    cases hm'
    exact hretargeted (m.retargeted_onePassAbr now rRtt rInc)

/-- **Step**: the manager stays on the ladder. -/
theorem step (h : Laddered ladder lowest m) (hm' : ladderStep fns m e = some m') :
    Laddered ladder lowest m' := by
  obtain ⟨hmode, hladder, hstep⟩ := h.ladderStep_keeps hm'
  exact {
    rungs := hladder.trans h.rungs
    sorted := h.sorted
    head := h.head
    mode := hmode ▸ h.mode
    minimum := hmode ▸ h.minimum
    stepSize := hstep ▸ h.stepSize }

/-- **Step**: a target on the ladder stays on it. -/
theorem target_mem (h : Laddered ladder lowest m) (htarget : m.lastTargetBitrateBps ∈ ladder)
    (hm' : ladderStep fns m e = some m') : m'.lastTargetBitrateBps ∈ ladder := by
  have hmoves := h.moves hm'
  obtain ⟨now, event⟩ := e
  cases event with
  | statistics stats sendInstant => exact hmoves ▸ htarget
  | encodedFrame => exact hmoves ▸ htarget
  | statsTimeout =>
    by_cases hout : m.TimedOut now
    · exact (hmoves hout).1
    · exact target_of_not_timedOut hout hm' ▸ htarget
  | pass rRtt rInc =>
    by_cases hwarm : timeWarmupAbr ≤ now
    · exact (hmoves hwarm).1
    · cases hm'
      rw [onePassAbr, if_pos (not_le.1 hwarm)]
      exact htarget

end Laddered

/-- **The target moves on the ladder**: in every run of a manager, every pass and every timeout
does what `Moves` says, and a target that starts on the ladder never leaves it. -/
theorem ladder_kept (fns : MathFns) {m₀ : BitrateManager} (h₀ : Laddered ladder lowest m₀)
    {es : List (Nat × LadderEvent)} (h : Run (ladderStep fns) (fun _ _ => True) m₀ es m)
    (hm' : ladderStep fns m e = some m') :
    Moves ladder lowest m e m' ∧
      (m₀.lastTargetBitrateBps ∈ ladder → m.lastTargetBitrateBps ∈ ladder) := by
  have hladdered : Laddered ladder lowest m :=
    h.state_invariant h₀ fun _ _ _ hp _ hs => hp.step hs
  refine ⟨hladdered.moves hm', fun htarget => ?_⟩
  refine (h.state_invariant (P := fun m => Laddered ladder lowest m ∧
    m.lastTargetBitrateBps ∈ ladder) ⟨h₀, htarget⟩ ?_).2
  rintro m e m' ⟨hm, htarget⟩ - hs
  exact ⟨hm.step hs, hm.target_mem htarget hs⟩

theorem laddered_of_ladderOf {cfg : AbrConfig} (hladder : ladderOf cfg = ladder)
    (hsorted : ladder.Pairwise (· < ·)) (hhead : ladder.head? = some lowest)
    (hmode : (modeOf cfg).OnLadder)
    (hmin : ∀ max min profile, modeOf cfg = .nestVr max min profile → min * 1000000 = lowest) :
    Laddered ladder lowest (new cfg) where
  rungs := congrArg some hladder
  sorted := hsorted
  head := hhead
  mode := hmode
  minimum := hmin
  stepSize := by
    show 0 ≤ nestStepSizeBps
    decide +kernel

/-- A new manager of NeSt-VR or EVeREst is on its ladder, and so is its target. -/
theorem laddered_new {cfg : AbrConfig} (h : cfg.abrEnabled = 1 ∨ cfg.abrEnabled = 2) :
    Laddered (ladderOf cfg) (minMbpsLadder * 1000000) (new cfg) ∧
      (new cfg).lastTargetBitrateBps ∈ ladderOf cfg := by
  have htarget : (new cfg).lastTargetBitrateBps = maxMbpsLadder * 1000000 := by
    rcases h with h | h <;> simp [new, seedBitrateMbps, h]
  rcases h with h | h
  · have hladder : ladderOf cfg =
        nestLadder nestStepSizeBps nestvrStepCount (minMbpsLadder * 1000000) := by
      simp only [ladderOf, h]
    obtain ⟨profile, hmode⟩ :
        ∃ profile, modeOf cfg = .nestVr maxMbpsLadder minMbpsLadder profile := by
      simp only [modeOf, h]
      exact ⟨_, rfl⟩
    rw [htarget, hladder]
    refine ⟨laddered_of_ladderOf hladder (by decide +kernel) rfl ?_ ?_, by decide +kernel⟩
    · rw [hmode]
      trivial
    · rintro max min profile' heq
      obtain ⟨-, rfl, -⟩ := BitrateMode.nestVr.inj (hmode.symm.trans heq)
      rfl
  · have hladder : ladderOf cfg = everestLadderMbps.map (· * 1000000) := by
      simp only [ladderOf, h]
    have hmode : modeOf cfg = .everest everestLadderMbps := by
      simp only [modeOf, h]
    rw [htarget, hladder]
    refine ⟨laddered_of_ladderOf hladder (by decide +kernel) rfl ?_ ?_, by decide +kernel⟩
    · rw [hmode]
      trivial
    · rintro max min profile heq
      rw [hmode] at heq
      cases heq

/-- A report of a throughput of 20 Mbit/s. -/
def slowReport : NetworkStatistics :=
  { networkRtt := 5000000, peakThroughputBps := 20000000, frameInterarrivalS := 1 / 90
    bytesInFrame := 100000, everestCapacityUpdate := -1, everestThroughputUpdate := -1
    everestCommand := .continue }

/-- A frame, a timeout a second later, and nine reports. -/
def beforePass : List (Nat × LadderEvent) :=
  (1000000000, .encodedFrame) :: (2000000000, .statsTimeout) ::
    List.replicate 9 (8000000000, .statistics slowReport 7900000000)

/-- NeSt-VR, a second after its first frame and without a report: from 100 to 90 Mbit/s. After
the reports the pass ends below 90 percent of a capacity of 48 Mbit/s. -/
theorem ladder_kept_timeout_and_pass :
    ∃ m₁ m₂ m₃ m₄, Run (ladderStep squareRoots) (fun _ _ => True) (new (behindWideLink 1))
        (beforePass.take 1) m₁ ∧
      ladderStep squareRoots m₁ (2000000000, .statsTimeout) = some m₂ ∧ m₁.TimedOut 2000000000 ∧
      (ladderOf (behindWideLink 1))[8]? = some m₂.lastTargetBitrateBps ∧
      Run (ladderStep squareRoots) (fun _ _ => True) (new (behindWideLink 1)) beforePass m₃ ∧
      ladderStep squareRoots m₃ (9000000000, .pass 0 0) = some m₄ ∧
      m₄.lastTargetBitrateBps ∈ ladderOf (behindWideLink 1) ∧
      m₄.lastTargetBitrateBps ≤ 9 / 10 * 48000000 := by
  have hladdered : Laddered (ladderOf (behindWideLink 1)) _ (new (behindWideLink 1)) :=
    (laddered_new (.inl rfl)).1
  set m := (new (behindWideLink 1)).reportEncodedFrameServer 1000000000
  have hrun : Run (ladderStep squareRoots) (fun _ _ => True) (new (behindWideLink 1))
      (beforePass.take 1) m := .of_runs (allOk_true _ _ _) rfl
  have hout : m.TimedOut 2000000000 :=
    ⟨⟨_, _, _, rfl⟩, 11111111, by decide +kernel, by decide, by decide, by decide⟩
  obtain ⟨m', hm'⟩ := Option.isSome_iff_exists.1 (show (ladderStep squareRoots m
    (2000000000, .statsTimeout)).isSome from by decide +kernel)
  have hmoves := (ladder_kept squareRoots hladdered hrun hm').1 hout
  have hcapacity : (runs (ladderStep squareRoots) (new (behindWideLink 1)) beforePass).map
      (fun m => (m.bitrateMode, m.nestvrCapacityBps)) =
        some (modeOf (behindWideLink 1), some 48000000) := by decide +kernel
  obtain ⟨m₃, hrun₃, heq⟩ := exists_run_of_map hcapacity
  obtain ⟨hmode, hcapacity⟩ := Prod.mk.inj heq
  obtain ⟨hrung, hbounds⟩ := (ladder_kept squareRoots hladdered hrun₃
    (e := (9000000000, .pass 0 0)) rfl).1 (by decide)
  refine ⟨m, m', m₃, _, hrun, hm', hout, hmoves.2 9 (by decide +kernel), hrun₃, rfl, hrung, ?_⟩
  rcases (hbounds _ _ _ hmode).2 48000000 hcapacity with hle | hlowest
  · exact hle
  · rw [hlowest]
    decide +kernel

end BitrateManager

end SiestaVR.Abr
