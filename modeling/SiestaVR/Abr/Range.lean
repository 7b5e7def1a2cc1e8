import SiestaVR.Abr.Server
import SiestaVR.Abr.GccRange
import Mathlib.Data.List.GetD

/-!
# The range of the target bitrate

Every mode that adapts has a configured range, and most places that write the target stay in
it: NeSt-VR and EVeREst end on a rung of the ladder, `Adaptive` and the pass of the oracle
clamp, a reset goes to the maximum. The places that do not are the two whose unit is wrong
(the target of GCC after a reset, the rate that NADA hands over) and the event of the oracle,
which does not look at the maximum.

Each writer of the target has a `_mem` lemma, under the hypothesis that the range is ordered
(`Configured`); `statsTimeoutPerFrame_cases` lists what the timeout can do to the target.
-/

namespace SiestaVR.Abr

open Emu

/-! ## Ranges -/

/-- The configured minimum and maximum of a mode that adapts, in Mbit/s. -/
def BitrateMode.rangeMbps : BitrateMode → Option (ℚ × ℚ)
  | .adaptive _ (some max) (some min) _ => some (min, max)
  | .everest ladder => ladder.head?.bind fun min => ladder.getLast?.map fun max => (min, max)
  | .nestVr max min _ => some (min, max)
  | .gccPort _ _ => some (gccMinConfiguredBitrate / 1000000, gccMaxConfiguredBitrate / 1000000)
  | .nadaCiscoPort =>
    some ((rmcatCcDefaultRmin : ℚ) / 1000000, (rmcatCcDefaultRmax : ℚ) / 1000000)
  | .oracle _ min max => some (min, max)
  | _ => none

/-- A bitrate in bit/s is in a range in Mbit/s. -/
def InRange (lo hi bps : ℚ) : Prop := lo * 1000000 ≤ bps ∧ bps ≤ hi * 1000000

instance (lo hi bps : ℚ) : Decidable (InRange lo hi bps) := inferInstanceAs (Decidable (_ ∧ _))

/-- The mode ends its passes on a rung of the ladder. -/
def BitrateMode.OnLadder : BitrateMode → Prop
  | .everest _ => True
  | .nestVr _ _ _ => True
  | _ => False

variable {lo hi bps : ℚ}

theorem inRange_max (h : lo ≤ hi) : InRange lo hi (hi * 1000000) := ⟨by linarith, le_rfl⟩

theorem InRange.mbps (h : InRange lo hi bps) : lo ≤ bps / 1000000 ∧ bps / 1000000 ≤ hi := by
  obtain ⟨hlow, hhigh⟩ := h
  constructor <;> linarith

/-! ## Ladders -/

variable {ladder : List ℚ}

theorem getD_mem_of_lt {i : Nat} (h : i < ladder.length) (d : ℚ) :
    ladder.getD i d ∈ ladder := by
  rw [List.getD_eq_getElem _ _ h]
  exact List.getElem_mem h

theorem lt_of_binarySearch_ok {i : Nat} (h : binarySearch ladder bps = .ok i) :
    i < ladder.length := by
  simp only [binarySearch] at h
  split_ifs at h with hfound
  cases h
  exact (List.getElem?_eq_some_iff.1 hfound).1

theorem le_of_binarySearch_error {i : Nat}
    (h : binarySearch ladder bps = .error i) : i ≤ ladder.length := by
  simp only [binarySearch] at h
  split_ifs at h
  cases h
  exact List.countP_le_length

theorem upperBoundBitrate_mem (h : ladder ≠ []) (bps : ℚ) :
    upperBoundBitrate bps ladder ∈ ladder := by
  have hlen : 0 < ladder.length := List.length_pos_iff.2 h
  unfold upperBoundBitrate
  split
  · next i hfound => exact getD_mem_of_lt (lt_of_binarySearch_ok hfound) bps
  · next i hmissing =>
    have hle := le_of_binarySearch_error hmissing
    split_ifs
    · rw [List.head?_eq_some_head h]
      exact List.head_mem h
    · exact getD_mem_of_lt (by omega) bps

theorem stepDown_mem (h : ladder ≠ []) (target : ℚ) :
    BitrateManager.stepDown ladder target ∈ ladder := by
  have hmem := upperBoundBitrate_mem h target
  obtain ⟨i, hindex⟩ := Option.isSome_iff_exists.1 (List.isSome_idxOf?.2 hmem)
  obtain ⟨hlt, -⟩ := List.idxOf?_eq_some_iff.1 hindex
  simp only [BitrateManager.stepDown, hindex, Option.getD_some]
  exact getD_mem_of_lt (by omega) target

namespace BitrateManager

variable {m : BitrateManager}

/-- The manager's mode has the range, and its ladder is in it. -/
structure Configured (m : BitrateManager) (lo hi : ℚ) : Prop where
  range : m.bitrateMode.rangeMbps = some (lo, hi)
  le : lo ≤ hi
  rungs : ∀ ladder ∈ m.bitrateLadderBps, ∀ bps ∈ ladder, InRange lo hi bps
  ladder : m.bitrateMode.OnLadder → ∃ ladder ∈ m.bitrateLadderBps, ladder ≠ []

/-! ## New managers -/

theorem nestLadder_inRange : ∀ bps ∈ nestLadder nestStepSizeBps nestvrStepCount
    (minMbpsLadder * 1000000), InRange minMbpsLadder maxMbpsLadder bps := by
  decide +kernel

theorem everestLadder_inRange : ∀ bps ∈ everestLadderMbps.map (· * 1000000),
    InRange minMbpsLadder maxMbpsLadder bps := by
  decide +kernel

variable {cfg : AbrConfig}

theorem le_of_modeOf (h : (modeOf cfg).rangeMbps = some (lo, hi)) : lo ≤ hi := by
  unfold modeOf at h
  split at h <;> simp [BitrateMode.rangeMbps, everestLadderMbps] at h <;> obtain ⟨rfl, rfl⟩ := h <;>
    norm_num [minMbpsLadder, maxMbpsLadder, minOracleBitrateMbps, gccMinConfiguredBitrate,
      gccMaxConfiguredBitrate, rmcatCcDefaultRmin, rmcatCcDefaultRmax]

theorem ladderOf_inRange (h : (modeOf cfg).rangeMbps = some (lo, hi)) :
    ∀ bps ∈ ladderOf cfg, InRange lo hi bps := by
  unfold ladderOf
  split
  · next habr =>
    obtain ⟨rfl, rfl⟩ : minMbpsLadder = lo ∧ maxMbpsLadder = hi := by
      simpa [modeOf, habr, BitrateMode.rangeMbps] using h
    exact nestLadder_inRange
  · next habr =>
    obtain ⟨rfl, rfl⟩ : minMbpsLadder = lo ∧ maxMbpsLadder = hi := by
      simpa [modeOf, habr, BitrateMode.rangeMbps, everestLadderMbps, minMbpsLadder] using h
    exact everestLadder_inRange
  · simp

theorem ladderOf_ne_nil (h : (modeOf cfg).OnLadder) : ladderOf cfg ≠ [] := by
  unfold modeOf at h
  split at h
  · next habr => simp [ladderOf, habr, nestLadder, nestvrStepCount]
  · next habr => simp [ladderOf, habr, everestLadderMbps]
  all_goals exact False.elim h

theorem configured_new (h : (modeOf cfg).rangeMbps = some (lo, hi)) :
    (new cfg).Configured lo hi where
  range := h
  le := le_of_modeOf h
  rungs := by
    rintro _ ⟨⟩
    exact ladderOf_inRange h
  ladder hmode := ⟨_, rfl, ladderOf_ne_nil hmode⟩

theorem eq_new_of_modeOf {gcc : GccBandwidthEstimator} {framerate : ℚ}
    (h : modeOf cfg = .gccPort gcc framerate) : gcc = .new framerate := by
  unfold modeOf at h
  split at h <;> cases h
  rfl

theorem nada_new (hrange : (modeOf cfg).rangeMbps = some (lo, hi))
    (hmode : modeOf cfg = .nadaCiscoPort) {mbps : ℚ}
    (hmbps : mbps ∈ (new cfg).lastNadaTargetBitrateMbps) : InRange lo hi (mbps * 1000000) := by
  obtain ⟨rfl, rfl⟩ : _ = lo ∧ _ = hi := by
    simpa [BitrateMode.rangeMbps, hmode] using hrange
  simp only [new] at hmbps
  split_ifs at hmbps
  · cases hmbps
    rw [InRange, div_mul_cancel₀ _ (by norm_num), div_mul_cancel₀ _ (by norm_num),
      div_mul_cancel₀ _ (by norm_num)]
    refine ⟨le_max_left _ _, max_le ?_ (min_le_right _ _)⟩
    norm_num [rmcatCcDefaultRmin, rmcatCcDefaultRmax]
  · cases hmbps

theorem Configured.congr {m' : BitrateManager} (h : m.Configured lo hi)
    (hmode : m'.bitrateMode = m.bitrateMode) (hladder : m'.bitrateLadderBps = m.bitrateLadderBps) :
    m'.Configured lo hi where
  range := hmode ▸ h.range
  le := h.le
  rungs := hladder ▸ h.rungs
  ladder := by
    rw [hmode, hladder]
    exact h.ladder

theorem Configured.adaptive (h : m.Configured lo hi) {saturation : ℚ}
    {maxMbps minMbps maxRtt : Option ℚ}
    (hmode : m.bitrateMode = .adaptive saturation maxMbps minMbps maxRtt) :
    maxMbps = some hi ∧ minMbps = some lo := by
  have hrange := h.range
  cases maxMbps <;> cases minMbps <;> simp_all [BitrateMode.rangeMbps]

theorem Configured.oracle (h : m.Configured lo hi) {margin minMbps maxMbps : ℚ}
    (hmode : m.bitrateMode = .oracle margin minMbps maxMbps) : minMbps = lo ∧ maxMbps = hi := by
  simpa [BitrateMode.rangeMbps, hmode] using h.range

theorem Configured.upperBound_mem (h : m.Configured lo hi) (hmode : m.bitrateMode.OnLadder)
    (bps : ℚ) : InRange lo hi (m.bitrateLadderBps.elim bps (upperBoundBitrate bps)) := by
  obtain ⟨ladder, hladder, hne⟩ := h.ladder hmode
  rw [Option.mem_def.1 hladder, Option.elim_some]
  exact h.rungs ladder hladder _ (upperBoundBitrate_mem hne bps)

theorem Configured.nada_initial (h : m.Configured lo hi) (hmode : m.bitrateMode = .nadaCiscoPort) :
    InRange lo hi (nadaInitialRate : ℚ) := by
  obtain ⟨rfl, rfl⟩ : _ = lo ∧ _ = hi := by
    simpa [BitrateMode.rangeMbps, hmode] using h.range
  norm_num [InRange, nadaInitialRate, rmcatCcDefaultRmin, rmcatCcDefaultRmax]

/-! ## Reports -/

theorem reportEncodedFrameServer_spec (m : BitrateManager) (now : Nat) :
    let m' := m.reportEncodedFrameServer now
    m'.bitrateMode = m.bitrateMode ∧ m'.bitrateLadderBps = m.bitrateLadderBps ∧
      m'.lastNadaTargetBitrateMbps = m.lastNadaTargetBitrateMbps ∧
      m'.lastTargetBitrateBps = m.lastTargetBitrateBps := by
  simp only [reportEncodedFrameServer]
  split_ifs <;> exact ⟨rfl, rfl, rfl, rfl⟩

theorem submitEverest_spec (m : BitrateManager) (stats : NetworkStatistics) (now : Nat) :
    let m' := m.submitEverest stats now
    m'.bitrateMode = m.bitrateMode ∧ m'.bitrateLadderBps = m.bitrateLadderBps ∧
      m'.lastUpdateInstant = m.lastUpdateInstant ∧
      m'.lastNadaTargetBitrateMbps = m.lastNadaTargetBitrateMbps ∧
      m'.lastTargetBitrateBps = m.lastTargetBitrateBps := by
  simp only [submitEverest]
  split_ifs <;> exact ⟨rfl, rfl, rfl, rfl, rfl⟩

/-- A report replaces the estimator of GCC, and nothing else that a target is made from. -/
theorem reportNetworkStatisticsAbr_spec (fns : MathFns) (m : BitrateManager)
    (stats : NetworkStatistics) (now sendInstant : Nat) :
    let m' := m.reportNetworkStatisticsAbr fns stats now sendInstant
    (m'.bitrateMode = match m.bitrateMode with
      | .gccPort gcc framerate =>
        .gccPort (gcc.update fns sendInstant now stats.bytesInFrame) framerate
      | mode => mode) ∧ m'.bitrateLadderBps = m.bitrateLadderBps ∧
      m'.lastUpdateInstant = m.lastUpdateInstant ∧
      m'.lastNadaTargetBitrateMbps = m.lastNadaTargetBitrateMbps ∧
      m'.lastTargetBitrateBps = m.lastTargetBitrateBps :=
  submitEverest_spec _ stats now

/-! ## Passes -/

theorem passAdaptive_mem (h : lo ≤ hi) (saturation : ℚ) (maxRtt : Option ℚ) :
    InRange lo hi (m.passAdaptive saturation (some hi) (some lo) maxRtt) := by
  have hle : lo * 1000000 ≤ hi * 1000000 := by linarith
  exact ⟨le_max_right _ _, max_le (min_le_right _ _) hle⟩

theorem passOracle_mem (h : lo ≤ hi) (htarget : InRange lo hi m.lastTargetBitrateBps)
    (margin : ℚ) (now : Nat) : InRange lo hi (m.passOracle margin lo hi now) := by
  unfold passOracle
  cases m.oracleMinCapOverLookaheadMbps now with
  | none => exact htarget
  | some cap =>
    have hlo : lo ≤ min (max (cap - margin) lo) hi := le_min (le_max_right _ _) h
    have hhi : min (max (cap - margin) lo) hi ≤ hi := min_le_right _ _
    constructor <;> simp only [Option.elim_some] <;> linarith

/-- **A pass leaves the target in the range**, if the estimate of GCC and the rate of NADA are
in it. -/
theorem passTarget_mem (h : m.Configured lo hi) (now : Nat) (rRtt rInc : ℚ)
    (hgcc : ∀ gcc framerate, m.bitrateMode = .gccPort gcc framerate →
      InRange lo hi gcc.getTargetBitrateBps)
    (hnada : m.bitrateMode = .nadaCiscoPort →
      ∀ mbps ∈ m.lastNadaTargetBitrateMbps, InRange lo hi (mbps * 1000000))
    (horacle : ∀ margin min max, m.bitrateMode = .oracle margin min max →
      InRange lo hi m.lastTargetBitrateBps) :
    InRange lo hi (m.passTarget now rRtt rInc) := by
  have hrange := h.range
  unfold passTarget
  cases hmode : m.bitrateMode with
  | constantMbps mbps => simp [BitrateMode.rangeMbps, hmode] at hrange
  | fovOptixPort => simp [BitrateMode.rangeMbps, hmode] at hrange
  | adaptive saturation maxMbps minMbps maxRtt =>
    obtain ⟨rfl, rfl⟩ := h.adaptive hmode
    exact passAdaptive_mem h.le saturation maxRtt
  | everest ladder => exact h.upperBound_mem (by rw [hmode]; trivial) _
  | nestVr maxMbps minMbps profile => exact h.upperBound_mem (by rw [hmode]; trivial) _
  | gccPort gcc framerate => exact hgcc gcc framerate hmode
  | nadaCiscoPort =>
    cases hmbps : m.lastNadaTargetBitrateMbps with
    | none => exact h.nada_initial hmode
    | some mbps => exact hnada hmode mbps hmbps
  | oracle margin minMbps maxMbps =>
    obtain ⟨rfl, rfl⟩ := h.oracle hmode
    exact passOracle_mem h.le (horacle _ _ _ hmode) margin now

/-! ## The stats timeout -/

/-- What the stats timeout can do: nothing, or start anew and go a rung down if there is one. -/
theorem statsTimeoutPerFrame_cases {m' : BitrateManager} {now : Nat}
    (h : m.statsTimeoutPerFrame now = some m') :
    m' = m ∨ m' = { m with lastStatsReceived := now } ∨
      ∃ ladder, m.bitrateLadderBps = some ladder ∧ ladder ≠ [] ∧
        m' = { m with
          lastStatsReceived := now
          lastTargetBitrateBps := stepDown ladder m.lastTargetBitrateBps } := by
  unfold statsTimeoutPerFrame at h
  split at h
  · obtain ⟨frameInterval, -, rfl⟩ := Option.map_eq_some_iff.1 h
    split_ifs with hoff hearly
    · exact .inl rfl
    · exact .inl rfl
    · dsimp only
      split
      · exact .inr (.inl rfl)
      · next ladder hladder =>
        split_ifs with hempty
        · exact .inr (.inl rfl)
        · exact .inr (.inr ⟨ladder, hladder, by simpa using hempty, rfl⟩)
  · cases h
    exact .inl rfl

/-- The stats timeout keeps everything but the target and its own clock; a new target is a
rung. -/
theorem statsTimeoutPerFrame_spec {m' : BitrateManager} {now : Nat} (h : m.Configured lo hi)
    (hm' : m.statsTimeoutPerFrame now = some m') :
    m'.bitrateMode = m.bitrateMode ∧ m'.bitrateLadderBps = m.bitrateLadderBps ∧
      m'.lastUpdateInstant = m.lastUpdateInstant ∧
      m'.lastNadaTargetBitrateMbps = m.lastNadaTargetBitrateMbps ∧
      (m'.lastTargetBitrateBps = m.lastTargetBitrateBps ∨
        InRange lo hi m'.lastTargetBitrateBps) := by
  obtain rfl | rfl | ⟨ladder, hladder, hne, rfl⟩ := statsTimeoutPerFrame_cases hm'
  · exact ⟨rfl, rfl, rfl, rfl, .inl rfl⟩
  · exact ⟨rfl, rfl, rfl, rfl, .inl rfl⟩
  · exact ⟨rfl, rfl, rfl, rfl, .inr (h.rungs ladder hladder _ (stepDown_mem hne _))⟩

/-! ## Resets -/

/-- **A reset goes to the maximum**, except in GCC mode. -/
theorem resetTarget_mem (h : m.Configured lo hi)
    (hgcc : ∀ gcc framerate, m.bitrateMode ≠ .gccPort gcc framerate) :
    InRange lo hi m.resetTarget := by
  have hrange := h.range
  unfold resetTarget
  cases hmode : m.bitrateMode with
  | constantMbps mbps => simp [BitrateMode.rangeMbps, hmode] at hrange
  | fovOptixPort => simp [BitrateMode.rangeMbps, hmode] at hrange
  | adaptive saturation maxMbps minMbps maxRtt =>
    obtain ⟨rfl, rfl⟩ := h.adaptive hmode
    exact inRange_max h.le
  | everest ladder =>
    obtain ⟨minMbps, -, maxMbps, hlast, rfl, rfl⟩ : ∃ minMbps, ladder.head? = some minMbps ∧
        ∃ maxMbps, ladder.getLast? = some maxMbps ∧ minMbps = lo ∧ maxMbps = hi := by
      simpa [BitrateMode.rangeMbps, hmode, Option.bind_eq_some_iff] using hrange
    simp only [hlast, Option.getD_some]
    exact inRange_max h.le
  | nestVr maxMbps minMbps profile =>
    obtain ⟨rfl, rfl⟩ : minMbps = lo ∧ maxMbps = hi := by
      simpa [BitrateMode.rangeMbps, hmode] using hrange
    exact inRange_max h.le
  | gccPort gcc framerate => exact absurd hmode (hgcc gcc framerate)
  | nadaCiscoPort => exact h.nada_initial hmode
  | oracle margin minMbps maxMbps =>
    obtain ⟨rfl, rfl⟩ := h.oracle hmode
    exact inRange_max h.le

/-! ## The oracle's events -/

/-- The cap leaves a target of at most the maximum, or the ramp does not get above it. -/
def CapFits (m : BitrateManager) (now : Nat) (capMbps marginMbps maxMbps : ℚ) : Prop :=
  capMbps - marginMbps ≤ maxMbps ∨
    m.lastTargetBitrateBps / 1000000 + oracleRampUpMbpsPerSec * secs (now - m.lastUpdateInstant) ≤
      maxMbps

instance (m : BitrateManager) (now : Nat) (capMbps marginMbps maxMbps : ℚ) :
    Decidable (m.CapFits now capMbps marginMbps maxMbps) :=
  inferInstanceAs (Decidable (_ ∨ _))

theorem oracleRampTargetMbps_mem {now : Nat} {cap margin : ℚ} (h : lo ≤ hi)
    (htarget : InRange lo hi m.lastTargetBitrateBps) (hcap : m.CapFits now cap margin hi) :
    InRange lo hi (m.oracleRampTargetMbps cap margin lo now * 1000000) := by
  obtain ⟨hlow, hhigh⟩ := htarget
  have hramp : 0 ≤ oracleRampUpMbpsPerSec * secs (now - m.lastUpdateInstant) := by
    unfold oracleRampUpMbpsPerSec
    rw [one_mul]
    exact div_nonneg (Nat.cast_nonneg _) (by norm_num)
  have hmem : lo ≤ m.oracleRampTargetMbps cap margin lo now ∧
      m.oracleRampTargetMbps cap margin lo now ≤ hi := by
    simp only [oracleRampTargetMbps]
    split_ifs with hup
    · refine ⟨le_min (by linarith) (le_max_right _ _), ?_⟩
      rcases hcap with hcap | hcap
      · exact (min_le_right _ _).trans (max_le hcap h)
      · exact (min_le_left _ _).trans hcap
    · exact ⟨le_max_right _ _, by linarith [not_le.1 hup]⟩
  exact ⟨by linarith [hmem.1], by linarith [hmem.2]⟩

end BitrateManager

end SiestaVR.Abr
