import SiestaVR.Abr.Gcc
import Mathlib.Tactic.NormNum
import Mathlib.Tactic.Linarith

/-!
# The range of the rate control

`ClampBitrate` takes the new bitrate below the upper bound of the link capacity, which is at
most the configured maximum; but if that lowers the bitrate, it takes it up again to the
lower bound, and to the present bitrate at most. The lower bound has no maximum. So the range
is kept by a bitrate that is in it (`sound_update`), except for the report that initialises
the rate control: it makes the throughput the present bitrate, whatever that is, and if the
link is overused at that moment the lower bound comes from that throughput as well.
-/

namespace SiestaVR.Abr.AimdRateControl

variable {fns : MathFns} {a : AimdRateControl} {input : RateControlInput} {atTime : Int}

/-- The bitrate is in the configured range, and the link capacity is not known before the rate
control is initialised. -/
structure Sound (a : AimdRateControl) : Prop where
  ge : gccMinConfiguredBitrate ≤ a.currentBitrate
  le : a.currentBitrate ≤ gccMaxConfiguredBitrate
  unknown : a.bitrateIsInitialized = false → a.linkCapacity.estimateKbps = none

theorem gccMin_le_gccMax : gccMinConfiguredBitrate ≤ gccMaxConfiguredBitrate := by
  norm_num [gccMinConfiguredBitrate, gccMaxConfiguredBitrate]

theorem sound_new (framerate : ℚ) : (new framerate).Sound :=
  ⟨gccMin_le_gccMax, le_rfl, fun _ => rfl⟩

/-- The report initialises the rate control with a throughput far above the maximum, while
the link is overused. -/
def Overshoots (fns : MathFns) (a : AimdRateControl) (input : RateControlInput)
    (atTime : Int) : Prop :=
  a.bitrateIsInitialized = false ∧ a.timeFirstThroughputEstimate ≠ i64Min ∧
    5000 < atTime - a.timeFirstThroughputEstimate ∧ input.bwState = .overusing ∧
    ∃ throughput ∈ input.estimatedThroughput, gccMaxConfiguredBitrate <
      (a.linkCapacity.onOveruseDetected throughput).lowerBound fns * gccDecreaseCoefBeta

instance (fns : MathFns) (a : AimdRateControl) (input : RateControlInput) (atTime : Int) :
    Decidable (Overshoots fns a input atTime) := by
  unfold Overshoots
  infer_instance

theorem networkEstimate_spec (fns : MathFns) (a : AimdRateControl) : ∃ lower upper,
    (a.updateNetworkEstimate fns).networkEstimate = ⟨some lower, some upper⟩ ∧
      upper ≤ gccMaxConfiguredBitrate ∧
      (lower = gccMinConfiguredBitrate ∨ lower = a.linkCapacity.lowerBound fns) := by
  refine ⟨_, _, rfl, ?_, ?_⟩
  · cases a.linkCapacity.upperBound fns with
    | none => exact le_rfl
    | some upper =>
      simp only [Option.elim_some]
      split_ifs with h
      · exact le_rfl
      · exact not_lt.1 h
  · split_ifs
    · exact .inl rfl
    · exact .inr rfl
    · exact .inl rfl

/-- Once the bounds are set, the clamped bitrate is in the range if the present bitrate is, or
if the lower bound of the link capacity is not too high. -/
theorem clampBitrate_mem (fns : MathFns) (a : AimdRateControl)
    (hle : a.currentBitrate ≤ gccMaxConfiguredBitrate ∨
      a.linkCapacity.lowerBound fns * gccDecreaseCoefBeta ≤ gccMaxConfiguredBitrate)
    (newBitrate : ℚ) :
    gccMinConfiguredBitrate ≤ (a.updateNetworkEstimate fns).clampBitrate newBitrate ∧
      (a.updateNetworkEstimate fns).clampBitrate newBitrate ≤ gccMaxConfiguredBitrate := by
  refine ⟨le_max_right _ _, ?_⟩
  obtain ⟨lower, upper, hbounds, hupper, hlower⟩ := networkEstimate_spec fns a
  have hmin : min upper newBitrate ≤ gccMaxConfiguredBitrate := (min_le_left _ _).trans hupper
  have hcurrent : (a.updateNetworkEstimate fns).currentBitrate = a.currentBitrate := rfl
  simp only [clampBitrate, hbounds, hcurrent, Option.elim_some]
  refine max_le ?_ gccMin_le_gccMax
  split_ifs
  · rcases hle with hle | hle
    · exact (min_le_left _ _).trans hle
    · refine (min_le_right _ _).trans (max_le hmin ?_)
      rcases hlower with rfl | rfl
      · norm_num [gccMinConfiguredBitrate, gccMaxConfiguredBitrate, gccDecreaseCoefBeta]
      · exact hle
  · exact hmin

/-! ## What a report does before the bitrate is clamped -/

theorem increase_spec (fns : MathFns) (a : AimdRateControl) (throughput : ℚ) (atTime : Int) :
    let a' := (a.increase fns throughput atTime).2
    a'.currentBitrate = a.currentBitrate ∧ a'.bitrateIsInitialized = a.bitrateIsInitialized ∧
      (a.linkCapacity.estimateKbps = none → a'.linkCapacity.estimateKbps = none) := by
  simp only [increase]
  split_ifs
  · exact ⟨rfl, rfl, fun _ => rfl⟩
  · exact ⟨rfl, rfl, id⟩

theorem decrease_spec (fns : MathFns) (a : AimdRateControl) (throughput : ℚ) (atTime : Int) :
    let a' := (a.decrease fns throughput atTime).2
    a'.currentBitrate = a.currentBitrate ∧ a'.bitrateIsInitialized = true ∧
      (a.linkCapacity.estimateKbps = none →
        a'.linkCapacity = a.linkCapacity.onOveruseDetected throughput) := by
  refine ⟨rfl, rfl, fun hnone => ?_⟩
  have hreset : a.linkCapacity.reset = a.linkCapacity := by
    rw [LinkCapacityEstimator.reset, ← hnone]
  simp only [decrease, hreset, ite_self]

/-- **What a report does before the bitrate is clamped**: overuse is the only reason to
decrease, and a decrease sets the link capacity. -/
theorem act_changeState_spec (fns : MathFns) (a : AimdRateControl) (input : RateControlInput)
    (throughput : ℚ) (atTime : Int) :
    let a' := ((a.changeState input atTime).act fns throughput atTime).2
    a'.currentBitrate = a.currentBitrate ∧
      (a.bitrateIsInitialized = true ∨ input.bwState = .overusing →
        a'.bitrateIsInitialized = true) ∧
      (a.linkCapacity.estimateKbps = none →
        if input.bwState = .overusing then
          a'.linkCapacity = a.linkCapacity.onOveruseDetected throughput
        else a'.linkCapacity.estimateKbps = none) := by
  -- As in the table of the source: overuse decreases, underuse holds, normal use ends a hold.
  cases hbw : input.bwState with
  | overusing =>
    obtain ⟨hcurrent, hinit, hlink⟩ :=
      decrease_spec fns { a with rateControlState := .decrease } throughput atTime
    simp only [changeState, hbw, act]
    exact ⟨hcurrent, fun _ => hinit, fun hnone => by simpa using hlink hnone⟩
  | underusing =>
    simp [changeState, hbw, act]
  | normal =>
    cases hstate : a.rateControlState with
    | hold =>
      obtain ⟨hcurrent, hinit, hlink⟩ := increase_spec fns
        { a with timeLastBitrateChange := atTime, rateControlState := .increase } throughput atTime
      simp only [changeState, hbw, hstate, act]
      exact ⟨hcurrent, fun h => hinit.trans (h.resolve_right (by simp)),
        fun hnone => by simpa using hlink hnone⟩
    | increase =>
      obtain ⟨hcurrent, hinit, hlink⟩ := increase_spec fns a throughput atTime
      simp only [changeState, hbw, hstate, act]
      exact ⟨hcurrent, fun h => hinit.trans (h.resolve_right (by simp)),
        fun hnone => by simpa using hlink hnone⟩
    | decrease =>
      simp [changeState, hbw, hstate, act]

/-! ## Reports -/

/-- `ChangeBitrate` leaves a bitrate in the range that was there, and takes one down to it that
was set when the link capacity was unknown, unless the link is overused and its capacity too
high. -/
theorem sound_changeBitrate
    (hge : a.bitrateIsInitialized = false → gccMinConfiguredBitrate ≤ a.currentBitrate)
    (hunknown : a.bitrateIsInitialized = false → a.linkCapacity.estimateKbps = none)
    (hle : a.currentBitrate ≤ gccMaxConfiguredBitrate ∨ a.bitrateIsInitialized = true ∧
      a.linkCapacity.estimateKbps = none ∧ (input.bwState = .overusing →
        (a.linkCapacity.onOveruseDetected
          (input.estimatedThroughput.getD a.latestEstimatedThroughput)).lowerBound fns *
            gccDecreaseCoefBeta ≤ gccMaxConfiguredBitrate)) :
    (a.changeBitrate fns input atTime).Sound := by
  simp only [changeBitrate]
  generalize hthroughput : input.estimatedThroughput.getD a.latestEstimatedThroughput = throughput
    at hle ⊢
  split_ifs with hidle
  · -- nothing happens before the rate control is initialised
    simp only [Bool.not_eq_true', ne_eq] at hidle
    exact ⟨hge hidle.1, hle.elim id fun h => absurd h.1 (by simp [hidle.1]), hunknown⟩
  · simp only [Bool.not_eq_true', ne_eq, not_and, not_not] at hidle
    have hinit : a.bitrateIsInitialized = true ∨ input.bwState = .overusing := by
      cases h : a.bitrateIsInitialized with
      | true => exact .inl rfl
      | false => exact .inr (hidle h)
    -- The bitrate is clamped; what can exceed the maximum is the capacity's lower bound.
    obtain ⟨hcurrent, hinit', hlink⟩ := act_changeState_spec fns
      { a with latestEstimatedThroughput := throughput } input throughput atTime
    generalize AimdRateControl.act fns _ throughput atTime = acted at hcurrent hinit' hlink ⊢
    obtain ⟨newBitrate, a'⟩ := acted
    have hrange := clampBitrate_mem fns a' (hle.imp hcurrent.trans_le ?_)
      (newBitrate.getD a'.currentBitrate)
    · exact ⟨hrange.1, hrange.2, fun h => absurd (h.symm.trans (hinit' hinit)) Bool.false_ne_true⟩
    · rintro ⟨-, hnone, hover⟩
      specialize hlink hnone
      split_ifs at hlink with hbw
      · rw [hlink]
        exact hover hbw
      · have hunset : a'.linkCapacity.estimateKbps = none := hlink
        simp only [LinkCapacityEstimator.lowerBound, hunset, zero_mul]
        norm_num [gccMaxConfiguredBitrate]

/-- **Every report that does not overshoot keeps the rate control sound.** -/
theorem sound_update (h : a.Sound) (hover : ¬ Overshoots fns a input atTime) :
    (a.update fns input atTime).Sound := by
  have hkeep : (a.changeBitrate fns input atTime).Sound :=
    sound_changeBitrate (fun _ => h.ge) h.unknown (.inl h.le)
  cases hinit : a.bitrateIsInitialized with
  | true => simpa only [update, initBitrate, hinit, if_pos] using hkeep
  | false =>
    cases hthroughput : input.estimatedThroughput with
    | none =>
      simpa only [update, initBitrate, hinit, hthroughput, Bool.false_eq_true, if_false]
        using hkeep
    | some throughput =>
      simp only [update, initBitrate, hinit, hthroughput, Bool.false_eq_true, if_false]
      split_ifs with hfirst hlate
      · exact sound_changeBitrate (fun _ => h.ge) (fun _ => h.unknown hinit) (.inl h.le)
      · -- the bitrate is the throughput, and only the clamping can take it back to the range
        refine sound_changeBitrate (by simp) (by simp) (.inr ⟨rfl, h.unknown hinit, fun hbw => ?_⟩)
        simp only [hthroughput, Option.getD_some]
        by_contra hhigh
        exact hover ⟨hinit, hfirst, hlate, hbw, throughput, hthroughput, not_le.1 hhigh⟩
      · exact hkeep

end SiestaVR.Abr.AimdRateControl
