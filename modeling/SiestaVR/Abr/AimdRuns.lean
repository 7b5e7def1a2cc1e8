import Mathlib.Data.List.Induction
import Mathlib.Data.List.Infix
import SiestaVR.Lib.RunningValues
import SiestaVR.Abr.Control

/-!
# Sequences of AIMD updates

`AimdRateControl::Update` over any sequence of reports. Two things are expected of it: the
bitrate stays in the configured range, and while it increases without an estimate of the link
capacity it grows by 8 percent a second at most.

- The range is left by one kind of report only: the one that initialises the rate control,
  when the link is overused at that moment and the throughput is far above the maximum
  (`aimd_in_range_iff`).
- `MultiplicativeRateIncrease` scales its factor by the elapsed time if `last_time` is
  `i64::MIN`, that is never: while the bitrate increases, there was a last change. So every
  report multiplies by 1.08, however little time has passed, as long as the throughput and the
  maximum leave room (`increase_paced_iff`).

What holds after every report is `Settled`.
-/

namespace SiestaVR.Abr.AimdRateControl

open Lib

variable {fns : MathFns} {a : AimdRateControl} {input : RateControlInput} {atTime : Nat}

/-- A call of `Update`: its input, and its time in milliseconds. -/
abbrev Call := RateControlInput × Nat

/-- The rate control after a sequence of calls. -/
def updates (fns : MathFns) (a : AimdRateControl) (calls : List Call) : AimdRateControl :=
  calls.foldl (fun a call => a.update fns call.1 call.2) a

theorem updates_append (fns : MathFns) (a : AimdRateControl) (calls calls' : List Call) :
    a.updates fns (calls ++ calls') = (a.updates fns calls).updates fns calls' :=
  List.foldl_append

theorem updates_cons (fns : MathFns) (a : AimdRateControl) (call : Call) (calls : List Call) :
    a.updates fns (call :: calls) = (a.update fns call.1 call.2).updates fns calls := rfl

/-! ## What holds after every call -/

/-- Without an estimate of the link capacity the bitrate is in the range. Before the rate
control is initialised the link capacity is as at the start, and while the bitrate increases
there was a change before. -/
structure Settled (a : AimdRateControl) : Prop where
  ge : gccMinConfiguredBitrate ≤ a.currentBitrate
  le : a.linkCapacity.estimateKbps = none → a.currentBitrate ≤ gccMaxConfiguredBitrate
  start : a.bitrateIsInitialized = false → a.linkCapacity = {} ∧ a.rateControlState = .hold
  changed : a.rateControlState = .increase → a.timeLastBitrateChange ≠ i64Min

theorem settled_new (framerate : ℚ) : (new framerate).Settled :=
  ⟨gccMin_le_gccMax, fun _ => le_rfl, fun _ => ⟨rfl, rfl⟩, fun h => nomatch h⟩

theorem cast_ne_i64Min (atTime : Nat) : (atTime : Int) ≠ i64Min := by
  unfold i64Min
  omega

theorem Settled.initialized (h : a.Settled) (hstate : a.rateControlState = .increase) :
    a.bitrateIsInitialized = true := by
  cases hinit : a.bitrateIsInitialized with
  | true => rfl
  | false =>
    have hhold := (h.start hinit).2
    rw [hstate] at hhold
    cases hhold

theorem lowerBound_of_unknown {l : LinkCapacityEstimator} (h : l.estimateKbps = none) :
    l.lowerBound fns = 0 := by
  rw [LinkCapacityEstimator.lowerBound, h]

theorem upperBound_of_unknown {l : LinkCapacityEstimator} (h : l.estimateKbps = none) :
    l.upperBound fns = none := by
  rw [LinkCapacityEstimator.upperBound, h]
  rfl

/-- After the bitrate is clamped it is not below the range, and not above it if the link
capacity is unknown. -/
theorem clampBitrate_settled (fns : MathFns) (a : AimdRateControl) (newBitrate : ℚ) :
    gccMinConfiguredBitrate ≤ (a.updateNetworkEstimate fns).clampBitrate newBitrate ∧
      (a.linkCapacity.estimateKbps = none →
        (a.updateNetworkEstimate fns).clampBitrate newBitrate ≤ gccMaxConfiguredBitrate) := by
  refine ⟨le_max_right _ _, fun hnone => (clampBitrate_mem fns a (.inr ?_) newBitrate).2⟩
  rw [lowerBound_of_unknown hnone]
  norm_num [gccMaxConfiguredBitrate]

/-- The throughput that a call works with. -/
def throughputFor (a : AimdRateControl) (input : RateControlInput) : ℚ :=
  input.estimatedThroughput.getD a.latestEstimatedThroughput

/-- What the state machine makes of a call: the new bitrate, if there is one, and the state. -/
def acted (fns : MathFns) (a : AimdRateControl) (input : RateControlInput) (atTime : Nat) :
    Option ℚ × AimdRateControl :=
  ({ a with latestEstimatedThroughput := a.throughputFor input }.changeState
    input atTime).act fns (a.throughputFor input) atTime

/-- Once it is initialised, or if the link is overused, the state machine acts, and the
bitrate is clamped. -/
theorem changeBitrate_of_active
    (hactive : a.bitrateIsInitialized = true ∨ input.bwState = .overusing) :
    a.changeBitrate fns input atTime = { (a.acted fns input atTime).2.updateNetworkEstimate fns with
      currentBitrate := ((a.acted fns input atTime).2.updateNetworkEstimate fns).clampBitrate
        ((a.acted fns input atTime).1.getD (a.acted fns input atTime).2.currentBitrate) } := by
  have hgo : ¬ ((!a.bitrateIsInitialized) = true ∧ input.bwState ≠ .overusing) := by
    rintro ⟨hinit, hbw⟩
    rcases hactive with h | h
    · rw [h] at hinit
      cases hinit
    · exact hbw h
  simp only [changeBitrate]
  rw [if_neg hgo]
  rfl

/-- Without overuse nothing happens before the rate control is initialised. -/
theorem changeBitrate_of_idle (hinit : a.bitrateIsInitialized = false)
    (hbw : input.bwState ≠ .overusing) :
    a.changeBitrate fns input atTime =
      { a with latestEstimatedThroughput := a.throughputFor input } := by
  simp only [changeBitrate, hinit]
  exact if_pos ⟨rfl, hbw⟩

theorem acted_initialized (hactive : a.bitrateIsInitialized = true ∨ input.bwState = .overusing) :
    (a.acted fns input atTime).2.bitrateIsInitialized = true :=
  (act_changeState_spec fns { a with latestEstimatedThroughput := a.throughputFor input } input
    (a.throughputFor input) atTime).2.1 hactive

theorem acted_increase (h : (a.acted fns input atTime).2.rateControlState = .increase) :
    input.bwState = .normal ∧ (a.acted fns input atTime).2.timeLastBitrateChange = atTime := by
  cases hbw : input.bwState with
  | overusing => simp [acted, changeState, hbw, act, decrease] at h
  | underusing => simp [acted, changeState, hbw, act] at h
  | normal =>
    refine ⟨rfl, ?_⟩
    cases hold : a.rateControlState with
    | hold => simp [acted, changeState, hbw, hold, act, increase]
    | increase => simp [acted, changeState, hbw, hold, act, increase]
    | decrease => simp [acted, changeState, hbw, hold, act] at h

theorem settled_changeBitrate (hidle : a.bitrateIsInitialized = false → a.Settled) :
    (a.changeBitrate fns input atTime).Settled := by
  by_cases hactive : a.bitrateIsInitialized = true ∨ input.bwState = .overusing
  · rw [changeBitrate_of_active hactive]
    obtain ⟨hge, hle⟩ := clampBitrate_settled fns (a.acted fns input atTime).2
      ((a.acted fns input atTime).1.getD (a.acted fns input atTime).2.currentBitrate)
    refine ⟨hge, hle, fun hfalse => ?_, fun hstate => ?_⟩
    · exact absurd (hfalse.symm.trans (acted_initialized hactive)) Bool.false_ne_true
    · show (a.acted fns input atTime).2.timeLastBitrateChange ≠ i64Min
      rw [(acted_increase hstate).2]
      exact cast_ne_i64Min atTime
  · obtain ⟨hinit, hbw⟩ := not_or.1 hactive
    rw [Bool.not_eq_true] at hinit
    rw [changeBitrate_of_idle hinit hbw]
    obtain ⟨hge, hle, hstart, hchanged⟩ := hidle hinit
    exact ⟨hge, hle, hstart, hchanged⟩

/-- A call initialises the rate control, or sets nothing but the time of the first throughput. -/
theorem initBitrate_cases (a : AimdRateControl) (input : RateControlInput) (atTime : Int) :
    (∃ time, a.initBitrate input atTime = { a with timeFirstThroughputEstimate := time }) ∨
      a.bitrateIsInitialized = false ∧ a.timeFirstThroughputEstimate ≠ i64Min ∧
        5000 < atTime - a.timeFirstThroughputEstimate ∧
        ∃ throughput ∈ input.estimatedThroughput, a.initBitrate input atTime =
          { a with currentBitrate := throughput, bitrateIsInitialized := true } := by
  unfold initBitrate
  split
  · exact .inl ⟨_, rfl⟩
  · next hinit =>
    split
    · exact .inl ⟨_, rfl⟩
    · next throughput hthroughput =>
      split
      · exact .inl ⟨_, rfl⟩
      · next hfirst =>
        split
        · next hlate =>
          refine .inr ⟨Bool.not_eq_true _ ▸ hinit, hfirst, hlate, throughput, hthroughput, rfl⟩
        · exact .inl ⟨_, rfl⟩

/-- **Step**: every call leaves a settled rate control. -/
theorem settled_update (h : a.Settled) : (a.update fns input atTime).Settled := by
  refine settled_changeBitrate fun hinit => ?_
  obtain ⟨time, heq⟩ | ⟨-, -, -, throughput, -, heq⟩ := initBitrate_cases a input atTime
  · rw [heq]
    exact ⟨h.ge, h.le, h.start, h.changed⟩
  · rw [heq] at hinit
    cases hinit

theorem settled_updates (h : a.Settled) (calls : List Call) : (a.updates fns calls).Settled :=
  List.foldlRecOn calls _ h fun _ h _ _ => settled_update h

/-! ## The range -/

/-- The bitrate is in the configured range. -/
def InConfiguredRange (a : AimdRateControl) : Prop :=
  gccMinConfiguredBitrate ≤ a.currentBitrate ∧ a.currentBitrate ≤ gccMaxConfiguredBitrate

instance (a : AimdRateControl) : Decidable a.InConfiguredRange :=
  inferInstanceAs (Decidable (_ ∧ _))

/-- The call initialises the rate control: more than five seconds after the first throughput
the bitrate becomes the throughput. The link is overused at that moment, and 85 percent of the
throughput, less three deviations, are above the maximum. -/
def StartsTooHigh (fns : MathFns) (a : AimdRateControl) (call : Call) : Prop :=
  a.bitrateIsInitialized = false ∧ a.timeFirstThroughputEstimate ≠ i64Min ∧
    5000 < (call.2 : Int) - a.timeFirstThroughputEstimate ∧ call.1.bwState = .overusing ∧
    ∃ throughput ∈ call.1.estimatedThroughput, gccMaxConfiguredBitrate <
      (throughput / 1000 - 3 * fns.sqrt (4 / 10 * (throughput / 1000))) * 1000 *
        gccDecreaseCoefBeta

instance (fns : MathFns) (a : AimdRateControl) (call : Call) :
    Decidable (StartsTooHigh fns a call) := by
  unfold StartsTooHigh
  infer_instance

theorem onOveruseDetected_start (throughput : ℚ) :
    ({} : LinkCapacityEstimator).onOveruseDetected throughput =
      ⟨some (throughput / 1000), 4 / 10⟩ := by
  norm_num [LinkCapacityEstimator.onOveruseDetected, LinkCapacityEstimator.update]

theorem lowerBound_start (fns : MathFns) (throughput : ℚ) :
    (({} : LinkCapacityEstimator).onOveruseDetected throughput).lowerBound fns =
      max 0 (throughput / 1000 - 3 * fns.sqrt (4 / 10 * (throughput / 1000))) * 1000 := by
  rw [onOveruseDetected_start]
  rfl

theorem Settled.overshoots_iff (h : a.Settled) :
    Overshoots fns a input atTime ↔ StartsTooHigh fns a (input, atTime) := by
  unfold Overshoots StartsTooHigh
  refine and_congr_right fun hinit => and_congr_right fun _ => and_congr_right fun _ =>
    and_congr_right fun _ => exists_congr fun throughput => and_congr_right fun _ => ?_
  have hmax : (0 : ℚ) < gccMaxConfiguredBitrate := by norm_num [gccMaxConfiguredBitrate]
  have hbeta : (0 : ℚ) < gccDecreaseCoefBeta := by norm_num [gccDecreaseCoefBeta]
  rw [(h.start hinit).1, lowerBound_start]
  generalize throughput / 1000 - 3 * fns.sqrt (4 / 10 * (throughput / 1000)) = estimate
  rcases le_total estimate 0 with hle | hle
  · -- both sides are false
    rw [max_eq_left hle]
    constructor
    · intro hlt
      linarith
    · intro hlt
      have : estimate * 1000 * gccDecreaseCoefBeta ≤ 0 :=
        mul_nonpos_of_nonpos_of_nonneg (by linarith) hbeta.le
      linarith
  · rw [max_eq_right hle]

/-- What clamping does not go below. -/
theorem le_clampBitrate (fns : MathFns) (a : AimdRateControl) (newBitrate : ℚ) :
    min a.currentBitrate (a.linkCapacity.lowerBound fns * gccDecreaseCoefBeta) ≤
      (a.updateNetworkEstimate fns).clampBitrate newBitrate := by
  have hcurrent : (a.updateNetworkEstimate fns).currentBitrate = a.currentBitrate := rfl
  have hlower : ∃ lower, (a.updateNetworkEstimate fns).networkEstimate.linkCapacityLower =
      some lower ∧ a.linkCapacity.lowerBound fns ≤ lower := by
    refine ⟨_, rfl, ?_⟩
    have hmin : (0 : ℚ) ≤ gccMinConfiguredBitrate := by norm_num [gccMinConfiguredBitrate]
    split_ifs with hne hlt
    · exact hlt.le
    · exact le_rfl
    · exact (not_not.1 hne).trans_le hmin
  obtain ⟨lower, hsome, hle⟩ := hlower
  have hbeta : a.linkCapacity.lowerBound fns * gccDecreaseCoefBeta ≤ lower * gccDecreaseCoefBeta :=
    mul_le_mul_of_nonneg_right hle (by norm_num [gccDecreaseCoefBeta])
  simp only [clampBitrate, hsome, hcurrent]
  refine le_max_of_le_left ?_
  split_ifs with hbelow
  · exact min_le_min_left _ (hbeta.trans (le_max_right _ _))
  · exact (min_le_left _ _).trans (not_lt.1 hbelow)

/-- The report that starts too high leaves the range. -/
theorem StartsTooHigh.above (hsqrt : ∀ x, 0 ≤ fns.sqrt x) (h : a.Settled)
    (hhigh : StartsTooHigh fns a (input, atTime)) :
    gccMaxConfiguredBitrate < (a.update fns input atTime).currentBitrate := by
  obtain ⟨hinit, hfirst, hlate, hbw, throughput, hthroughput, hrate⟩ := hhigh
  dsimp only at hlate hbw hthroughput
  have hstart : a.initBitrate input atTime =
      { a with currentBitrate := throughput, bitrateIsInitialized := true } := by
    simp only [initBitrate, hinit, Bool.false_eq_true, if_false, Option.mem_def.1 hthroughput]
    rw [if_neg hfirst, if_pos hlate]
  set b : AimdRateControl := { a with currentBitrate := throughput, bitrateIsInitialized := true }
    with hb
  obtain ⟨hcurrent, -, hlink⟩ := act_changeState_spec fns
    { b with latestEstimatedThroughput := b.throughputFor input } input (b.throughputFor input)
    atTime
  have hsame : b.throughputFor input = throughput := by
    rw [throughputFor, Option.mem_def.1 hthroughput, Option.getD_some]
  have hcapacity : (b.acted fns input atTime).2.linkCapacity =
      ({} : LinkCapacityEstimator).onOveruseDetected throughput := by
    have hlink' := hlink (by rw [hb, (h.start hinit).1])
    rw [if_pos hbw, hsame] at hlink'
    rw [acted, hsame, hlink', hb, (h.start hinit).1]
  -- the lower bound of the capacity is what the bitrate is taken up to
  have hbound := le_clampBitrate fns (b.acted fns input atTime).2
    ((b.acted fns input atTime).1.getD (b.acted fns input atTime).2.currentBitrate)
  rw [hcapacity, lowerBound_start] at hbound
  have hspread := hsqrt (4 / 10 * (throughput / 1000))
  have hbeta : gccDecreaseCoefBeta = 85 / 100 := rfl
  have hmax : gccMaxConfiguredBitrate = 100000000 := by norm_num [gccMaxConfiguredBitrate]
  rw [hbeta, hmax] at hrate
  rw [update, hstart, changeBitrate_of_active (.inl rfl)]
  refine lt_of_lt_of_le (lt_min ?_ ?_) hbound
  · show _ < (b.acted fns input atTime).2.currentBitrate
    rw [show (b.acted fns input atTime).2.currentBitrate = throughput from hcurrent, hmax]
    linarith
  · rw [max_eq_right (by linarith), hbeta, hmax]
    exact hrate

/-- **One call** keeps the bitrate in the range, unless it starts too high. -/
theorem update_inRange_iff (hsqrt : ∀ x, 0 ≤ fns.sqrt x) (h : a.Settled)
    (hrange : a.InConfiguredRange) (call : Call) :
    (a.update fns call.1 call.2).InConfiguredRange ↔ ¬ StartsTooHigh fns a call := by
  constructor
  · intro hin hhigh
    exact absurd hin.2 (not_le.2 (hhigh.above hsqrt h))
  · intro hhigh
    have hunknown : a.bitrateIsInitialized = false → a.linkCapacity.estimateKbps = none :=
      fun hinit => by rw [(h.start hinit).1]
    have hsound : (a.update fns call.1 call.2).Sound :=
      sound_update ⟨hrange.1, hrange.2, hunknown⟩ (mt h.overshoots_iff.1 hhigh)
    exact ⟨hsound.ge, hsound.le⟩

/-- **When the bitrate stays in the range**: after every call of a sequence, if and only if no
call of it starts too high. -/
theorem aimd_in_range_iff (fns : MathFns) (hsqrt : ∀ x, 0 ≤ fns.sqrt x) (framerate : ℚ)
    (calls : List Call) :
    (∀ done, done <+: calls → ((new framerate).updates fns done).InConfiguredRange) ↔
      ∀ done call, done ++ [call] <+: calls →
        ¬ StartsTooHigh fns ((new framerate).updates fns done) call := by
  have hsettled : ∀ done, ((new framerate).updates fns done).Settled := fun done =>
    settled_updates (settled_new framerate) done
  have hsnoc : ∀ done (call : Call), (new framerate).updates fns (done ++ [call]) =
      ((new framerate).updates fns done).update fns call.1 call.2 := fun done call =>
    updates_append fns _ done [call]
  constructor
  · intro hrange done call hdone
    have hbefore : done <+: calls := (List.prefix_append done [call]).trans hdone
    rw [← update_inRange_iff hsqrt (hsettled done) (hrange done hbefore), ← hsnoc]
    exact hrange _ hdone
  · intro hlow done
    -- from the end: the calls before are in the range
    induction done using List.reverseRecOn with
    | nil => exact fun _ => ⟨gccMin_le_gccMax, le_rfl⟩
    | append_singleton done call ih =>
      intro hdone
      rw [hsnoc, update_inRange_iff hsqrt (hsettled done)
        (ih ((List.prefix_append done [call]).trans hdone))]
      exact hlow done call hdone

/-- A throughput of 225 Mbit/s from the start, and the state of the link when the five seconds
are over. -/
def startedWith (bwState : BandwidthUsage) : List Call :=
  [(⟨.normal, some 225000000⟩, 0), (⟨bwState, some 225000000⟩, 5001)]

/-- In congestion the bitrate is 190 Mbit/s; the maximum is 100. -/
theorem aimd_out_of_range :
    ¬ ((new 90).updates squareRoots (startedWith .overusing)).InConfiguredRange := by
  decide +kernel

theorem squareRoots_nonneg (x : ℚ) : 0 ≤ squareRoots.sqrt x := Nat.cast_nonneg _

/-- Without the congestion, the bitrate is in the range after both calls. -/
theorem aimd_in_range_without_congestion :
    ((new 90).updates squareRoots ((startedWith .normal).take 1)).InConfiguredRange ∧
      ((new 90).updates squareRoots (startedWith .normal)).InConfiguredRange := by
  have hrange : ∀ done, done <+: startedWith .normal →
      ((new 90).updates squareRoots done).InConfiguredRange := by
    refine (aimd_in_range_iff squareRoots squareRoots_nonneg 90 _).2 fun done call hdone hhigh => ?_
    have hcall : call ∈ startedWith .normal := hdone.subset (by simp)
    have hnormal : call.1.bwState = .normal := by
      rcases List.mem_pair.1 hcall with rfl | rfl <;> rfl
    exact absurd (hnormal.symm.trans hhigh.2.2.2.1) (by decide)
  exact ⟨hrange _ (List.take_prefix 1 _), hrange _ List.prefix_rfl⟩

/-! ## The pace of the increase -/

/-- The bitrate increases, and the capacity of the link is not known. -/
def Increasing (a : AimdRateControl) : Prop :=
  a.rateControlState = .increase ∧ a.linkCapacity.estimateKbps = none

instance (a : AimdRateControl) : Decidable a.Increasing := inferInstanceAs (Decidable (_ ∧ _))

/-- How far a call may take the bitrate: `increase_limit`, and the maximum. -/
def increaseLimit (throughput : ℚ) : ℚ := min (15 / 10 * throughput + 10000) gccMaxConfiguredBitrate

/-- The limits of a sequence of calls, if the throughput was known before. A call without a
throughput goes by the last one. -/
def increaseLimits : ℚ → List Call → List ℚ
  | _, [] => []
  | latest, call :: calls =>
    increaseLimit (call.1.estimatedThroughput.getD latest) ::
      increaseLimits (call.1.estimatedThroughput.getD latest) calls

/-- Away from `i64::MIN` the time is not looked at: the increase is 8 percent of the bitrate. -/
theorem multiplicativeRateIncrease_eq {lastTime : Int} (hlast : lastTime ≠ i64Min) (time : Int)
    {bitrate : ℚ} (hbitrate : gccMinConfiguredBitrate ≤ bitrate) :
    multiplicativeRateIncrease fns time lastTime bitrate = 8 / 100 * bitrate := by
  have hmin : gccMinConfiguredBitrate = 10000000 := by norm_num [gccMinConfiguredBitrate]
  have halpha : gccIncreaseCoefAlpha = 108 / 100 := rfl
  rw [hmin] at hbitrate
  simp only [multiplicativeRateIncrease, if_neg hlast, halpha]
  rw [max_eq_left (by linarith)]
  ring

/-- What a call does while the bitrate increases: nothing happens to the link capacity. -/
theorem acted_of_increasing (h : a.Settled) (hinc : a.Increasing) (hbw : input.bwState = .normal) :
    a.acted fns input atTime =
      (if a.currentBitrate < 15 / 10 * a.throughputFor input + 10000 then
        some (min (108 / 100 * a.currentBitrate) (15 / 10 * a.throughputFor input + 10000))
      else none,
      { a with
        latestEstimatedThroughput := a.throughputFor input
        timeLastBitrateChange := atTime }) := by
  obtain ⟨hstate, hnone⟩ := hinc
  have hincrease : a.currentBitrate + 8 / 100 * a.currentBitrate =
      108 / 100 * a.currentBitrate := by ring
  simp only [acted, changeState, hbw, hstate, act, increase, upperBound_of_unknown hnone,
    Option.any_none, Bool.false_eq_true, if_false, hnone, Option.isSome_none,
    multiplicativeRateIncrease_eq (h.changed hstate) _ h.ge, hincrease]

/-- Without an estimate of the link capacity an increase is cut off at the maximum. -/
theorem clampBitrate_of_unknown (hnone : a.linkCapacity.estimateKbps = none) {newBitrate : ℚ}
    (hcurrent : a.currentBitrate ≤ min gccMaxConfiguredBitrate newBitrate)
    (hmin : gccMinConfiguredBitrate ≤ a.currentBitrate) :
    (a.updateNetworkEstimate fns).clampBitrate newBitrate =
      min gccMaxConfiguredBitrate newBitrate := by
  have hkeep : (a.updateNetworkEstimate fns).currentBitrate = a.currentBitrate := rfl
  have hupper : (a.updateNetworkEstimate fns).networkEstimate.linkCapacityUpper =
      some gccMaxConfiguredBitrate := by
    rw [updateNetworkEstimate, upperBound_of_unknown hnone]
    rfl
  obtain ⟨lower, hlower⟩ : ∃ lower,
      (a.updateNetworkEstimate fns).networkEstimate.linkCapacityLower = some lower := ⟨_, rfl⟩
  simp only [clampBitrate, hupper, hlower, hkeep, Option.elim_some, if_neg hcurrent.not_gt]
  exact max_eq_left (hmin.trans hcurrent)

/-- **One call** while the bitrate increases: it grows by 8 percent, whatever the time, up to
the limit. -/
theorem update_of_increasing (h : a.Settled) (hinc : a.Increasing)
    (hnext : (a.update fns input atTime).Increasing) :
    (a.update fns input atTime).currentBitrate =
        growTo (108 / 100) a.currentBitrate (increaseLimit (a.throughputFor input)) ∧
      (a.update fns input atTime).latestEstimatedThroughput = a.throughputFor input := by
  have hinit := h.initialized hinc.1
  have hupdate : a.update fns input atTime = a.changeBitrate fns input atTime := by
    rw [update, initBitrate, if_pos hinit]
  rw [hupdate, changeBitrate_of_active (.inl hinit)] at hnext ⊢
  rw [acted_of_increasing h hinc (acted_increase hnext.1).1]
  refine ⟨?_, rfl⟩
  have hmin : gccMinConfiguredBitrate = 10000000 := by norm_num [gccMinConfiguredBitrate]
  have hge := h.ge
  have hle := h.le hinc.2
  rw [hmin] at hge
  have hgrowing : a.currentBitrate ≤ 108 / 100 * a.currentBitrate := by linarith
  rw [increaseLimit, growTo]
  generalize 15 / 10 * a.throughputFor input + 10000 = limit
  by_cases hroom : a.currentBitrate < limit
  · rw [if_pos hroom, Option.getD_some]
    have hnew : a.currentBitrate ≤
        min gccMaxConfiguredBitrate (min (108 / 100 * a.currentBitrate) limit) :=
      le_min hle (le_min hgrowing hroom.le)
    refine (clampBitrate_of_unknown hinc.2 hnew h.ge).trans ?_
    rw [min_left_comm, min_comm gccMaxConfiguredBitrate] at hnew ⊢
    exact (max_eq_right hnew).symm
  · rw [if_neg hroom, Option.getD_none]
    refine (clampBitrate_of_unknown hinc.2 (le_min hle le_rfl) h.ge).trans ?_
    rw [min_eq_right hle]
    exact (max_eq_left (min_le_of_right_le (min_le_of_left_le (not_lt.1 hroom)))).symm

/-- **A run** of calls while the bitrate increases. -/
theorem updates_of_increasing (h : a.Settled) (calls : List Call)
    (hstay : ∀ done, done <+: calls → (a.updates fns done).Increasing) :
    (a.updates fns calls).currentBitrate =
      growAll (108 / 100) a.currentBitrate (increaseLimits a.latestEstimatedThroughput calls) := by
  induction calls generalizing a with
  | nil => rfl
  | cons call calls ih =>
    have hnow : a.Increasing := hstay [] ⟨_, rfl⟩
    have hnext : (a.update fns call.1 call.2).Increasing := hstay [call] ⟨calls, rfl⟩
    obtain ⟨hbitrate, hthroughput⟩ := update_of_increasing h hnow hnext
    rw [updates_cons, ih (settled_update h), hbitrate, hthroughput]
    · rfl
    · rintro done ⟨rest, rfl⟩
      exact hstay (call :: done) ⟨rest, rfl⟩

/-- **When the increase is paced**: over calls that all increase the bitrate without an estimate
of the link capacity, it grows by 8 percent and 1000 bit/s a call at most, if and only if it
starts low enough for the limits. -/
theorem increase_paced_iff (fns : MathFns) (framerate : ℚ) (history calls : List Call)
    (hstay : ∀ done, done <+: calls →
      ((new framerate).updates fns (history ++ done)).Increasing) :
    let start := (new framerate).updates fns history
    let paced := 108 / 100 * start.currentBitrate + 1000 * calls.length
    ((new framerate).updates fns (history ++ calls)).currentBitrate ≤ paced ↔
      start.currentBitrate ≤
        largestStart (108 / 100) (increaseLimits start.latestEstimatedThroughput calls) paced := by
  intro start paced
  have hsettled : start.Settled := settled_updates (settled_new framerate) history
  have hpaced : 0 ≤ paced := by
    have hmin : (0 : ℚ) ≤ gccMinConfiguredBitrate := by norm_num [gccMinConfiguredBitrate]
    have hstart : 0 ≤ start.currentBitrate := hmin.trans hsettled.ge
    positivity
  have hcalls : ∀ done, done <+: calls → (start.updates fns done).Increasing := by
    intro done hdone
    rw [← updates_append]
    exact hstay done hdone
  rw [updates_append, updates_of_increasing hsettled calls hcalls,
    growAll_le_iff (by norm_num) _ hpaced]

/-- An overused link at 20 Mbit/s, and then a throughput above what that allows: the estimate of
the link capacity is dropped, and the bitrate increases from 18.6 Mbit/s. -/
def afterCongestion : List Call :=
  [(⟨.overusing, some 20250000⟩, 0), (⟨.normal, some 100000000⟩, 11)]

/-- Two more reports, 11 ms apart. -/
def twoReports (throughput : ℚ) : List Call :=
  [(⟨.normal, some throughput⟩, 22), (⟨.normal, some throughput⟩, 33)]

/-- With a throughput of 13 Mbit/s the limit is 19.51 Mbit/s: the bitrate grows, by less than
8 percent. -/
theorem increase_paced_up_to_limit :
    ((new 90).updates squareRoots afterCongestion).currentBitrate <
        ((new 90).updates squareRoots (afterCongestion ++ twoReports 13000000)).currentBitrate ∧
      ((new 90).updates squareRoots (afterCongestion ++ twoReports 13000000)).currentBitrate ≤
        108 / 100 * ((new 90).updates squareRoots afterCongestion).currentBitrate + 1000 * 2 := by
  have hstay : ∀ done ∈ (twoReports 13000000).inits,
      ((new 90).updates squareRoots (afterCongestion ++ done)).Increasing := by decide +kernel
  refine ⟨by decide +kernel, ?_⟩
  exact (increase_paced_iff squareRoots 90 afterCongestion (twoReports 13000000)
    fun done hdone => hstay done ((List.mem_inits _ _).2 hdone)).2 (by decide +kernel)

/-- With a throughput of 100 Mbit/s the bitrate grows by 16.6 percent in 22 ms. -/
theorem increase_not_paced :
    (∀ done ∈ (twoReports 100000000).inits,
      ((new 90).updates squareRoots (afterCongestion ++ done)).Increasing) ∧
    108 / 100 * ((new 90).updates squareRoots afterCongestion).currentBitrate + 1000 * 2 <
      ((new 90).updates squareRoots (afterCongestion ++ twoReports 100000000)).currentBitrate := by
  decide +kernel

end SiestaVR.Abr.AimdRateControl
