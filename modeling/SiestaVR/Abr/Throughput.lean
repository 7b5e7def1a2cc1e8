import Mathlib.Data.List.Induction
import SiestaVR.Lib.RunningValues
import SiestaVR.Abr.Gcc

/-!
# The throughput estimate (lib/gcc_nada_estimator.rs:919–1011)

`BitrateEstimator` sums up the bytes of a window, and when the window is full it blends the rate
into its estimate, by a weight that depends on how far the sample is from the estimate.

- A window is never full without a byte in it: a gap that empties the sum leaves less than a
  window of time, also when the length of the window changes after the first sample.
- The division by the estimate and the one by the sum of the variances are never by zero. What
  the source divides by is checked in `updateChecked`.
- The weights are not negative, so the estimate stays within the samples
  (`throughput_within_samples`).
-/

namespace SiestaVR.Abr.BitrateEstimator

open Lib

variable {e : BitrateEstimator} {nowMs : Int} {bytes : Nat} {samples : List ℚ}

/-! ## Checked divisions -/

/-- Division, if it is not by zero. -/
def checkedDiv (a b : ℚ) : Option ℚ := if b = 0 then none else some (a / b)

/-- The remainder, if it is not by zero. -/
def checkedMod (a b : Int) : Option Int := if b = 0 then none else some (a % b)

/-- `UpdateWindow` up to the question whether the window is full; no result if a remainder is by
zero. -/
def advanceChecked (e : BitrateEstimator) (nowMs rateWindowMs : Int) : Option BitrateEstimator :=
  let e :=
    if nowMs < e.prevTimeMs then { e with prevTimeMs := -1, sum := 0, currentWindowMs := 0 } else e
  let e? :=
    if e.prevTimeMs ≥ 0 then
      let window := e.currentWindowMs + (nowMs - e.prevTimeMs)
      if nowMs - e.prevTimeMs > rateWindowMs then
        (checkedMod window rateWindowMs).map fun rest =>
          { e with sum := 0, currentWindowMs := rest }
      else some { e with currentWindowMs := window }
    else some e
  e?.map fun e => { e with prevTimeMs := nowMs }

/-- `UpdateWindow`; no result if a division is by zero. -/
def updateWindowChecked (e : BitrateEstimator) (nowMs : Int) (bytes : Nat) (rateWindowMs : Int) :
    Option (ℚ × BitrateEstimator) :=
  (e.advanceChecked nowMs rateWindowMs).bind fun e =>
    if e.currentWindowMs ≥ rateWindowMs then
      (checkedDiv (8 * e.sum) rateWindowMs).map fun sample =>
        (sample, { e with currentWindowMs := e.currentWindowMs - rateWindowMs, sum := bytes })
    else some (-1, { e with sum := e.sum + bytes })

/-- `Update`; no result if a division is by zero. -/
def updateChecked (e : BitrateEstimator) (atTime : Int) (amount : Nat) :
    Option BitrateEstimator := do
  let rateWindowMs := if e.bitrateEstimateKbps < 0 then 350 else 250
  let (sampleKbps, e) ← e.updateWindowChecked atTime amount rateWindowMs
  if sampleKbps < 0 then some e
  else if e.bitrateEstimateKbps < 0 then some { e with bitrateEstimateKbps := sampleKbps }
  else
    let sampleUncertainty ← checkedDiv (10 * |e.bitrateEstimateKbps - sampleKbps|)
      (e.bitrateEstimateKbps + min sampleKbps 0)
    let sampleVar := sampleUncertainty * sampleUncertainty
    let predVar := e.bitrateEstimateVar + 5
    let estimate ← checkedDiv (sampleVar * e.bitrateEstimateKbps + predVar * sampleKbps)
      (sampleVar + predVar)
    let var ← checkedDiv (sampleVar * predVar) (sampleVar + predVar)
    some { e with bitrateEstimateKbps := max estimate 0, bitrateEstimateVar := var }

theorem checkedDiv_of_ne {a b : ℚ} (h : b ≠ 0) : checkedDiv a b = some (a / b) := if_neg h

/-! ## The window -/

/-- The length of the window: longer at the beginning. -/
def rateWindowMs (e : BitrateEstimator) : Int := if e.bitrateEstimateKbps < 0 then 350 else 250

theorem rateWindowMs_pos (e : BitrateEstimator) : 0 < e.rateWindowMs := by
  unfold rateWindowMs
  split_ifs <;> decide

/-- `UpdateWindow` up to the question whether the window is full. -/
def advance (e : BitrateEstimator) (nowMs rateWindowMs : Int) : BitrateEstimator :=
  let e :=
    if nowMs < e.prevTimeMs then { e with prevTimeMs := -1, sum := 0, currentWindowMs := 0 } else e
  let e :=
    if e.prevTimeMs ≥ 0 then
      let window := e.currentWindowMs + (nowMs - e.prevTimeMs)
      if nowMs - e.prevTimeMs > rateWindowMs then
        { e with sum := 0, currentWindowMs := window % rateWindowMs }
      else { e with currentWindowMs := window }
    else e
  { e with prevTimeMs := nowMs }

theorem updateWindow_eq (e : BitrateEstimator) (nowMs : Int) (bytes : Nat) (rateWindowMs : Int) :
    e.updateWindow nowMs bytes rateWindowMs =
      let a := e.advance nowMs rateWindowMs
      if a.currentWindowMs ≥ rateWindowMs then
        ((8 * a.sum / rateWindowMs : ℚ),
          { a with currentWindowMs := a.currentWindowMs - rateWindowMs, sum := bytes })
      else (-1, { a with sum := a.sum + bytes }) := rfl

/-- The sample that a call produces, in kbit/s. -/
def sample? (e : BitrateEstimator) (nowMs : Int) : Option ℚ :=
  let a := e.advance nowMs e.rateWindowMs
  if a.currentWindowMs ≥ e.rateWindowMs then some (8 * a.sum / e.rateWindowMs) else none

/-- There are bytes in the window, or nothing has happened yet. -/
def Filled (e : BitrateEstimator) : Prop :=
  0 < e.sum ∨ e.sum = 0 ∧ e.currentWindowMs = 0 ∧ e.prevTimeMs < 0

theorem advance_keeps (e : BitrateEstimator) (nowMs rateWindowMs : Int) :
    (e.advance nowMs rateWindowMs).bitrateEstimateKbps = e.bitrateEstimateKbps ∧
      (e.advance nowMs rateWindowMs).bitrateEstimateVar = e.bitrateEstimateVar := by
  simp only [advance]
  split_ifs <;> exact ⟨rfl, rfl⟩

theorem Filled.advance (h : e.Filled) {window : Int} (hwindow : 0 < window) (nowMs : Int) :
    0 ≤ (e.advance nowMs window).sum ∧
      (window ≤ (e.advance nowMs window).currentWindowMs → 0 < (e.advance nowMs window).sum) := by
  -- after a long gap less than a window is left
  have hrest := Int.emod_lt_of_pos (e.currentWindowMs + (nowMs - e.prevTimeMs)) hwindow
  unfold Filled at h
  simp only [BitrateEstimator.advance]
  split_ifs with hback hprev hgap hprev hgap <;> grind

/-- What a call makes of the window: a positive sample or none, and bytes in the next window. -/
theorem Filled.updateWindow (h : e.Filled) (nowMs : Int) (hbytes : 0 < bytes) :
    let w := e.updateWindow nowMs bytes e.rateWindowMs
    (w.1 = -1 ∧ e.sample? nowMs = none ∨ 0 < w.1 ∧ e.sample? nowMs = some w.1) ∧
      0 < w.2.sum ∧ w.2.bitrateEstimateKbps = e.bitrateEstimateKbps ∧
      w.2.bitrateEstimateVar = e.bitrateEstimateVar := by
  obtain ⟨hsum, hfull⟩ := h.advance e.rateWindowMs_pos nowMs
  obtain ⟨hestimate, hvar⟩ := e.advance_keeps nowMs e.rateWindowMs
  rw [updateWindow_eq]
  simp only [sample?]
  split_ifs with hwindow
  · have hpos : (0 : ℚ) < (e.advance nowMs e.rateWindowMs).sum := by exact_mod_cast hfull hwindow
    have hlen : (0 : ℚ) < e.rateWindowMs := by exact_mod_cast e.rateWindowMs_pos
    have hnext : (0 : ℤ) < bytes := by exact_mod_cast hbytes
    exact ⟨.inr ⟨by positivity, rfl⟩, hnext, hestimate, hvar⟩
  · refine ⟨.inl ⟨rfl, rfl⟩, ?_, hestimate, hvar⟩
    show 0 < (e.advance nowMs e.rateWindowMs).sum + bytes
    omega

theorem advanceChecked_eq {window : Int} (hwindow : window ≠ 0) (e : BitrateEstimator)
    (nowMs : Int) : e.advanceChecked nowMs window = some (e.advance nowMs window) := by
  have hmod : ∀ x, checkedMod x window = some (x % window) := fun x => if_neg hwindow
  simp only [advanceChecked, advance, hmod, Option.map_some]
  split_ifs <;> rfl

/-- No division by zero in the window. -/
theorem updateWindowChecked_eq {window : Int} (hwindow : window ≠ 0) (e : BitrateEstimator)
    (nowMs : Int) (bytes : Nat) :
    e.updateWindowChecked nowMs bytes window = some (e.updateWindow nowMs bytes window) := by
  have hcast : (window : ℚ) ≠ 0 := by exact_mod_cast hwindow
  rw [updateWindow_eq, updateWindowChecked, advanceChecked_eq hwindow, Option.bind_some]
  simp only [checkedDiv_of_ne hcast, Option.map_some]
  split_ifs <;> rfl

/-! ## The estimate -/

/-- The variance of a sample: how far it is from the estimate. -/
def sampleVar (e : BitrateEstimator) (sample : ℚ) : ℚ :=
  let sampleUncertainty := 10 * |e.bitrateEstimateKbps - sample| /
    (e.bitrateEstimateKbps + min sample 0)
  sampleUncertainty * sampleUncertainty

/-- The weight of a sample in the new estimate. -/
def weight (e : BitrateEstimator) (sample : ℚ) : ℚ :=
  (e.bitrateEstimateVar + 5) / (e.sampleVar sample + (e.bitrateEstimateVar + 5))

theorem sampleVar_nonneg (e : BitrateEstimator) (sample : ℚ) : 0 ≤ e.sampleVar sample :=
  mul_self_nonneg _

section weight

variable (hvar : 0 ≤ e.bitrateEstimateVar) (sample : ℚ)

include hvar

theorem variances_pos : 0 < e.sampleVar sample + (e.bitrateEstimateVar + 5) := by
  have hsample := e.sampleVar_nonneg sample
  linarith

theorem weight_nonneg : 0 ≤ e.weight sample :=
  div_nonneg (by linarith) (variances_pos hvar sample).le

theorem weight_le_one : e.weight sample ≤ 1 := by
  rw [weight, div_le_one (variances_pos hvar sample)]
  linarith [e.sampleVar_nonneg sample]

theorem estimate_eq_blend :
    (e.sampleVar sample * e.bitrateEstimateKbps + (e.bitrateEstimateVar + 5) * sample) /
      (e.sampleVar sample + (e.bitrateEstimateVar + 5)) =
    blend (e.weight sample) sample e.bitrateEstimateKbps := by
  have hne := (variances_pos hvar sample).ne'
  rw [weight, blend]
  field_simp
  ring

end weight

/-! ## Runs -/

/-- What holds after every call, with the samples produced so far. -/
structure Tracked (samples : List ℚ) (e : BitrateEstimator) : Prop where
  filled : e.Filled
  var : 0 ≤ e.bitrateEstimateVar
  positive : ∀ x ∈ samples, 0 < x
  unknown : samples = [] → e.bitrateEstimateKbps < 0
  within : samples ≠ [] → Within samples e.bitrateEstimateKbps

theorem update_eq (e : BitrateEstimator) (nowMs : Int) (bytes : Nat) :
    e.update nowMs bytes =
      let w := e.updateWindow nowMs bytes e.rateWindowMs
      if w.1 < 0 then w.2
      else if w.2.bitrateEstimateKbps < 0 then { w.2 with bitrateEstimateKbps := w.1 }
      else
        let predVar := w.2.bitrateEstimateVar + 5
        { w.2 with
          bitrateEstimateKbps :=
            max ((w.2.sampleVar w.1 * w.2.bitrateEstimateKbps + predVar * w.1) /
              (w.2.sampleVar w.1 + predVar)) 0
          bitrateEstimateVar :=
            w.2.sampleVar w.1 * predVar / (w.2.sampleVar w.1 + predVar) } := rfl

/-- No division by zero, if the estimate is positive where the sample is. -/
theorem updateChecked_eq (e : BitrateEstimator) (nowMs : Int) (bytes : Nat)
    (hvar : 0 ≤ (e.updateWindow nowMs bytes e.rateWindowMs).2.bitrateEstimateVar)
    (hestimate : let w := e.updateWindow nowMs bytes e.rateWindowMs
      ¬ w.1 < 0 → ¬ w.2.bitrateEstimateKbps < 0 → w.2.bitrateEstimateKbps + min w.1 0 ≠ 0) :
    e.updateChecked nowMs bytes = some (e.update nowMs bytes) := by
  rw [update_eq]
  simp only [updateChecked]
  rw [show (if e.bitrateEstimateKbps < 0 then 350 else 250) = e.rateWindowMs from rfl,
    updateWindowChecked_eq e.rateWindowMs_pos.ne']
  generalize e.updateWindow nowMs bytes e.rateWindowMs = w at hvar hestimate ⊢
  obtain ⟨sample, a⟩ := w
  dsimp only at hvar hestimate
  have hsum : a.sampleVar sample + (a.bitrateEstimateVar + 5) ≠ 0 := (variances_pos hvar sample).ne'
  simp only [Option.bind_eq_bind, Option.bind_some]
  split_ifs with hnone hfirst
  · rfl
  · rfl
  · rw [checkedDiv_of_ne (hestimate hnone hfirst), Option.bind_some]
    simp only [sampleVar] at hsum
    rw [checkedDiv_of_ne hsum, Option.bind_some, checkedDiv_of_ne hsum, Option.bind_some]
    rfl

theorem Tracked.estimate_pos (h : Tracked samples e) (hne : samples ≠ []) :
    0 < e.bitrateEstimateKbps := by
  obtain ⟨⟨lo, hlo, hle⟩, -⟩ := h.within hne
  exact (h.positive lo hlo).trans_le hle

theorem Tracked.estimate_known (h : Tracked samples e) :
    samples = [] ∧ e.bitrateEstimateKbps < 0 ∨ samples ≠ [] ∧ 0 < e.bitrateEstimateKbps := by
  by_cases hne : samples = []
  · exact .inl ⟨hne, h.unknown hne⟩
  · exact .inr ⟨hne, h.estimate_pos hne⟩

/-- **Step**: a call does not divide by zero. -/
theorem Tracked.updateChecked_eq (h : Tracked samples e) (nowMs : Int) (hbytes : 0 < bytes) :
    e.updateChecked nowMs bytes = some (e.update nowMs bytes) := by
  obtain ⟨hsample, -, hestimate, hvar⟩ := h.filled.updateWindow nowMs hbytes
  refine BitrateEstimator.updateChecked_eq e nowMs bytes (hvar ▸ h.var) fun hfull hknown => ?_
  rw [hestimate] at hknown ⊢
  have hpos : 0 < e.bitrateEstimateKbps := by
    rcases h.estimate_known with ⟨-, hunknown⟩ | ⟨-, hpos⟩
    · exact absurd hunknown hknown
    · exact hpos
  have hmin : min (e.updateWindow nowMs bytes e.rateWindowMs).1 0 = 0 :=
    min_eq_right (not_lt.1 hfull)
  rw [hmin, add_zero]
  exact hpos.ne'

theorem tracked_singleton {sample : ℚ} {e : BitrateEstimator} (hfilled : e.Filled)
    (hvar : 0 ≤ e.bitrateEstimateVar) (hsample : 0 < sample) :
    Tracked [sample] { e with bitrateEstimateKbps := sample } where
  filled := hfilled
  var := hvar
  positive x hx := by
    rw [List.mem_singleton.1 hx]
    exact hsample
  unknown := nofun
  within _ := within_singleton sample

/-- Every other sample is blended in. -/
theorem tracked_snoc {sample : ℚ} (hfilled : e.Filled) (hvar : 0 ≤ e.bitrateEstimateVar)
    (hpositive : ∀ x ∈ samples, 0 < x) (hwithin : Within samples e.bitrateEstimateKbps)
    (hsample : 0 < sample) :
    let predVar := e.bitrateEstimateVar + 5
    Tracked (samples ++ [sample])
      { e with
        bitrateEstimateKbps :=
          max ((e.sampleVar sample * e.bitrateEstimateKbps + predVar * sample) /
            (e.sampleVar sample + predVar)) 0
        bitrateEstimateVar := e.sampleVar sample * predVar / (e.sampleVar sample + predVar) } := by
  intro predVar
  have hall : ∀ x ∈ samples ++ [sample], 0 < x := by
    intro x hx
    rcases List.mem_append.1 hx with hx | hx
    · exact hpositive x hx
    · rw [List.mem_singleton.1 hx]
      exact hsample
  have hblend : Within (samples ++ [sample])
      (blend (e.weight sample) sample e.bitrateEstimateKbps) :=
    hwithin.blend (weight_nonneg hvar sample) (weight_le_one hvar sample) sample
  -- A blend of positive values is positive, so the cut-off at 0 does nothing.
  have hpos : 0 < blend (e.weight sample) sample e.bitrateEstimateKbps := by
    obtain ⟨⟨lo, hlo, hle⟩, -⟩ := hblend
    exact (hall lo hlo).trans_le hle
  have hpred : 0 ≤ predVar := by
    show 0 ≤ e.bitrateEstimateVar + 5
    linarith
  rw [estimate_eq_blend hvar sample, max_eq_left hpos.le]
  exact {
    filled := hfilled
    var := div_nonneg (mul_nonneg (e.sampleVar_nonneg sample) hpred) (variances_pos hvar sample).le
    positive := hall
    unknown := fun hnil => absurd hnil (List.append_ne_nil_of_right_ne_nil _ (List.cons_ne_nil _ _))
    within := fun _ => hblend }

/-- **Step**: a call keeps the estimate within the samples. -/
theorem Tracked.update (h : Tracked samples e) (nowMs : Int) (hbytes : 0 < bytes) :
    Tracked (samples ++ (e.sample? nowMs).toList) (e.update nowMs bytes) := by
  obtain ⟨hsample, hsum, hestimate, hvar⟩ := h.filled.updateWindow nowMs hbytes
  have hvar' := hvar.ge.trans' h.var
  rw [update_eq]
  generalize e.updateWindow nowMs bytes e.rateWindowMs = w at hsample hsum hestimate hvar hvar' ⊢
  rcases hsample with ⟨hw, hnone⟩ | ⟨hw, hsome⟩
  · have hneg : w.1 < 0 := by
      rw [hw]
      norm_num
    rw [hnone, Option.toList_none, List.append_nil]
    simp only [if_pos hneg]
    exact {
      filled := .inl hsum
      var := hvar'
      positive := h.positive
      unknown := hestimate ▸ h.unknown
      within := hestimate ▸ h.within }
  · rw [hsome, Option.toList_some]
    simp only [if_neg hw.not_gt]
    rcases h.estimate_known with ⟨rfl, hunknown⟩ | ⟨hne, hpos⟩
    · rw [if_pos (hestimate ▸ hunknown)]
      exact tracked_singleton (.inl hsum) hvar' hw
    · rw [if_neg (hestimate ▸ hpos).not_gt]
      exact tracked_snoc (.inl hsum) hvar' h.positive (hestimate ▸ h.within hne) hw

/-- An estimator and the samples it has produced, after a list of calls. A call is a time in
milliseconds and a number of bytes. -/
def updates (calls : List (Int × Nat)) : List ℚ × BitrateEstimator :=
  calls.foldl (fun t call => (t.1 ++ (t.2.sample? call.1).toList, t.2.update call.1 call.2))
    ([], {})

theorem updates_snoc (calls : List (Int × Nat)) (call : Int × Nat) :
    updates (calls ++ [call]) = ((updates calls).1 ++ ((updates calls).2.sample? call.1).toList,
      (updates calls).2.update call.1 call.2) :=
  List.foldl_append

theorem tracked_start : Tracked [] {} where
  filled := .inr (by decide)
  var := by norm_num
  positive := nofun
  unknown _ := by norm_num
  within h := absurd rfl h

/-- **Run**: the calls do not divide by zero, and keep the estimate within the samples. -/
theorem tracked_updates (calls : List (Int × Nat)) (hbytes : ∀ call ∈ calls, 0 < call.2) :
    calls.foldlM (fun e call => updateChecked e call.1 call.2) {} = some (updates calls).2 ∧
      Tracked (updates calls).1 (updates calls).2 := by
  induction calls using List.reverseRecOn with
  | nil => exact ⟨rfl, tracked_start⟩
  | append_singleton calls call ih =>
    obtain ⟨hchecked, htracked⟩ := ih fun c hc => hbytes c (List.mem_append_left _ hc)
    have hcall : 0 < call.2 := hbytes call (List.mem_append_right _ List.mem_cons_self)
    rw [updates_snoc]
    refine ⟨?_, htracked.update call.1 hcall⟩
    rw [List.foldlM_append, hchecked]
    simp [htracked.updateChecked_eq call.1 hcall]

/-- **The throughput estimate stays within its samples**: for every sequence of calls with bytes
in them, every sample is positive, no division is by zero, and once there is a sample the
bitrate is positive and between two samples. -/
theorem throughput_within_samples (calls : List (Int × Nat))
    (hbytes : ∀ call ∈ calls, 0 < call.2) :
    (∀ sample ∈ (updates calls).1, 0 < sample) ∧
    calls.foldlM (fun e call => updateChecked e call.1 call.2) {} = some (updates calls).2 ∧
    ((updates calls).1 ≠ [] → ∃ kbps, (updates calls).2.bitrate = some (kbps * 1000) ∧ 0 < kbps ∧
      (∃ lo ∈ (updates calls).1, lo ≤ kbps) ∧ ∃ hi ∈ (updates calls).1, kbps ≤ hi) := by
  obtain ⟨hchecked, htracked⟩ := tracked_updates calls hbytes
  refine ⟨htracked.positive, hchecked, fun hne => ?_⟩
  have hpos := htracked.estimate_pos hne
  refine ⟨(updates calls).2.bitrateEstimateKbps, ?_, hpos, htracked.within hne⟩
  rw [bitrate, if_neg hpos.not_gt]

/-- A thousand bytes every 200 ms: the third call fills the first window, the fourth the next. -/
def steadyCalls : List (Int × Nat) := [(0, 1000), (200, 1000), (400, 1000), (600, 1000)]

theorem throughput_within_samples_steady :
    (updates steadyCalls).1 = [320 / 7, 32] ∧ ∃ kbps, 0 < kbps ∧
      (updates steadyCalls).2.bitrate = some (kbps * 1000) := by
  have hsamples : (updates steadyCalls).1 = [320 / 7, 32] := by decide +kernel
  obtain ⟨-, -, hbitrate⟩ := throughput_within_samples steadyCalls (by decide)
  obtain ⟨kbps, hkbps, hpos, -⟩ := hbitrate (by rw [hsamples]; exact List.cons_ne_nil _ _)
  exact ⟨hsamples, kbps, hpos, hkbps⟩

end SiestaVR.Abr.BitrateEstimator
