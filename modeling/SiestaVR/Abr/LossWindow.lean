import SiestaVR.Lib.Runs
import SiestaVR.Lib.TimedWindow
import Mathlib.Algebra.Order.Ring.Nat
import Mathlib.Algebra.Order.Ring.Unbundled.Rat
import Mathlib.Algebra.BigOperators.Group.List.Basic

/-!
# The window of loss reports (lib/models_XR.rs:1443–1511)

`TimedVecFLR` keeps the reports of frame and shard losses of the last `period` and the sums
over them. The sums are not computed from the reports: a push adds to them, and every report
that is dropped from the front is subtracted again. Reports are dropped at a push and at a
query, with the cutoff of that moment.

Two facts carry the result. The sums are those of the reports that are kept, so that nothing
subtracted is greater than what it is subtracted from (`pruneLoop_eq`). And as times do not
decrease, nothing of a later period has been dropped (`Holds.kept`).

Times are exact; the sums are natural numbers, and a subtraction below zero has no result.
-/

namespace SiestaVR.Abr

open Lib

/-- `DataPoint`. -/
structure DataPoint where
  flReport : Nat
  slReport : Nat
  deriving DecidableEq, Repr

/-- A report with its time. -/
abbrev LossReport := ℚ × DataPoint

/-- The frames lost according to some reports. -/
def flSum (reports : List LossReport) : Nat := (reports.map fun r => r.2.flReport).sum

/-- The shards lost according to some reports. -/
def slSum (reports : List LossReport) : Nat := (reports.map fun r => r.2.slReport).sum

/-- `TimedVecFLR`. -/
structure TimedVecFLR where
  vecData : List LossReport
  period : ℚ
  currentFlrSum : Nat
  currentSlSum : Nat
  deriving DecidableEq, Repr

namespace TimedVecFLR

/-- `TimedVecFLR::new`. -/
def new (period : ℚ) : TimedVecFLR := ⟨[], period, 0, 0⟩

/-- The loop of `prune_old`: what is left of the reports and of both sums. -/
def pruneLoop (cutoff : ℚ) : List LossReport → Nat → Nat → Option (List LossReport × Nat × Nat)
  | [], flrSum, slSum => some ([], flrSum, slSum)
  | (t, data) :: rest, flrSum, slSum =>
    if t < cutoff then
      if flrSum < data.flReport ∨ slSum < data.slReport then none
      else pruneLoop cutoff rest (flrSum - data.flReport) (slSum - data.slReport)
    else some ((t, data) :: rest, flrSum, slSum)

/-- `prune_old`. -/
def pruneOld (w : TimedVecFLR) (cutoff : ℚ) : Option TimedVecFLR :=
  (pruneLoop cutoff w.vecData w.currentFlrSum w.currentSlSum).map fun (vecData, flrSum, slSum) =>
    { w with vecData := vecData, currentFlrSum := flrSum, currentSlSum := slSum }

/-- `push_new`. -/
def pushNew (w : TimedVecFLR) (flReport slReport : Nat) (time : ℚ) : Option TimedVecFLR :=
  let pushed : TimedVecFLR := { w with
    vecData := w.vecData ++ [(time, ⟨flReport, slReport⟩)]
    currentFlrSum := w.currentFlrSum + flReport
    currentSlSum := w.currentSlSum + slReport }
  pushed.pruneOld (time - w.period)

/-- `sum_flr`. -/
def sumFlr (w : TimedVecFLR) (time : ℚ) : Option (Nat × TimedVecFLR) :=
  (w.pruneOld (time - w.period)).map fun w => (w.currentFlrSum, w)

/-- `sum_shard_loss`. -/
def sumShardLoss (w : TimedVecFLR) (time : ℚ) : Option (Nat × TimedVecFLR) :=
  (w.pruneOld (time - w.period)).map fun w => (w.currentSlSum, w)

/-- The calls of a window. -/
inductive Call
  | push (flReport slReport : Nat) (time : ℚ)
  | sumFlr (time : ℚ)
  | sumShardLoss (time : ℚ)
  deriving DecidableEq, Repr

/-- The time of a call. -/
def Call.time : Call → ℚ
  | push _ _ time => time
  | sumFlr time => time
  | sumShardLoss time => time

/-- The report that a call adds. -/
def Call.report : Call → List LossReport
  | push flReport slReport time => [(time, ⟨flReport, slReport⟩)]
  | sumFlr _ => []
  | sumShardLoss _ => []

/-- A call; what a query answers is left out. -/
def call (w : TimedVecFLR) : Call → Option TimedVecFLR
  | .push flReport slReport time => w.pushNew flReport slReport time
  | .sumFlr time => (w.sumFlr time).map Prod.snd
  | .sumShardLoss time => (w.sumShardLoss time).map Prod.snd

end TimedVecFLR

/-- All reports pushed by some calls. -/
def reported (calls : List TimedVecFLR.Call) : List LossReport :=
  calls.flatMap TimedVecFLR.Call.report

/-- Of some reports, those of the period that ends at `time`. -/
def inWindow (period time : ℚ) (reports : List LossReport) : List LossReport :=
  reports.filter (time - period ≤ ·.1)

/-! ## Pruning -/

@[simp] theorem flSum_cons (r : LossReport) (reports : List LossReport) :
    flSum (r :: reports) = r.2.flReport + flSum reports := by
  simp [flSum]

@[simp] theorem slSum_cons (r : LossReport) (reports : List LossReport) :
    slSum (r :: reports) = r.2.slReport + slSum reports := by
  simp [slSum]

/-- **Pruning** subtracts what it drops, so that exact sums stay exact and nothing is
subtracted below zero. -/
theorem pruneLoop_eq (cutoff : ℚ) (reports : List LossReport) :
    TimedVecFLR.pruneLoop cutoff reports (flSum reports) (slSum reports) =
      some (reports.dropWhile (·.1 < cutoff), flSum (reports.dropWhile (·.1 < cutoff)),
        slSum (reports.dropWhile (·.1 < cutoff))) := by
  induction reports with
  | nil => rfl
  | cons r reports ih =>
    obtain ⟨t, data⟩ := r
    by_cases ht : t < cutoff
    · have henough : ¬ (data.flReport + flSum reports < data.flReport ∨
          data.slReport + slSum reports < data.slReport) := by omega
      rw [TimedVecFLR.pruneLoop, if_pos ht, flSum_cons, slSum_cons, if_neg henough,
        Nat.add_sub_cancel_left, Nat.add_sub_cancel_left, ih,
        List.dropWhile_cons_of_pos (by simpa using ht)]
    · rw [TimedVecFLR.pruneLoop, if_neg ht, List.dropWhile_cons_of_neg (by simpa using ht)]

/-- A window whose sums are those of its reports. -/
structure TimedVecFLR.Exact (w : TimedVecFLR) : Prop where
  flr : w.currentFlrSum = flSum w.vecData
  sl : w.currentSlSum = slSum w.vecData

theorem TimedVecFLR.Exact.pruneOld {w : TimedVecFLR} (h : w.Exact)
    (hsorted : w.vecData.Pairwise fun a b => a.1 ≤ b.1) (cutoff : ℚ) :
    ∃ w', w.pruneOld cutoff = some w' ∧ w'.Exact ∧ w'.period = w.period ∧
      w'.vecData = w.vecData.filter (cutoff ≤ ·.1) := by
  refine ⟨⟨w.vecData.dropWhile (·.1 < cutoff), w.period,
    flSum (w.vecData.dropWhile (·.1 < cutoff)), slSum (w.vecData.dropWhile (·.1 < cutoff))⟩,
    ?_, ⟨rfl, rfl⟩, rfl, dropWhile_time_lt Prod.fst hsorted cutoff⟩
  rw [TimedVecFLR.pruneOld, h.flr, h.sl, pruneLoop_eq]
  rfl

/-! ## Runs -/

/-- A window after the calls that pushed `reports`, the last of them not after `now`. -/
structure Holds (period : ℚ) (reports : List LossReport) (now : ℚ) (w : TimedVecFLR) : Prop where
  exact : w.Exact
  samePeriod : w.period = period
  sublist : w.vecData.Sublist reports
  /-- Nothing of a later period has been dropped. -/
  kept : ∀ t, now ≤ t → inWindow period t w.vecData = inWindow period t reports

section Steps

variable {period now time : ℚ} {reports : List LossReport} {w : TimedVecFLR}

theorem Holds.later (h : Holds period reports now w) (hle : now ≤ time) :
    Holds period reports time w :=
  { h with kept := fun t ht => h.kept t (hle.trans ht) }

theorem Holds.add (h : Holds period reports now w) (flReport slReport : Nat) :
    Holds period (reports ++ [(now, ⟨flReport, slReport⟩)]) now
      { w with
        vecData := w.vecData ++ [(now, ⟨flReport, slReport⟩)]
        currentFlrSum := w.currentFlrSum + flReport
        currentSlSum := w.currentSlSum + slReport } where
  exact := ⟨by simp [h.exact.flr, flSum], by simp [h.exact.sl, slSum]⟩
  samePeriod := h.samePeriod
  sublist := h.sublist.append_right _
  kept t ht := by
    have hkept := h.kept t ht
    unfold inWindow at hkept ⊢
    rw [List.filter_append, List.filter_append, hkept]

/-- **Pruning** at the present time leaves the reports of the present period. -/
theorem Holds.prune (h : Holds period reports now w)
    (hsorted : reports.Pairwise fun a b => a.1 ≤ b.1) :
    ∃ w', w.pruneOld (now - w.period) = some w' ∧ Holds period reports now w' ∧
      w'.vecData = inWindow period now reports := by
  obtain ⟨w', hprune, hexact, hperiod, hdata⟩ :=
    h.exact.pruneOld (hsorted.sublist h.sublist) (now - w.period)
  rw [h.samePeriod] at hdata
  have hwindow : w'.vecData = inWindow period now reports := by
    rw [hdata]
    exact h.kept now le_rfl
  refine ⟨w', hprune, ⟨hexact, hperiod.trans h.samePeriod, ?_, ?_⟩, hwindow⟩
  · rw [hwindow]
    exact List.filter_sublist
  · intro t ht
    rw [hwindow]
    exact filter_time_filter Prod.fst (sub_le_sub_right ht period) reports

/-- **One call**, not before the last one. -/
theorem Holds.call (h : Holds period reports now w) {c : TimedVecFLR.Call} (hle : now ≤ c.time)
    (hsorted : (reports ++ c.report).Pairwise fun a b => a.1 ≤ b.1) :
    ∃ w', w.call c = some w' ∧ Holds period (reports ++ c.report) c.time w' := by
  cases c with
  | push flReport slReport time =>
    obtain ⟨w', hprune, hholds, -⟩ := ((h.later hle).add flReport slReport).prune hsorted
    exact ⟨w', hprune, hholds⟩
  | sumFlr time =>
    rw [TimedVecFLR.Call.report, List.append_nil] at hsorted ⊢
    obtain ⟨w', hprune, hholds, -⟩ := (h.later hle).prune hsorted
    refine ⟨w', ?_, hholds⟩
    show (Option.map _ (w.pruneOld (TimedVecFLR.Call.time (.sumFlr time) - w.period))).map
      Prod.snd = some w'
    rw [hprune]
    rfl
  | sumShardLoss time =>
    rw [TimedVecFLR.Call.report, List.append_nil] at hsorted ⊢
    obtain ⟨w', hprune, hholds, -⟩ := (h.later hle).prune hsorted
    refine ⟨w', ?_, hholds⟩
    show (Option.map _ (w.pruneOld (TimedVecFLR.Call.time (.sumShardLoss time) - w.period))).map
      Prod.snd = some w'
    rw [hprune]
    rfl

end Steps

theorem time_of_mem_reported {calls : List TimedVecFLR.Call} {r : LossReport}
    (h : r ∈ reported calls) : ∃ c ∈ calls, r.1 = c.time := by
  obtain ⟨c, hc, hr⟩ := List.mem_flatMap.1 h
  refine ⟨c, hc, ?_⟩
  cases c with
  | push flReport slReport time =>
    rw [List.mem_singleton.1 hr]
    rfl
  | sumFlr time => exact absurd hr List.not_mem_nil
  | sumShardLoss time => exact absurd hr List.not_mem_nil

theorem reported_sorted {calls : List TimedVecFLR.Call}
    (h : (calls.map TimedVecFLR.Call.time).Pairwise (· ≤ ·)) :
    (reported calls).Pairwise fun a b => a.1 ≤ b.1 := by
  induction calls with
  | nil => exact .nil
  | cons c calls ih =>
    obtain ⟨hfirst, hrest⟩ := List.pairwise_cons.1 h
    refine List.pairwise_append.2 ⟨?_, ih hrest, ?_⟩
    · cases c with
      | push flReport slReport time => exact List.pairwise_singleton _ _
      | sumFlr time => exact .nil
      | sumShardLoss time => exact .nil
    · intro a ha b hb
      obtain ⟨c', hc', hac⟩ := time_of_mem_reported
        (show a ∈ reported [c] by simpa [reported] using ha)
      obtain ⟨d, hd, hbd⟩ := time_of_mem_reported hb
      rw [hac, hbd, List.mem_singleton.1 hc']
      exact hfirst d.time (List.mem_map_of_mem hd)

/-- **All calls**, by induction from the last one. -/
theorem holds_runs (period : ℚ) {calls : List TimedVecFLR.Call}
    (h : (calls.map TimedVecFLR.Call.time).Pairwise (· ≤ ·)) {now : ℚ}
    (hnow : ∀ c ∈ calls, c.time ≤ now) :
    ∃ w, runs TimedVecFLR.call (.new period) calls = some w ∧
      Holds period (reported calls) now w := by
  induction calls using List.reverseRecOn generalizing now with
  | nil => exact ⟨_, rfl, ⟨rfl, rfl⟩, rfl, .refl _, fun _ _ => rfl⟩
  | append_singleton calls c ih =>
    have hsorted := reported_sorted h
    rw [List.map_append] at h
    obtain ⟨hbefore, -, hlast⟩ := List.pairwise_append.1 h
    have hbound : ∀ d ∈ calls, d.time ≤ c.time := fun d hd =>
      hlast d.time (List.mem_map_of_mem hd) c.time List.mem_cons_self
    obtain ⟨w, hruns, hw⟩ := ih hbefore hbound
    have happend : reported (calls ++ [c]) = reported calls ++ c.report := by
      simp [reported]
    rw [happend] at hsorted ⊢
    obtain ⟨w', hcall, hw'⟩ := hw.call le_rfl hsorted
    refine ⟨w', ?_, hw'.later (hnow c (by simp))⟩
    rw [runs_append, hruns, Option.bind_some, runs, hcall]
    rfl

/-- For every period and every sequence of pushes and queries at times that do not decrease,
no subtraction goes below zero, the cached sums are the sums of the reports that are stored,
and a query at the end, at any time from then on, answers the total of all reports pushed
whose time is not before the period that ends with the query. -/
theorem loss_window_exact (period : ℚ) (calls : List TimedVecFLR.Call)
    (h : (calls.map TimedVecFLR.Call.time).Pairwise (· ≤ ·)) :
    ∃ w, runs TimedVecFLR.call (.new period) calls = some w ∧
      w.currentFlrSum = flSum w.vecData ∧ w.currentSlSum = slSum w.vecData ∧
      ∀ time, (∀ c ∈ calls, c.time ≤ time) →
        (w.sumFlr time).map Prod.fst
          = some (flSum ((reported calls).filter (time - period ≤ ·.1))) ∧
        (w.sumShardLoss time).map Prod.fst
          = some (slSum ((reported calls).filter (time - period ≤ ·.1))) := by
  have hlast : ∃ now, ∀ c ∈ calls, c.time ≤ now := by
    cases hend : calls.getLast? with
    | none => exact ⟨0, by simp [List.getLast?_eq_none_iff.1 hend]⟩
    | some last =>
      obtain ⟨before, rfl⟩ := List.getLast?_eq_some_iff.1 hend
      refine ⟨last.time, fun c hc => ?_⟩
      rcases List.mem_append.1 hc with hc | hc
      · rw [List.map_append] at h
        exact (List.pairwise_append.1 h).2.2 c.time (List.mem_map_of_mem hc) last.time
          List.mem_cons_self
      · rw [List.mem_singleton.1 hc]
  obtain ⟨now, hnow⟩ := hlast
  obtain ⟨w, hruns, hw⟩ := holds_runs period h hnow
  refine ⟨w, hruns, hw.exact.flr, hw.exact.sl, ?_⟩
  intro time htime
  -- the window is the same whatever bound on the times the induction was given
  obtain ⟨w₁, hruns₁, hw₁⟩ := holds_runs period h htime
  obtain rfl : w = w₁ := Option.some.inj (hruns.symm.trans hruns₁)
  obtain ⟨w', hprune, hholds, hdata⟩ := hw₁.prune (reported_sorted h)
  rw [TimedVecFLR.sumFlr, TimedVecFLR.sumShardLoss, hprune]
  refine ⟨congrArg some ?_, congrArg some ?_⟩
  · show w'.currentFlrSum = _
    rw [hholds.exact.flr, hdata]
    rfl
  · show w'.currentSlSum = _
    rw [hholds.exact.sl, hdata]
    rfl

/-- Three reports, of which the first has left the period of one second at the query. -/
theorem loss_window_exact_small :
    ([TimedVecFLR.Call.push 1 4 0, .push 2 5 (1 / 2), .sumFlr 1, .push 3 6 (5 / 4)].map
      TimedVecFLR.Call.time).Pairwise (· ≤ ·) ∧
    ∃ w, runs TimedVecFLR.call (.new 1)
        [.push 1 4 0, .push 2 5 (1 / 2), .sumFlr 1, .push 3 6 (5 / 4)] = some w ∧
      w.currentFlrSum = flSum w.vecData ∧ w.currentSlSum = slSum w.vecData ∧
      ∀ time, (∀ c ∈ [TimedVecFLR.Call.push 1 4 0, .push 2 5 (1 / 2), .sumFlr 1,
          .push 3 6 (5 / 4)], c.time ≤ time) →
        (w.sumFlr time).map Prod.fst = some (flSum ((reported [.push 1 4 0, .push 2 5 (1 / 2),
          .sumFlr 1, .push 3 6 (5 / 4)]).filter (time - 1 ≤ ·.1))) ∧
        (w.sumShardLoss time).map Prod.fst = some (slSum ((reported [.push 1 4 0,
          .push 2 5 (1 / 2), .sumFlr 1, .push 3 6 (5 / 4)]).filter (time - 1 ≤ ·.1))) :=
  ⟨by decide +kernel, loss_window_exact 1
    [.push 1 4 0, .push 2 5 (1 / 2), .sumFlr 1, .push 3 6 (5 / 4)] (by decide +kernel)⟩

end SiestaVR.Abr
