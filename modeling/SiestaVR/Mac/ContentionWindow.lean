import SiestaVR.Mac.Dcf
import SiestaVR.Lib.Runs
import Mathlib.Algebra.Order.Ring.Nat

/-!
# The contention window under repeated failures (lib/models_mm1k.rs:2092–2161)

A contention function doubles its window with every failure, never beyond `cw_max`, and
starts over after a success or when it gives up. After `r` failures in a row the window is
`2 ^ r * (cw_min + 1) - 1`, cut off at `cw_max`: once it has been cut off it is no longer
one less than a power of two, but neither is what it is compared with, because doubling goes
on above `cw_max` (`cutWindow_succ`).

The integers of the source have 8 and 32 bits; `onFailureChecked` has no result where they
overflow.
-/

namespace SiestaVR.Mac

open Lib

/-- The window after `r` failures in a row. -/
def cutWindow (p : EdcaParam) (r : Nat) : Nat := min (2 ^ r * (p.cwMin + 1) - 1) p.cwMax

theorem cutWindow_zero {p : EdcaParam} (h : p.cwMin ≤ p.cwMax) : cutWindow p 0 = p.cwMin := by
  rw [cutWindow, pow_zero, one_mul, Nat.add_sub_cancel]
  exact min_eq_left h

/-- **Doubling** and cutting off again is one more doubling, cut off once. -/
theorem cutWindow_succ (p : EdcaParam) (r : Nat) :
    min ((cutWindow p r + 1) * 2 - 1) p.cwMax = cutWindow p (r + 1) := by
  have hpos : 0 < 2 ^ r * (p.cwMin + 1) := Nat.mul_pos (Nat.two_pow_pos r) p.cwMin.succ_pos
  have hdouble : 2 ^ (r + 1) * (p.cwMin + 1) = 2 ^ r * (p.cwMin + 1) * 2 := by
    rw [pow_succ, Nat.mul_right_comm]
  rw [cutWindow, cutWindow, hdouble]
  generalize 2 ^ r * (p.cwMin + 1) = w at hpos
  omega

namespace DcfStats

/-- What `DcfStats::new` builds, for any parameter set. -/
def fresh (p : EdcaParam) (draws : Nat → Nat) : DcfStats :=
  let drawn := draws 0 % (p.cwMin + 1)
  { cw := p.cwMin, backoffCounter := drawn, retryCount := 0, param := p,
    rng := (DrawStream.fresh draws).skip 1, lastBackoffDrawnLogs := drawn }

/-- `on_failure`, with the widths of its integers: no result when `retry_count` exceeds
8 bits or the doubled window 32 bits. -/
def onFailureChecked (st : DcfStats) : Option (Bool × DcfStats) :=
  if 2 ^ 8 ≤ st.retryCount + 1 then none
  else if maxRetriesMac < st.retryCount + 1 then some st.onFailure
  else if 2 ^ 32 ≤ (st.cw + 1) * 2 then none
  else some st.onFailure

/-- The calls a contention function gets. -/
inductive Call
  | success
  | failure
  deriving DecidableEq, Repr

/-- A call. Every caller of `on_success` passes the function's own `cw_min`. -/
def call (st : DcfStats) : Call → Option DcfStats
  | .success => some (st.onSuccess st.param.cwMin)
  | .failure => st.onFailureChecked.map Prod.snd

/-- What holds of a contention function with parameters `p` between any two calls. -/
structure Contends (p : EdcaParam) (st : DcfStats) : Prop where
  param : st.param = p
  window : st.cw = cutWindow p st.retryCount
  retries : st.retryCount ≤ maxRetriesMac
  counter : st.backoffCounter ≤ st.cw
  drawn : st.lastBackoffDrawnLogs ≤ st.cw

variable {p : EdcaParam} {st : DcfStats}

theorem Contends.of_reload (hparam : st.param = p) (hwindow : st.cw = cutWindow p st.retryCount)
    (hretries : st.retryCount ≤ maxRetriesMac) : Contends p st.reloadBackoff where
  param := hparam
  window := hwindow
  retries := hretries
  counter := Nat.le_of_lt_succ (Nat.mod_lt _ st.cw.succ_pos)
  drawn := Nat.le_of_lt_succ (Nat.mod_lt _ st.cw.succ_pos)

theorem Contends.restart (hle : p.cwMin ≤ p.cwMax) (h : Contends p st) :
    Contends p ({ st with cw := p.cwMin, retryCount := 0 } : DcfStats).reloadBackoff :=
  .of_reload h.param (cutWindow_zero hle).symm (Nat.zero_le _)

theorem Contends.fresh (hle : p.cwMin ≤ p.cwMax) (draws : Nat → Nat) :
    Contends p (fresh p draws) where
  param := rfl
  window := (cutWindow_zero hle).symm
  retries := Nat.zero_le _
  counter := Nat.le_of_lt_succ (Nat.mod_lt _ p.cwMin.succ_pos)
  drawn := Nat.le_of_lt_succ (Nat.mod_lt _ p.cwMin.succ_pos)

theorem Contends.onFailure (hle : p.cwMin ≤ p.cwMax) (h : Contends p st) :
    Contends p st.onFailure.2 := by
  obtain ⟨rfl, hwindow, hretries, -, -⟩ := h
  unfold DcfStats.onFailure
  dsimp only
  split
  · exact .of_reload rfl (cutWindow_zero hle).symm (Nat.zero_le _)
  · rename_i hkeep
    refine .of_reload rfl ?_ (not_lt.1 hkeep)
    -- the comparison with `cw_max` takes the smaller of the two
    show (if _ then _ else _) = cutWindow st.param (st.retryCount + 1)
    rw [← cutWindow_succ, ← hwindow]
    split <;> omega

/-- A call is answered, unless the window it doubles is too wide. -/
theorem Contends.call (hle : p.cwMin ≤ p.cwMax)
    (hfit : ∀ r < maxRetriesMac, (cutWindow p r + 1) * 2 < 2 ^ 32) (h : Contends p st) (c : Call) :
    ∃ st', st.call c = some st' ∧ Contends p st' := by
  cases c with
  | success =>
    refine ⟨_, rfl, ?_⟩
    rw [h.param]
    exact h.restart hle
  | failure =>
    refine ⟨st.onFailure.2, ?_, h.onFailure hle⟩
    have hretries := h.retries
    have hbyte : ¬ 2 ^ 8 ≤ st.retryCount + 1 := by
      unfold maxRetriesMac at hretries
      omega
    have hchecked : st.onFailureChecked = some st.onFailure := by
      rw [onFailureChecked, if_neg hbyte]
      split
      · rfl
      · rename_i hkeep
        have hroom := hfit st.retryCount (not_lt.1 hkeep)
        rw [← h.window] at hroom
        exact if_neg (not_le.2 hroom)
    show st.onFailureChecked.map Prod.snd = _
    rw [hchecked]
    rfl

end DcfStats

/-- For every parameter set whose doublings fit in 32 bits, all random draws and every
sequence of successes and failures, all calls are answered; the window is the one that the
failures in a row say, they never exceed the retry limit, and what was drawn lies in the
window. -/
theorem contention_window_closed_form (p : EdcaParam) (hle : p.cwMin ≤ p.cwMax)
    (hfit : ∀ r < maxRetriesMac, (min (2 ^ r * (p.cwMin + 1) - 1) p.cwMax + 1) * 2 < 2 ^ 32)
    (draws : Nat → Nat) (calls : List DcfStats.Call) :
    ∃ st, runs DcfStats.call (DcfStats.fresh p draws) calls = some st ∧
      st.cw = min (2 ^ st.retryCount * (p.cwMin + 1) - 1) p.cwMax ∧
      st.retryCount ≤ maxRetriesMac ∧
      st.backoffCounter ≤ st.cw ∧ st.lastBackoffDrawnLogs ≤ st.cw := by
  obtain ⟨st, hruns, h⟩ := exists_runs (P := fun _ st => DcfStats.Contends p st)
    (.fresh hle draws) (fun _ st c h _ => h.call hle hfit c)
    (allOk_true DcfStats.call (DcfStats.fresh p draws) calls)
  exact ⟨st, hruns, h.window, h.retries, h.counter, h.drawn⟩

/-- Every category of the table meets the conditions, and voice is cut off at its second
failure. -/
theorem contention_window_voice :
    (∀ ac, (edcaTable ac).cwMin ≤ (edcaTable ac).cwMax ∧ ∀ r < maxRetriesMac,
      (min (2 ^ r * ((edcaTable ac).cwMin + 1) - 1) (edcaTable ac).cwMax + 1) * 2 < 2 ^ 32) ∧
    ∃ st, runs DcfStats.call (DcfStats.fresh (edcaTable .voice) fun n => n)
        [.failure, .failure, .success, .failure] = some st ∧
      st.cw = min (2 ^ st.retryCount * (3 + 1) - 1) 7 ∧ st.retryCount ≤ maxRetriesMac ∧
      st.backoffCounter ≤ st.cw ∧ st.lastBackoffDrawnLogs ≤ st.cw := by
  have hall : ∀ ac, (edcaTable ac).cwMin ≤ (edcaTable ac).cwMax ∧ ∀ r < maxRetriesMac,
      (min (2 ^ r * ((edcaTable ac).cwMin + 1) - 1) (edcaTable ac).cwMax + 1) * 2 < 2 ^ 32 := by
    intro ac
    cases ac <;> decide
  exact ⟨hall, contention_window_closed_form (edcaTable .voice) (hall .voice).1 (hall .voice).2
    (fun n => n) [.failure, .failure, .success, .failure]⟩

end SiestaVR.Mac
