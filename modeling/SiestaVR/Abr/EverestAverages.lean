import SiestaVR.Lib.RunningValues
import SiestaVR.Abr.PerFrame

/-!
# The averages of EVeREst (lib/models_XR.rs:2075–2084, 2179–2210, 2460–2484)

EVeREst keeps a moving average of the capacity and one of the throughput. A report brings a
sample of one of them; the sample enters with the time since the last one of its kind, divided
by `T_USER_WIN`. The pass derives the number of users and a capacity margin from the averages.

The weight is not limited to one. A gap of more than five seconds makes the weight of the old
average negative, and after a reset the gap is measured from the epoch. With shorter gaps
(`GapShort`) the averages stay between zero and the samples since the last reset
(`everest_averages_within`).
-/

namespace SiestaVR.Abr

open Lib Emu

variable {fns : MathFns} {cfg : AbrConfig} {s s' : AbrServer} {m m' : BitrateManager}
  {e : Nat × AbrEvent}

/-! ## What is derived from the averages -/

namespace BitrateManager

/-- `n_users`. -/
def everestNUsers (m : BitrateManager) : Nat :=
  ⌈m.everestCapacityEwma / m.everestThroughputEwma⌉.toNat

/-- `capacity_margin_bps`. -/
def everestCapacityMarginBps (m : BitrateManager) : ℚ :=
  m.everestCapacityEwma / (m.everestNUsers + 1)

/-- If the averages are not negative, the users are counted and the margin is what is left for
one more: not above the throughput of one. -/
theorem everestCapacityMarginBps_mem (hcapacity : 0 ≤ m.everestCapacityEwma)
    (hthroughput : 0 < m.everestThroughputEwma) :
    (m.everestNUsers : ℤ) = ⌈m.everestCapacityEwma / m.everestThroughputEwma⌉ ∧
      0 ≤ m.everestCapacityMarginBps ∧ m.everestCapacityMarginBps ≤ m.everestThroughputEwma := by
  have hratio : 0 ≤ m.everestCapacityEwma / m.everestThroughputEwma :=
    div_nonneg hcapacity hthroughput.le
  have husers : (m.everestNUsers : ℤ) = ⌈m.everestCapacityEwma / m.everestThroughputEwma⌉ :=
    Int.toNat_of_nonneg (Int.ceil_nonneg hratio)
  have hpos : (0 : ℚ) < m.everestNUsers + 1 := by positivity
  refine ⟨husers, div_nonneg hcapacity hpos.le, ?_⟩
  have hceil : m.everestCapacityEwma / m.everestThroughputEwma ≤ m.everestNUsers := by
    have hle := Int.le_ceil (m.everestCapacityEwma / m.everestThroughputEwma)
    rw [← husers] at hle
    exact_mod_cast hle
  rw [everestCapacityMarginBps, div_le_iff₀ hpos]
  calc m.everestCapacityEwma
      = m.everestThroughputEwma * (m.everestCapacityEwma / m.everestThroughputEwma) :=
        (mul_div_cancel₀ _ hthroughput.ne').symm
    _ ≤ m.everestThroughputEwma * (m.everestNUsers + 1) :=
        mul_le_mul_of_nonneg_left (hceil.trans (by linarith)) hthroughput.le

/-! ## What changes the averages -/

/-- What concerns the averages. -/
def averages (m : BitrateManager) : (ℚ × Nat) × (ℚ × Nat) :=
  ((m.everestCapacityEwma, m.everestTimeLastCapacityUpdate),
    (m.everestThroughputEwma, m.everestTimeLastThroughputUpdate))

theorem Retargeted.averages (h : m.Retargeted m') : m'.averages = m.averages := by
  obtain ⟨_, _, _, _, _, rfl⟩ := h
  rfl

/-- What a sample, if it is positive, makes of an average and its time. -/
def averageAfter (average : ℚ × Nat) (sample : ℚ) (now : Nat) : ℚ × Nat :=
  if 0 < sample then (blend (secs (now - average.2) / 5) sample average.1, now) else average

theorem averages_reportNetworkStatisticsAbr (fns : MathFns) (m : BitrateManager)
    (stats : NetworkStatistics) (now sendInstant : Nat) :
    (m.reportNetworkStatisticsAbr fns stats now sendInstant).averages =
      (averageAfter m.averages.1 stats.everestCapacityUpdate now,
        averageAfter m.averages.2 stats.everestThroughputUpdate now) := by
  simp only [reportNetworkStatisticsAbr, submitEverest, averageAfter]
  split_ifs <;> rfl

end BitrateManager

/-- What an event makes of the averages. -/
def averagesAfter (m : BitrateManager) (e : Nat × AbrEvent) : (ℚ × Nat) × (ℚ × Nat) :=
  match e.2 with
  | .statistics packet =>
    (BitrateManager.averageAfter m.averages.1 packet.everestCapacityUpdate e.1,
      BitrateManager.averageAfter m.averages.2 packet.everestThroughputUpdate e.1)
  | .sessionEnd => ((0, 0), (0, 0))
  | _ => m.averages

theorem AbrServer.step_averages (h : s.step fns cfg e = some s') :
    s'.bitrateManager.averages = averagesAfter s.bitrateManager e := by
  obtain ⟨now, event⟩ := e
  cases event with
  | statistics packet =>
    rw [AbrServer.step_statistics h]
    simp only [AbrServer.handleNetworkStatistics]
    split <;> exact BitrateManager.averages_reportNetworkStatisticsAbr fns _ _ now _
  | timerReport report =>
    rw [AbrServer.step_timerReport h]
    split_ifs
    · obtain ⟨rate, heq⟩ := AbrServer.nadaTimerReport_eq { s with now := now } report
      rw [heq]
      rfl
    · rfl
  | sessionEnd =>
    rw [AbrServer.step_sessionEnd h]
    rfl
  | _ => exact (AbrServer.step_retargets h rfl).1.averages

/-! ## Samples -/

/-- The samples with one more, if it is positive. -/
def sampled (samples : List ℚ) (sample : ℚ) : List ℚ :=
  if 0 < sample then samples ++ [sample] else samples

/-- The samples of capacity and of throughput since the last reset, after an event. -/
def noteSamples (samples : List ℚ × List ℚ) (e : Nat × AbrEvent) : List ℚ × List ℚ :=
  match e.2 with
  | .statistics packet =>
    (sampled samples.1 packet.everestCapacityUpdate,
      sampled samples.2 packet.everestThroughputUpdate)
  | .sessionEnd => ([], [])
  | _ => samples

/-- The samples of capacity and of throughput since the last reset. -/
def samplesOf (es : List (Nat × AbrEvent)) : List ℚ × List ℚ := es.foldl noteSamples ([], [])

theorem samplesOf_snoc (es : List (Nat × AbrEvent)) (e : Nat × AbrEvent) :
    samplesOf (es ++ [e]) = noteSamples (samplesOf es) e :=
  List.foldl_append

/-- `T_USER_WIN`, in nanoseconds. -/
def tUserWin : Nat := 5000000000

/-- A positive sample comes within five seconds of the last one of its kind; of the epoch, if it
is the first since a reset. -/
def GapShort (s : AbrServer) (e : Nat × AbrEvent) : Prop :=
  match e.2 with
  | .statistics packet =>
    (0 < packet.everestCapacityUpdate →
      e.1 - s.bitrateManager.everestTimeLastCapacityUpdate ≤ tUserWin) ∧
    (0 < packet.everestThroughputUpdate →
      e.1 - s.bitrateManager.everestTimeLastThroughputUpdate ≤ tUserWin)
  | _ => True

instance (s : AbrServer) : ∀ e, Decidable (GapShort s e)
  | (_, .statistics _) => inferInstanceAs (Decidable ((_ → _) ∧ (_ → _)))
  | (_, .frame _ _) | (_, .timerReport _) | (_, .oracleBandwidthStep) |
    (_, .oracleApplyLookaheadCap _) | (_, .sessionEnd) => .isTrue trivial

/-- The average starts from zero, and stays within zero and the samples, which are positive. -/
def Averaged (samples : List ℚ) (average : ℚ) : Prop :=
  (∀ x ∈ samples, 0 < x) ∧ Within (0 :: samples) average

theorem averaged_nil : Averaged [] 0 := ⟨nofun, within_singleton 0⟩

namespace Averaged

variable {samples : List ℚ} {average : ℚ × Nat}

theorem nonneg {x : ℚ} (h : Averaged samples x) : 0 ≤ x := by
  obtain ⟨hpos, ⟨lo, hlo, hle⟩, -⟩ := h
  rcases List.mem_cons.1 hlo with rfl | hlo
  · exact hle
  · exact (hpos lo hlo).le.trans hle

theorem le_sample {x : ℚ} (h : Averaged samples x) (hne : samples ≠ []) :
    ∃ hi ∈ samples, x ≤ hi := by
  obtain ⟨hpos, -, hi, hhi, hle⟩ := h
  rcases List.mem_cons.1 hhi with rfl | hhi
  · -- an average that is not positive is below every sample
    obtain ⟨y, hy⟩ := List.exists_mem_of_ne_nil samples hne
    exact ⟨y, hy, hle.trans (hpos y hy).le⟩
  · exact ⟨hi, hhi, hle⟩

theorem averageAfter (h : Averaged samples average.1) {sample : ℚ} {now : Nat}
    (hgap : 0 < sample → now - average.2 ≤ tUserWin) :
    Averaged (sampled samples sample) (BitrateManager.averageAfter average sample now).1 := by
  unfold sampled BitrateManager.averageAfter
  split_ifs with hsample
  · have hweight : secs (now - average.2) / 5 ≤ 1 := by
      have hcast : ((now - average.2 : Nat) : ℚ) ≤ 5000000000 := by exact_mod_cast hgap hsample
      simp only [secs]
      linarith
    have hnonneg : 0 ≤ secs (now - average.2) / 5 :=
      div_nonneg (div_nonneg (Nat.cast_nonneg _) (by norm_num)) (by norm_num)
    refine ⟨fun x hx => ?_, h.2.blend hnonneg hweight sample⟩
    rcases List.mem_append.1 hx with hx | hx
    · exact h.1 x hx
    · rw [List.mem_singleton.1 hx]
      exact hsample
  · exact h

end Averaged

/-- **Step**: both averages stay within their samples. -/
theorem averaged_step {samples : List ℚ × List ℚ}
    (hcapacity : Averaged samples.1 s.bitrateManager.averages.1.1)
    (hthroughput : Averaged samples.2 s.bitrateManager.averages.2.1) (hgap : GapShort s e)
    (h : s.step fns cfg e = some s') :
    Averaged (noteSamples samples e).1 s'.bitrateManager.averages.1.1 ∧
      Averaged (noteSamples samples e).2 s'.bitrateManager.averages.2.1 := by
  rw [AbrServer.step_averages h]
  obtain ⟨now, event⟩ := e
  cases event with
  | statistics packet => exact ⟨hcapacity.averageAfter hgap.1, hthroughput.averageAfter hgap.2⟩
  | sessionEnd => exact ⟨averaged_nil, averaged_nil⟩
  | _ => exact ⟨hcapacity, hthroughput⟩

/-- **The averages of EVeREst stay within zero and the samples** since the last reset, in every
run without a long gap, and what is derived from them is meaningful. -/
theorem everest_averages_within (fns : MathFns) (cfg : AbrConfig) {es : List (Nat × AbrEvent)}
    (h : Run (AbrServer.step fns cfg) GapShort (.new cfg) es s) :
    let m := s.bitrateManager
    (0 ≤ m.everestCapacityEwma ∧
      ((samplesOf es).1 ≠ [] → ∃ hi ∈ (samplesOf es).1, m.everestCapacityEwma ≤ hi)) ∧
    (0 ≤ m.everestThroughputEwma ∧
      ((samplesOf es).2 ≠ [] → ∃ hi ∈ (samplesOf es).2, m.everestThroughputEwma ≤ hi)) ∧
    (0 < m.everestThroughputEwma →
      (m.everestNUsers : ℤ) = ⌈m.everestCapacityEwma / m.everestThroughputEwma⌉ ∧
      0 ≤ m.everestCapacityMarginBps ∧
      m.everestCapacityMarginBps ≤ m.everestThroughputEwma) := by
  obtain ⟨hcapacity, hthroughput⟩ : Averaged (samplesOf es).1 s.bitrateManager.averages.1.1 ∧
      Averaged (samplesOf es).2 s.bitrateManager.averages.2.1 := by
    refine h.invariant (P := fun es s => Averaged (samplesOf es).1 s.bitrateManager.averages.1.1 ∧
      Averaged (samplesOf es).2 s.bitrateManager.averages.2.1) ?_ ?_
    · exact ⟨averaged_nil, averaged_nil⟩
    · rintro es s e s' ⟨hcapacity, hthroughput⟩ hgap hs'
      rw [samplesOf_snoc]
      exact averaged_step hcapacity hthroughput hgap hs'
  exact ⟨⟨hcapacity.nonneg, hcapacity.le_sample⟩, ⟨hthroughput.nonneg, hthroughput.le_sample⟩,
    fun hpos => BitrateManager.everestCapacityMarginBps_mem hcapacity.nonneg hpos⟩

/-- A report with a sample of the capacity and one of the throughput, in Mbit/s. -/
def averagesReport (now : Nat) (capacity throughput : ℚ) : Nat × AbrEvent :=
  (now, .statistics
    { sendInstant := now - 5000000, peakThroughputBps := 300000000, frameInterarrivalS := 1 / 90
      bytesInFrame := 100000, everestCapacityUpdate := capacity * 1000000
      everestThroughputUpdate := throughput * 1000000, everestCommand := .continue
      nadaFeedback := none })

/-- Samples of 50 and 20 Mbit/s after four seconds, and of 20 and 10 two seconds later. -/
def twoReports : List (Nat × AbrEvent) :=
  [averagesReport 4000000000 50 20, averagesReport 6000000000 20 10]

/-- The averages are 32 and 13.6 Mbit/s, as for three users. -/
theorem everest_averages_within_two_samples :
    ∃ s, Run (AbrServer.step squareRoots (behindWideLink 2)) GapShort (.new (behindWideLink 2))
        twoReports s ∧ s.bitrateManager.averages.1.1 = 32000000 ∧
      s.bitrateManager.averages.2.1 = 13600000 ∧
      (∃ hi ∈ [(50000000 : ℚ), 20000000], s.bitrateManager.everestCapacityEwma ≤ hi) ∧
      (∃ hi ∈ [(20000000 : ℚ), 10000000], s.bitrateManager.everestThroughputEwma ≤ hi) ∧
      s.bitrateManager.everestNUsers = 3 := by
  have hok : allOk (AbrServer.step squareRoots (behindWideLink 2)) GapShort
      (.new (behindWideLink 2)) twoReports := by decide +kernel
  have haverages : (runs (AbrServer.step squareRoots (behindWideLink 2))
      (.new (behindWideLink 2)) twoReports).map (fun s => (s.bitrateManager.averages.1.1,
        s.bitrateManager.averages.2.1)) = some (32000000, 13600000) := by decide +kernel
  obtain ⟨s, hs, heq⟩ := Option.map_eq_some_iff.1 haverages
  obtain ⟨hcapacity, hthroughput⟩ := Prod.mk.inj heq
  have hrun := Run.of_runs hok hs
  have hsamples : samplesOf twoReports = ([50000000, 20000000], [20000000, 10000000]) := by
    decide +kernel
  obtain ⟨hcap, hthr, husers⟩ := everest_averages_within squareRoots (behindWideLink 2) hrun
  rw [hsamples] at hcap hthr
  refine ⟨s, hrun, hcapacity, hthroughput, hcap.2 (by simp), hthr.2 (by simp), ?_⟩
  have hcapacity : s.bitrateManager.everestCapacityEwma = 32000000 := hcapacity
  have hthroughput : s.bitrateManager.everestThroughputEwma = 13600000 := hthroughput
  have hceil := (husers (by rw [hthroughput]; norm_num)).1
  rw [hcapacity, hthroughput, show ⌈(32000000 / 13600000 : ℚ)⌉ = 3 by decide +kernel] at hceil
  exact_mod_cast hceil

/-- After ten seconds the first sample, of 50 Mbit/s, makes an average of 100 Mbit/s. -/
theorem everest_average_above_samples :
    ∃ s, Run (AbrServer.step squareRoots (behindWideLink 2)) (fun _ _ => True)
        (.new (behindWideLink 2)) [averagesReport 10000000000 50 (-1)] s ∧
      s.bitrateManager.everestCapacityEwma = 100000000 ∧
      ∀ x ∈ (samplesOf [averagesReport 10000000000 50 (-1)]).1, x < 100000000 := by
  obtain ⟨s, hrun, hewma⟩ : ∃ s, Run (AbrServer.step squareRoots (behindWideLink 2))
      (fun _ _ => True) (.new (behindWideLink 2)) [averagesReport 10000000000 50 (-1)] s ∧
      s.bitrateManager.everestCapacityEwma = 100000000 := exists_run_of_map (by decide +kernel)
  exact ⟨s, hrun, hewma, by decide +kernel⟩

end SiestaVR.Abr
