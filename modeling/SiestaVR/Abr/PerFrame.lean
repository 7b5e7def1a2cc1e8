import SiestaVR.Abr.Control

/-!
# Passes at frames (lib/models_XR.rs:4523–4615)

What a frame does to the target, in the modes without a stats timeout: a pass is done if
`t_update_abr` has elapsed since the last update, and the frame is encoded at the target.

The source has a second branch, in which EVeREst, GCC and the oracle "are applied per-frame",
without regard to the interval. It is never taken: the test before it asks whether the mode is
not EVeREst, or not GCC, or not the oracle, and every mode is not two of the three. So these
modes are applied at the interval like all others (`frame_uses_own_pass`).

The mode itself never changes but for what GCC has learned (`mode_of_run`).
-/

namespace SiestaVR.Abr

open Lib

/-! ## The mode -/

/-- The mode as it was configured, without what GCC has learned. -/
def BitrateMode.configured : BitrateMode → BitrateMode
  | .gccPort _ framerate => .gccPort (.new framerate) framerate
  | mode => mode

/-- The modes that the source wants applied with every frame. -/
def BitrateMode.isPerFrame : BitrateMode → Bool
  | .everest _ => true
  | .gccPort _ _ => true
  | .oracle _ _ _ => true
  | _ => false

/-- The event may set the target, and nothing else that concerns the bitrate but the clocks. -/
def AbrEvent.retargets : AbrEvent → Bool
  | .frame _ _ => true
  | .oracleBandwidthStep => true
  | .oracleApplyLookaheadCap _ => true
  | _ => false

variable {fns : MathFns} {cfg : AbrConfig} {s s' : AbrServer} {m m' : BitrateManager}
  {e : Nat × AbrEvent} {now : Nat} {rRtt rInc : ℚ}

theorem BitrateMode.eq_nada_of_configured {mode : BitrateMode}
    (h : mode.configured = .nadaCiscoPort) : mode = .nadaCiscoPort := by
  cases mode <;> first | rfl | cases h

theorem BitrateMode.eq_oracle_of_configured {mode : BitrateMode} {margin min max : ℚ}
    (h : mode.configured = .oracle margin min max) : mode = .oracle margin min max := by
  cases mode <;> first | exact h | cases h

theorem BitrateMode.isPerFrame_configured (mode : BitrateMode) :
    mode.configured.isPerFrame = mode.isPerFrame := by
  cases mode <;> rfl

namespace BitrateManager

theorem configured_modeOf (cfg : AbrConfig) : (modeOf cfg).configured = modeOf cfg := by
  unfold modeOf
  split <;> rfl

/-! ## What sets the target -/

/-- Nothing is written but the target, the clocks and the average frame interval. -/
def Retargeted (m m' : BitrateManager) : Prop :=
  ∃ target lastUpdate lastFrame lastStats interval,
    m' = { m with
      lastTargetBitrateBps := target
      lastUpdateInstant := lastUpdate
      lastFrameInstant := lastFrame
      lastStatsReceived := lastStats
      frameIntervalAverage := interval }

theorem Retargeted.refl (m : BitrateManager) : m.Retargeted m := ⟨_, _, _, _, _, rfl⟩

theorem Retargeted.trans {m₁ m₂ m₃ : BitrateManager} (h : m₁.Retargeted m₂)
    (h' : m₂.Retargeted m₃) : m₁.Retargeted m₃ := by
  obtain ⟨_, _, _, _, _, rfl⟩ := h
  obtain ⟨_, _, _, _, _, rfl⟩ := h'
  exact ⟨_, _, _, _, _, rfl⟩

theorem Retargeted.mode (h : m.Retargeted m') : m'.bitrateMode = m.bitrateMode := by
  obtain ⟨_, _, _, _, _, rfl⟩ := h
  rfl

theorem retargeted_statsTimeoutPerFrame (h : m.statsTimeoutPerFrame now = some m') :
    m.Retargeted m' := by
  obtain rfl | rfl | ⟨ladder, -, -, rfl⟩ := statsTimeoutPerFrame_cases h
  · exact .refl _
  · exact ⟨_, _, _, _, _, rfl⟩
  · exact ⟨_, _, _, _, _, rfl⟩

theorem retargeted_onePassAbr (m : BitrateManager) (now : Nat) (rRtt rInc : ℚ) :
    m.Retargeted (m.onePassAbr now rRtt rInc) := by
  unfold onePassAbr
  split_ifs
  · exact .refl m
  · exact ⟨_, _, _, _, _, rfl⟩

theorem retargeted_reportEncodedFrameServer (m : BitrateManager) (now : Nat) :
    m.Retargeted (m.reportEncodedFrameServer now) := by
  simp only [reportEncodedFrameServer]
  split_ifs <;> exact ⟨_, _, _, _, _, rfl⟩

theorem retargeted_oracleApplyCap (m : BitrateManager) (now : Nat) (cap : ℚ) :
    m.Retargeted (m.oracleApplyCap now cap) := by
  unfold oracleApplyCap
  split
  · exact ⟨_, _, _, _, _, rfl⟩
  · exact .refl m

theorem retargeted_oracleSnapToCap (m : BitrateManager) (now : Nat) :
    m.Retargeted (m.oracleSnapToCap now) := by
  unfold oracleSnapToCap
  cases m.activeCapMbps now with
  | none => exact .refl m
  | some cap => exact m.retargeted_oracleApplyCap now cap

theorem statsTimeoutPerFrame_eq
    (h : ∀ max min profile, m.bitrateMode ≠ .nestVr max min profile) (now : Nat) :
    m.statsTimeoutPerFrame now = some m := by
  unfold statsTimeoutPerFrame
  split
  · next max min profile hmode => exact absurd hmode (h max min profile)
  · rfl

/-- A pass, if one is due. -/
def passIfDue (cfg : AbrConfig) (m : BitrateManager) (now : Nat) (rRtt rInc : ℚ) : BitrateManager :=
  if cfg.tUpdateAbr ≤ now - m.lastUpdateInstant then
    { m.onePassAbr now rRtt rInc with lastUpdateInstant := now }
  else m

theorem passIfDue_target (cfg : AbrConfig) (m : BitrateManager) (now : Nat) (rRtt rInc : ℚ) :
    (m.passIfDue cfg now rRtt rInc).lastTargetBitrateBps =
      if m.PassDue cfg now then m.passTarget now rRtt rInc else m.lastTargetBitrateBps := by
  by_cases hlate : cfg.tUpdateAbr ≤ now - m.lastUpdateInstant
  · by_cases hwarm : now < timeWarmupAbr
    · have hdue : ¬ m.PassDue cfg now := fun hdue => hdue.1.not_gt hwarm
      rw [if_neg hdue, passIfDue, if_pos hlate, onePassAbr, if_pos hwarm]
    · have hdue : m.PassDue cfg now := ⟨not_lt.1 hwarm, hlate⟩
      rw [if_pos hdue, passIfDue, if_pos hlate, onePassAbr, if_neg hwarm]
  · have hdue : ¬ m.PassDue cfg now := fun hdue => hlate hdue.2
    rw [if_neg hdue, passIfDue, if_neg hlate]

theorem retargeted_passIfDue (cfg : AbrConfig) (m : BitrateManager) (now : Nat) (rRtt rInc : ℚ) :
    m.Retargeted (m.passIfDue cfg now rRtt rInc) := by
  unfold passIfDue
  split_ifs
  · exact (m.retargeted_onePassAbr now rRtt rInc).trans ⟨_, _, _, _, _, rfl⟩
  · exact .refl m

theorem passIfDue_lastUpdate (cfg : AbrConfig) (m : BitrateManager) (now : Nat) (rRtt rInc : ℚ) :
    (m.passIfDue cfg now rRtt rInc).lastUpdateInstant =
      if cfg.tUpdateAbr ≤ now - m.lastUpdateInstant then now else m.lastUpdateInstant := by
  unfold passIfDue
  split_ifs <;> rfl

end BitrateManager

namespace AbrServer

theorem handleNetworkStatistics_mode (fns : MathFns) (s : AbrServer) (packet : StatisticsPacket) :
    (s.handleNetworkStatistics fns packet).bitrateManager.bitrateMode.configured =
      s.bitrateManager.bitrateMode.configured := by
  have hreport : ∀ stats : BitrateManager.NetworkStatistics,
      (s.bitrateManager.reportNetworkStatisticsAbr fns stats s.now
        packet.sendInstant).bitrateMode.configured = s.bitrateManager.bitrateMode.configured := by
    intro stats
    rw [(s.bitrateManager.reportNetworkStatisticsAbr_spec fns stats s.now packet.sendInstant).1]
    cases s.bitrateManager.bitrateMode <;> rfl
  simp only [handleNetworkStatistics]
  split
  · exact hreport _
  · exact hreport _

theorem handleNetworkStatistics_target (fns : MathFns) (s : AbrServer) (packet : StatisticsPacket) :
    let s' := s.handleNetworkStatistics fns packet
    s'.now = s.now ∧
      s'.bitrateManager.lastTargetBitrateBps = s.bitrateManager.lastTargetBitrateBps ∧
      s'.bitrateManager.lastUpdateInstant = s.bitrateManager.lastUpdateInstant := by
  have hreport := fun stats => s.bitrateManager.reportNetworkStatisticsAbr_spec fns stats s.now
    packet.sendInstant
  simp only [handleNetworkStatistics]
  split
  · exact ⟨rfl, (hreport _).2.2.2.2, (hreport _).2.2.1⟩
  · exact ⟨rfl, (hreport _).2.2.2.2, (hreport _).2.2.1⟩

/-! ## What an event does -/

theorem now_le_of_step (h : s.step fns cfg e = some s') : s.now ≤ e.1 := by
  simp only [step] at h
  split_ifs at h with hnow
  exact hnow

theorem step_eq (h : s.step fns cfg e = some s') :
    { s with now := e.1 }.handle fns cfg e.2 = some s' := by
  rwa [step, if_pos (now_le_of_step h)] at h

theorem step_retargets (h : s.step fns cfg e = some s') (he : e.2.retargets = true) :
    s.bitrateManager.Retargeted s'.bitrateManager ∧ s'.nadaSender = s.nadaSender := by
  have hs' := step_eq h
  obtain ⟨now, event⟩ := e
  cases event with
  | frame rRtt rInc =>
    obtain ⟨m, hm, rfl⟩ := Option.map_eq_some_iff.1 hs'
    obtain ⟨m₁, hm₁, rfl⟩ := Option.map_eq_some_iff.1 hm
    refine ⟨(BitrateManager.retargeted_statsTimeoutPerFrame hm₁).trans ?_, rfl⟩
    exact (m₁.retargeted_passIfDue cfg now rRtt rInc).trans
      (BitrateManager.retargeted_reportEncodedFrameServer _ now)
  | oracleBandwidthStep =>
    cases hs'
    exact ⟨s.bitrateManager.retargeted_oracleSnapToCap now, rfl⟩
  | oracleApplyLookaheadCap cap =>
    cases hs'
    exact ⟨s.bitrateManager.retargeted_oracleApplyCap now cap, rfl⟩
  | _ => cases he

theorem step_statistics {packet : StatisticsPacket}
    (h : s.step fns cfg (now, .statistics packet) = some s') :
    s' = { s with now := now }.handleNetworkStatistics fns packet := by
  have hs' := step_eq h
  simp only [handle] at hs'
  split_ifs at hs'
  exact (Option.some.inj hs').symm

theorem step_timerReport {report : NadaFeedbackReport}
    (h : s.step fns cfg (now, .timerReport report) = some s') :
    s' = if 2 ≤ cfg.nadaLevel then { s with now := now }.nadaTimerReport report
      else { s with now := now } :=
  (Option.some.inj (step_eq h)).symm

theorem step_sessionEnd (h : s.step fns cfg (now, .sessionEnd) = some s') :
    s' = { s with now := now, bitrateManager := s.bitrateManager.reset } :=
  (Option.some.inj (step_eq h)).symm

/-- The NADA sender's report sets its rate, and nothing else of the manager. -/
theorem nadaTimerReport_eq (s : AbrServer) (report : NadaFeedbackReport) :
    ∃ rate, (s.nadaTimerReport report).bitrateManager =
      { s.bitrateManager with lastNadaTargetBitrateMbps := rate } := by
  unfold nadaTimerReport
  cases s.nadaSender with
  | none => exact ⟨_, rfl⟩
  | some n => exact ⟨_, rfl⟩

theorem nadaTimerReport_now (s : AbrServer) (report : NadaFeedbackReport) :
    (s.nadaTimerReport report).now = s.now := by
  unfold nadaTimerReport
  cases s.nadaSender with
  | none => rfl
  | some n => rfl

/-- **Step**: an event keeps the mode as it was configured. -/
theorem step_mode (h : s.step fns cfg e = some s') :
    s'.bitrateManager.bitrateMode.configured = s.bitrateManager.bitrateMode.configured := by
  obtain ⟨now, event⟩ := e
  cases event with
  | statistics packet =>
    rw [step_statistics h]
    exact handleNetworkStatistics_mode fns _ packet
  | timerReport report =>
    rw [step_timerReport h]
    split_ifs
    · obtain ⟨rate, heq⟩ := nadaTimerReport_eq { s with now := now } report
      rw [heq]
    · rfl
  | sessionEnd =>
    rw [step_sessionEnd h]
    show s.bitrateManager.reset.bitrateMode.configured = _
    simp only [BitrateManager.reset]
    cases s.bitrateManager.bitrateMode <;> rfl
  | _ => rw [(step_retargets h rfl).1.mode]

/-- **Run**: the mode stays as it was configured. -/
theorem mode_of_run {ok : AbrServer → Nat × AbrEvent → Prop} {es : List (Nat × AbrEvent)}
    (h : Run (step fns cfg) ok (new cfg) es s) :
    s.bitrateManager.bitrateMode.configured = BitrateManager.modeOf cfg :=
  h.state_invariant (P := fun s => s.bitrateManager.bitrateMode.configured = _)
    (BitrateManager.configured_modeOf cfg) fun _ _ _ hp _ hs => (step_mode hs).trans hp

/-! ## Frames -/

/-- A frame without a stats timeout: a pass if one is due, and the target is what the frame is
encoded at. -/
theorem step_frame_eq
    (hmode : ∀ max min profile, s.bitrateManager.bitrateMode ≠ .nestVr max min profile)
    (h : s.step fns cfg (now, .frame rRtt rInc) = some s') :
    s' = { s with
      now := now
      frames := s.frames ++
        [(s.bitrateManager.passIfDue cfg now rRtt rInc).lastTargetBitrateBps / 1000000]
      bitrateManager :=
        (s.bitrateManager.passIfDue cfg now rRtt rInc).reportEncodedFrameServer now } := by
  have hs' := step_eq h
  simp only [handle, generateVideoFrame, adapt,
    BitrateManager.statsTimeoutPerFrame_eq (m := s.bitrateManager) hmode] at hs'
  cases hs'
  rfl

theorem reportEncodedFrameServer_lastUpdate (m : BitrateManager) (now : Nat) :
    (m.reportEncodedFrameServer now).lastUpdateInstant = m.lastUpdateInstant := by
  simp only [BitrateManager.reportEncodedFrameServer]
  split_ifs <;> rfl

/-- **A frame is encoded at the target of its own instant** in the modes that the source wants
applied per frame, after the warm-up, if the update interval has elapsed: in every run and with
every frame of it. -/
theorem frame_uses_own_pass (fns : MathFns) (cfg : AbrConfig)
    (hmode : (BitrateManager.modeOf cfg).isPerFrame = true) {es : List (Nat × AbrEvent)}
    (h : Run (step fns cfg) (fun _ _ => True) (new cfg) es s)
    (hs' : s.step fns cfg (now, .frame rRtt rInc) = some s') (hwarm : timeWarmupAbr ≤ now)
    (hlate : cfg.tUpdateAbr ≤ now - s.bitrateManager.lastUpdateInstant) :
    s'.frames = s.frames ++ [s.bitrateManager.passTarget now rRtt rInc / 1000000] ∧
      s'.bitrateManager.lastUpdateInstant = now := by
  rw [← mode_of_run h, BitrateMode.isPerFrame_configured] at hmode
  have hnest : ∀ max min profile, s.bitrateManager.bitrateMode ≠ .nestVr max min profile := by
    intro max min profile heq
    rw [heq] at hmode
    cases hmode
  have hdue : s.bitrateManager.PassDue cfg now := ⟨hwarm, hlate⟩
  rw [step_frame_eq hnest hs']
  refine ⟨?_, ?_⟩
  · show s.frames ++ [(s.bitrateManager.passIfDue cfg now rRtt rInc).lastTargetBitrateBps / 1000000]
      = _
    rw [BitrateManager.passIfDue_target, if_pos hdue]
  · show ((s.bitrateManager.passIfDue cfg now rRtt rInc).reportEncodedFrameServer
      now).lastUpdateInstant = now
    rw [reportEncodedFrameServer_lastUpdate, BitrateManager.passIfDue_lastUpdate, if_pos hlate]

/-- A frame of EVeREst after the warm-up, and a report that orders to slow down. -/
def slowedDown : List (Nat × AbrEvent) :=
  [(9000000000, .frame 0 0),
    (9005000000, .statistics
      { sendInstant := 9000000000, peakThroughputBps := 300000000, frameInterarrivalS := 1 / 90
        bytesInFrame := 100000, everestCapacityUpdate := 0, everestThroughputUpdate := 0
        everestCommand := .slowDown, nadaFeedback := none })]

/-- The frame a second later goes down a rung, to 80 Mbit/s. -/
theorem frame_uses_own_pass_everest :
    ∃ s s', Run (step squareRoots (behindWideLink 2)) (fun _ _ => True) (new (behindWideLink 2))
        slowedDown s ∧ s.step squareRoots (behindWideLink 2) (10000000000, .frame 0 0) = some s' ∧
      s'.frames = s.frames ++ [80] := by
  have hview : ∃ s, Run (step squareRoots (behindWideLink 2)) (fun _ _ => True)
      (new (behindWideLink 2)) slowedDown s ∧ ((s.step squareRoots (behindWideLink 2)
        (10000000000, .frame 0 0)).isSome, s.bitrateManager.lastUpdateInstant,
        s.bitrateManager.passTarget 10000000000 0 0) = (true, 9000000000, 80000000) :=
    exists_run_of_map (by decide +kernel)
  obtain ⟨s, hrun, hview⟩ := hview
  obtain ⟨hsome, hlast, htarget⟩ : _ ∧ _ ∧ _ := by simpa only [Prod.mk.injEq] using hview
  obtain ⟨s', hs'⟩ := Option.isSome_iff_exists.1 hsome
  refine ⟨s, s', hrun, hs', ?_⟩
  have hframe := frame_uses_own_pass squareRoots (behindWideLink 2) (by decide) hrun hs'
    (by decide) (by rw [hlast]; decide)
  rw [hframe.1, htarget]
  norm_num

/-- The next frame, 11 ms later, is still at 100 Mbit/s; a pass gives 80. -/
theorem frame_uses_old_pass :
    ∃ s s', Run (step squareRoots (behindWideLink 2)) (fun _ _ => True) (new (behindWideLink 2))
        slowedDown s ∧ s.step squareRoots (behindWideLink 2) (9011000000, .frame 0 0) = some s' ∧
      s'.frames = s.frames ++ [100] ∧ s.bitrateManager.passTarget 9011000000 0 0 = 80000000 := by
  have hview : ∃ s, Run (step squareRoots (behindWideLink 2)) (fun _ _ => True)
      (new (behindWideLink 2)) slowedDown s ∧ ((s.step squareRoots (behindWideLink 2)
        (9011000000, .frame 0 0)).map AbrServer.frames, s.frames,
        s.bitrateManager.passTarget 9011000000 0 0) = (some [100, 100], [100], 80000000) :=
    exists_run_of_map (by decide +kernel)
  obtain ⟨s, hrun, hview⟩ := hview
  obtain ⟨hnext, hframes, htarget⟩ : _ ∧ _ ∧ _ := by simpa only [Prod.mk.injEq] using hview
  obtain ⟨s', hs', hframes'⟩ := Option.map_eq_some_iff.1 hnext
  refine ⟨s, s', hrun, hs', ?_, htarget⟩
  rw [hframes', hframes]
  rfl

end AbrServer

end SiestaVR.Abr
