import SiestaVR.Abr.Range

/-!
# Frames in the configured range

The server generates every frame in the configured range of its mode as long as four things do
not happen (`Controlled`).

- GCC: a frame that comes after the end of a session, before a pass has replaced the target.
  The reset multiplies `GCC_INIT_CONFIGURED_BITRATE`, which is in bit/s, by a million.
- GCC: the report that initialises the rate control overshoots (`Overshoots`).
- NADA: a pass after a report, at a rate below ten times 1024 · 1024 bit/s. The report divides
  the rate by 1024 · 1024, and the pass multiplies it by a million.
- Oracle: an event whose cap and ramp both lead above the maximum. `oracle_apply_cap` takes the
  maximum and does not use it.

The invariant (`Ranged`) follows the target and what the next pass reads.
-/

namespace SiestaVR.Abr

open Lib Emu

/-! ## The condition -/

/-- The event brings a feedback report of NADA. -/
def AbrEvent.isFeedback : AbrEvent → Bool
  | .statistics packet => packet.nadaFeedback.isSome
  | .timerReport _ => true
  | _ => false

/-- A session has ended. -/
def SessionEnded (es : List (Nat × AbrEvent)) : Prop := ∃ e ∈ es, e.2 = .sessionEnd

/-- NADA has had a feedback report. -/
def Reported (es : List (Nat × AbrEvent)) : Prop := ∃ e ∈ es, e.2.isFeedback = true

/-- A frame at `now` comes with a pass that sets the target. -/
def BitrateManager.PassDue (cfg : AbrConfig) (m : BitrateManager) (now : Nat) : Prop :=
  timeWarmupAbr ≤ now ∧ cfg.tUpdateAbr ≤ now - m.lastUpdateInstant

/-- A frame in GCC mode, when a session has ended: a pass is due after that. -/
def GccRestarted (cfg : AbrConfig) (now : Nat) : Prop := timeWarmupAbr ≤ now ∧ cfg.tUpdateAbr ≤ now

/-- A report in GCC mode does not overshoot. -/
def GccSettles (fns : MathFns) (gcc : GccBandwidthEstimator) (packet : StatisticsPacket)
    (now : Nat) : Prop :=
  let gcc := gcc.measure packet.sendInstant now packet.bytesInFrame
  ¬ AimdRateControl.Overshoots fns gcc.aimdManager gcc.rateControlInputManager
    (now / 1000000 : Nat)

/-- The rate of NADA is in the range also in units of 1024 · 1024 bit/s. -/
def NadaRateHigh (nada : Option NadaSender) : Prop := ∀ n ∈ nada, 10 * 1024 * 1024 ≤ n.rVin

/-- The event does not lead out of the range. -/
def Controlled (fns : MathFns) (cfg : AbrConfig) (t : List (Nat × AbrEvent) × AbrServer)
    (e : Nat × AbrEvent) : Prop :=
  let m := t.2.bitrateManager
  match m.bitrateMode, e.2 with
  | .gccPort _ _, .frame _ _ => SessionEnded t.1 → GccRestarted cfg e.1
  | .gccPort gcc _, .statistics packet => GccSettles fns gcc packet e.1
  | .nadaCiscoPort, .frame _ _ => Reported t.1 → m.PassDue cfg e.1 → NadaRateHigh t.2.nadaSender
  | .oracle margin _ max, .oracleApplyLookaheadCap cap => m.CapFits e.1 cap margin max
  | .oracle margin _ max, .oracleBandwidthStep =>
    ∀ cap ∈ m.activeCapMbps e.1, m.CapFits e.1 cap margin max
  | _, _ => True

instance (es : List (Nat × AbrEvent)) : Decidable (SessionEnded es) :=
  inferInstanceAs (Decidable (∃ e ∈ es, e.2 = .sessionEnd))

instance (es : List (Nat × AbrEvent)) : Decidable (Reported es) :=
  inferInstanceAs (Decidable (∃ e ∈ es, e.2.isFeedback = true))

instance (cfg : AbrConfig) (m : BitrateManager) (now : Nat) : Decidable (m.PassDue cfg now) :=
  inferInstanceAs (Decidable (_ ∧ _))

instance (cfg : AbrConfig) (now : Nat) : Decidable (GccRestarted cfg now) :=
  inferInstanceAs (Decidable (_ ∧ _))

instance (fns : MathFns) (gcc : GccBandwidthEstimator) (packet : StatisticsPacket) (now : Nat) :
    Decidable (GccSettles fns gcc packet now) :=
  inferInstanceAs (Decidable (¬ AimdRateControl.Overshoots _ _ _ _))

instance (nada : Option NadaSender) : Decidable (NadaRateHigh nada) :=
  inferInstanceAs (Decidable (∀ n ∈ nada, 10 * 1024 * 1024 ≤ n.rVin))

instance (fns : MathFns) (cfg : AbrConfig) (t : List (Nat × AbrEvent) × AbrServer)
    (e : Nat × AbrEvent) : Decidable (Controlled fns cfg t e) := by
  unfold Controlled
  dsimp only
  split <;> infer_instance

/-! ## The invariant -/

/-- The target is in the range, or GCC was reset and a pass is due with the next frame; and
what a pass reads is in the range, or is a rate of NADA in the wrong unit. -/
structure Ranged (lo hi : ℚ) (ended reported : Prop) (s : AbrServer) : Prop where
  configured : s.bitrateManager.Configured lo hi
  target : InRange lo hi s.bitrateManager.lastTargetBitrateBps ∨
    (∃ gcc framerate, s.bitrateManager.bitrateMode = .gccPort gcc framerate) ∧ ended ∧
      s.bitrateManager.lastUpdateInstant = 0
  gcc : ∀ gcc framerate, s.bitrateManager.bitrateMode = .gccPort gcc framerate →
    gcc.aimdManager.Sound
  nada : s.bitrateManager.bitrateMode = .nadaCiscoPort →
    ∀ mbps ∈ s.bitrateManager.lastNadaTargetBitrateMbps, InRange lo hi (mbps * 1000000) ∨
      reported ∧ ∃ n ∈ s.nadaSender, n.Bounded ∧ mbps = n.rVin / 1024 / 1024
  frames : ∀ mbps ∈ s.frames, lo ≤ mbps ∧ mbps ≤ hi

namespace Ranged

variable {lo hi : ℚ} {ended reported : Prop} {s s' : AbrServer} {cfg : AbrConfig} {fns : MathFns}
  {es : List (Nat × AbrEvent)} {e : Nat × AbrEvent}

theorem mono {ended' reported' : Prop} (h : Ranged lo hi ended reported s) (hended : ended → ended')
    (hreported : reported → reported') (now : Nat) :
    Ranged lo hi ended' reported' { s with now := now } where
  configured := h.configured
  target := h.target.imp_right fun ⟨hmode, he, hlast⟩ => ⟨hmode, hended he, hlast⟩
  gcc := h.gcc
  nada hmode mbps hmbps := (h.nada hmode mbps hmbps).imp_right fun ⟨hr, hn⟩ => ⟨hreported hr, hn⟩
  frames := h.frames

/-! ## Frames -/

theorem gcc_inRange (h : Ranged lo hi ended reported s) {gcc : GccBandwidthEstimator}
    {framerate : ℚ} (hmode : s.bitrateManager.bitrateMode = .gccPort gcc framerate) :
    InRange lo hi gcc.getTargetBitrateBps := by
  have hsound := h.gcc gcc framerate hmode
  obtain ⟨rfl, rfl⟩ : _ = lo ∧ _ = hi := by
    simpa [BitrateMode.rangeMbps, hmode] using h.configured.range
  unfold GccBandwidthEstimator.getTargetBitrateBps
  exact ⟨by linarith [hsound.ge], by linarith [hsound.le]⟩

/-- The rate that NADA has handed over is in the range, if it is high enough for the unit. -/
theorem nada_inRange (h : Ranged lo hi ended reported s)
    (hmode : s.bitrateManager.bitrateMode = .nadaCiscoPort)
    (hhigh : reported → NadaRateHigh s.nadaSender) {mbps : ℚ}
    (hmbps : mbps ∈ s.bitrateManager.lastNadaTargetBitrateMbps) :
    InRange lo hi (mbps * 1000000) := by
  rcases h.nada hmode mbps hmbps with hin | ⟨hreported, n, hn, hbounded, rfl⟩
  · exact hin
  · obtain ⟨rfl, rfl⟩ : _ = lo ∧ _ = hi := by
      simpa [BitrateMode.rangeMbps, hmode] using h.configured.range
    have hlow : (10 * 1024 * 1024 : ℚ) ≤ n.rVin := by exact_mod_cast hhigh hreported n hn
    have hmax : (n.rVin : ℚ) ≤ rmcatCcDefaultRmax := by exact_mod_cast hbounded.2
    norm_num [InRange, rmcatCcDefaultRmin, rmcatCcDefaultRmax] at hmax ⊢
    constructor <;> linarith

/-- **What the target is when the frame is generated**: in the range. The rest of what the
invariant reads stays as it was. -/
theorem adapt_spec (h : Ranged lo hi ended reported s) {m' : BitrateManager} {rRtt rInc : ℚ}
    (hgcc : ∀ gcc framerate, s.bitrateManager.bitrateMode = .gccPort gcc framerate → ended →
      GccRestarted cfg s.now)
    (hnada : s.bitrateManager.bitrateMode = .nadaCiscoPort → reported →
      s.bitrateManager.PassDue cfg s.now → NadaRateHigh s.nadaSender)
    (hm' : AbrServer.adapt cfg s.bitrateManager s.now rRtt rInc = some m') :
    m'.bitrateMode = s.bitrateManager.bitrateMode ∧
      m'.bitrateLadderBps = s.bitrateManager.bitrateLadderBps ∧
      m'.lastNadaTargetBitrateMbps = s.bitrateManager.lastNadaTargetBitrateMbps ∧
      InRange lo hi m'.lastTargetBitrateBps := by
  obtain ⟨m, hm, rfl⟩ := Option.map_eq_some_iff.1 hm'
  obtain ⟨hmode, hladder, hlast, hrate, htarget⟩ :=
    BitrateManager.statsTimeoutPerFrame_spec h.configured hm
  -- only GCC's target may be out of the range, and then the pass is done
  have hmid : InRange lo hi m.lastTargetBitrateBps ∨
      (∃ gcc framerate, s.bitrateManager.bitrateMode = .gccPort gcc framerate) ∧ ended ∧
        s.bitrateManager.lastUpdateInstant = 0 :=
    htarget.elim (fun heq => heq ▸ h.target) .inl
  have hkept : ¬ s.bitrateManager.PassDue cfg s.now → InRange lo hi m.lastTargetBitrateBps := by
    intro hdue
    rcases hmid with hin | ⟨⟨gcc, framerate, hmode⟩, hended, hzero⟩
    · exact hin
    · obtain ⟨hwarm, hlate⟩ := hgcc gcc framerate hmode hended
      exact absurd ⟨hwarm, by rwa [hzero, Nat.sub_zero]⟩ hdue
  have hconfigured : m.Configured lo hi := h.configured.congr hmode hladder
  unfold BitrateManager.onePassAbr
  rw [hlast]
  split_ifs with hdue hwarm
  · exact ⟨hmode, hladder, hrate, hkept fun hpass => absurd hwarm hpass.1.not_gt⟩
  · refine ⟨hmode, hladder, hrate, BitrateManager.passTarget_mem hconfigured _ _ _ ?_ ?_ ?_⟩
    · intro gcc framerate hgccMode
      exact h.gcc_inRange (hmode.symm.trans hgccMode)
    · intro hnadaMode mbps hmbps
      rw [hmode] at hnadaMode
      rw [hrate] at hmbps
      exact h.nada_inRange hnadaMode
        (fun hr => hnada hnadaMode hr ⟨not_lt.1 hwarm, hdue⟩) hmbps
    · intro margin minMbps maxMbps horacle
      rcases hmid with hin | ⟨⟨gcc, framerate, hgccMode⟩, -⟩
      · exact hin
      · rw [hmode, hgccMode] at horacle
        cases horacle
  · exact ⟨hmode, hladder, hrate, hkept fun hpass => hdue hpass.2⟩

theorem generateVideoFrame (h : Ranged lo hi ended reported s) {rRtt rInc : ℚ}
    (hgcc : ∀ gcc framerate, s.bitrateManager.bitrateMode = .gccPort gcc framerate → ended →
      GccRestarted cfg s.now)
    (hnada : s.bitrateManager.bitrateMode = .nadaCiscoPort → reported →
      s.bitrateManager.PassDue cfg s.now → NadaRateHigh s.nadaSender)
    (hs' : s.generateVideoFrame cfg rRtt rInc = some s') : Ranged lo hi ended reported s' := by
  obtain ⟨m, hm, rfl⟩ := Option.map_eq_some_iff.1 hs'
  obtain ⟨hmode, hladder, hrate, htarget⟩ := h.adapt_spec hgcc hnada hm
  obtain ⟨hmode', hladder', hrate', htarget'⟩ := m.reportEncodedFrameServer_spec s.now
  exact {
    configured := h.configured.congr (hmode'.trans hmode) (hladder'.trans hladder)
    target := .inl (by rwa [htarget'])
    gcc := by
      rw [hmode', hmode]
      exact h.gcc
    nada := by
      rw [hmode', hmode, hrate', hrate]
      exact h.nada
    frames := by
      intro mbps hmem
      rcases List.mem_append.1 hmem with hmem | hmem
      · exact h.frames mbps hmem
      · cases List.mem_singleton.1 hmem
        exact htarget.mbps }

/-! ## Reports -/

theorem setNadaSender (h : Ranged lo hi ended reported s) {n : NadaSender} (hn : n.Bounded) :
    Ranged lo hi ended True (s.setNadaSender n) where
  configured := h.configured.congr rfl rfl
  target := h.target
  gcc := h.gcc
  nada _ mbps hmbps := by
    cases hmbps
    exact .inr ⟨trivial, n, rfl, hn, rfl⟩
  frames := h.frames

theorem nadaTimerReport (h : Ranged lo hi ended reported s) (report : NadaFeedbackReport) :
    Ranged lo hi ended True (s.nadaTimerReport report) := by
  unfold AbrServer.nadaTimerReport
  cases s.nadaSender with
  | none => exact h.mono id (fun _ => trivial) s.now
  | some n => exact h.setNadaSender (n.bounded_updateOnTimerFeedback s.now report)

/-- Reports and resets replace the estimator of GCC and keep the other modes. -/
theorem of_mode (h : Ranged lo hi ended reported s) {ended' : Prop} {m : BitrateManager}
    {update : GccBandwidthEstimator → ℚ → GccBandwidthEstimator}
    (hmode : m.bitrateMode = match s.bitrateManager.bitrateMode with
      | .gccPort gcc framerate => .gccPort (update gcc framerate) framerate
      | mode => mode)
    (hladder : m.bitrateLadderBps = s.bitrateManager.bitrateLadderBps)
    (hrate : m.lastNadaTargetBitrateMbps = s.bitrateManager.lastNadaTargetBitrateMbps)
    (hsound : ∀ gcc framerate, s.bitrateManager.bitrateMode = .gccPort gcc framerate →
      (update gcc framerate).aimdManager.Sound)
    (htarget : InRange lo hi m.lastTargetBitrateBps ∨
      (∃ gcc framerate, m.bitrateMode = .gccPort gcc framerate) ∧ ended' ∧
        m.lastUpdateInstant = 0) :
    Ranged lo hi ended' reported { s with bitrateManager := m } := by
  split at hmode
  · next gcc framerate hold =>
    have hrange := h.configured.range
    rw [hold] at hrange
    exact {
      configured := {
        range := by
          rw [hmode]
          exact hrange
        le := h.configured.le
        rungs := hladder ▸ h.configured.rungs
        ladder := by
          rw [hmode]
          exact False.elim }
      target := htarget
      gcc := by
        rintro gcc' framerate' hgcc
        obtain ⟨rfl, rfl⟩ := BitrateMode.gccPort.inj (hmode.symm.trans hgcc)
        exact hsound gcc framerate hold
      nada := fun hnada => by
        rw [hmode] at hnada
        cases hnada
      frames := h.frames }
  · exact {
      configured := h.configured.congr hmode hladder
      target := htarget
      gcc := by
        rw [hmode]
        exact h.gcc
      nada := by
        rw [hmode, hrate]
        exact h.nada
      frames := h.frames }

theorem reportNetworkStatisticsAbr (h : Ranged lo hi ended reported s)
    {stats : BitrateManager.NetworkStatistics} {sendInstant : Nat}
    (hgcc : ∀ gcc framerate, s.bitrateManager.bitrateMode = .gccPort gcc framerate →
      (gcc.update fns sendInstant s.now stats.bytesInFrame).aimdManager.Sound) :
    Ranged lo hi ended reported { s with bitrateManager :=
      s.bitrateManager.reportNetworkStatisticsAbr fns stats s.now sendInstant } := by
  obtain ⟨hmode, hladder, hlast, hrate, htarget⟩ :=
    s.bitrateManager.reportNetworkStatisticsAbr_spec fns stats s.now sendInstant
  refine h.of_mode hmode hladder hrate hgcc ?_
  rw [htarget, hlast]
  refine h.target.imp_right fun ⟨⟨gcc, framerate, hold⟩, hrest⟩ => ⟨?_, hrest⟩
  rw [hmode, hold]
  exact ⟨_, _, rfl⟩

theorem handleNetworkStatistics (h : Ranged lo hi ended reported s) {packet : StatisticsPacket}
    (hgcc : ∀ gcc framerate, s.bitrateManager.bitrateMode = .gccPort gcc framerate →
      GccSettles fns gcc packet s.now) :
    Ranged lo hi ended (reported ∨ packet.nadaFeedback.isSome = true)
      (s.handleNetworkStatistics fns packet) := by
  have hreport : ∀ stats : BitrateManager.NetworkStatistics,
      stats.bytesInFrame = packet.bytesInFrame →
      Ranged lo hi ended reported { s with bitrateManager :=
        s.bitrateManager.reportNetworkStatisticsAbr fns stats s.now packet.sendInstant } := by
    intro stats hbytes
    refine h.reportNetworkStatisticsAbr fun gcc framerate hmode => ?_
    rw [hbytes]
    exact AimdRateControl.sound_update (h.gcc gcc framerate hmode) (hgcc gcc framerate hmode)
  simp only [AbrServer.handleNetworkStatistics]
  split
  · next report n hfeedback hn =>
    refine ((hreport _ rfl).setNadaSender
      (NadaSender.bounded_updateOnReceiveFeedback n _ _ report)).mono id ?_ s.now
    exact fun _ => .inr (by rw [hfeedback]; rfl)
  · exact (hreport _ rfl).mono id .inl s.now

/-! ## Resets and the oracle's events -/

theorem reset (h : Ranged lo hi ended reported s) :
    Ranged lo hi True reported { s with bitrateManager := s.bitrateManager.reset } := by
  refine h.of_mode rfl rfl rfl (fun gcc framerate _ => AimdRateControl.sound_new framerate) ?_
  by_cases hmode : ∃ gcc framerate, s.bitrateManager.bitrateMode = .gccPort gcc framerate
  · refine .inr ⟨?_, trivial, rfl⟩
    obtain ⟨gcc, framerate, hmode⟩ := hmode
    simp only [BitrateManager.reset, hmode]
    exact ⟨_, _, rfl⟩
  · exact .inl (BitrateManager.resetTarget_mem h.configured
      fun gcc framerate heq => hmode ⟨gcc, framerate, heq⟩)

theorem oracleApplyCap (h : Ranged lo hi ended reported s) {cap : ℚ}
    (hcap : ∀ margin minMbps maxMbps,
      s.bitrateManager.bitrateMode = .oracle margin minMbps maxMbps →
        s.bitrateManager.CapFits s.now cap margin maxMbps) :
    Ranged lo hi ended reported
      { s with bitrateManager := s.bitrateManager.oracleApplyCap s.now cap } := by
  unfold BitrateManager.oracleApplyCap
  split
  · next margin minMbps maxMbps hmode =>
    obtain ⟨rfl, rfl⟩ := h.configured.oracle hmode
    have htarget : InRange minMbps maxMbps s.bitrateManager.lastTargetBitrateBps := by
      rcases h.target with hin | ⟨⟨gcc, framerate, hgcc⟩, -⟩
      · exact hin
      · rw [hmode] at hgcc
        cases hgcc
    exact {
      configured := h.configured.congr rfl rfl
      target := .inl (BitrateManager.oracleRampTargetMbps_mem h.configured.le htarget
        (hcap margin minMbps maxMbps hmode))
      gcc := h.gcc
      nada := h.nada
      frames := h.frames }
  · exact h

theorem oracleSnapToCap (h : Ranged lo hi ended reported s)
    (hcap : ∀ margin minMbps maxMbps,
      s.bitrateManager.bitrateMode = .oracle margin minMbps maxMbps →
        ∀ cap ∈ s.bitrateManager.activeCapMbps s.now,
          s.bitrateManager.CapFits s.now cap margin maxMbps) :
    Ranged lo hi ended reported
      { s with bitrateManager := s.bitrateManager.oracleSnapToCap s.now } := by
  unfold BitrateManager.oracleSnapToCap
  cases hactive : s.bitrateManager.activeCapMbps s.now with
  | none => exact h
  | some cap =>
    exact h.oracleApplyCap fun margin minMbps maxMbps hmode =>
      hcap margin minMbps maxMbps hmode cap hactive

/-! ## Runs -/

/-- **Every event that meets the condition keeps the invariant.** -/
theorem step (h : Ranged lo hi (SessionEnded es) (Reported es) s)
    (hok : Controlled fns cfg (es, s) e) (hs' : s.step fns cfg e = some s') :
    Ranged lo hi (SessionEnded (es ++ [e])) (Reported (es ++ [e])) s' := by
  obtain ⟨now, event⟩ := e
  have hended : SessionEnded es → SessionEnded (es ++ [(now, event)]) :=
    fun ⟨d, hd, h⟩ => ⟨d, List.mem_append_left _ hd, h⟩
  have hreported : Reported es → Reported (es ++ [(now, event)]) :=
    fun ⟨d, hd, h⟩ => ⟨d, List.mem_append_left _ hd, h⟩
  have hlast : (now, event) ∈ es ++ [(now, event)] := List.mem_append_right _ List.mem_cons_self
  -- Each event has its own lemma; what happened before stays true of the longer history.
  have hnow := h.mono id id now
  simp only [AbrServer.step] at hs'
  split_ifs at hs'
  cases event with
  | frame rRtt rInc =>
    refine (hnow.generateVideoFrame
      (fun gcc framerate (hmode : s.bitrateManager.bitrateMode = _) => ?_)
      (fun (hmode : s.bitrateManager.bitrateMode = _) => ?_) hs').mono hended hreported s'.now
    · simpa only [Controlled, hmode] using hok
    · simpa only [Controlled, hmode] using hok
  | statistics packet =>
    simp only [AbrServer.handle] at hs'
    split_ifs at hs'
    cases hs'
    refine (hnow.handleNetworkStatistics
      fun gcc framerate (hmode : s.bitrateManager.bitrateMode = _) => ?_).mono hended ?_ _
    · simpa only [Controlled, hmode] using hok
    · exact fun h => h.elim hreported fun hfeedback => ⟨_, hlast, hfeedback⟩
  | timerReport report =>
    cases hs'
    split_ifs
    · exact (hnow.nadaTimerReport report).mono hended (fun _ => ⟨_, hlast, rfl⟩) _
    · exact hnow.mono hended hreported now
  | oracleBandwidthStep =>
    cases hs'
    refine (hnow.oracleSnapToCap
      fun margin minMbps maxMbps (hmode : s.bitrateManager.bitrateMode = _) => ?_).mono
        hended hreported now
    simpa only [Controlled, hmode] using hok
  | oracleApplyLookaheadCap cap =>
    cases hs'
    refine (hnow.oracleApplyCap
      fun margin minMbps maxMbps (hmode : s.bitrateManager.bitrateMode = _) => ?_).mono
        hended hreported now
    simpa only [Controlled, hmode] using hok
  | sessionEnd =>
    cases hs'
    exact hnow.reset.mono (fun _ => ⟨_, hlast, rfl⟩) hreported now

/-- A server starts with the invariant, if its first target is in the range. -/
theorem new (hrange : (BitrateManager.modeOf cfg).rangeMbps = some (lo, hi))
    (htarget : InRange lo hi (AbrServer.new cfg).bitrateManager.lastTargetBitrateBps) :
    Ranged lo hi ended reported (AbrServer.new cfg) where
  configured := BitrateManager.configured_new hrange
  target := .inl htarget
  gcc gcc framerate hmode := by
    obtain rfl := BitrateManager.eq_new_of_modeOf hmode
    exact AimdRateControl.sound_new framerate
  nada hmode mbps hmbps := .inl (BitrateManager.nada_new hrange hmode hmbps)
  frames := by simp [AbrServer.new]

end Ranged

/-- **Every frame is generated in the configured range of the mode**, in every run of a server
that adapts, starts in the range, and is not led out of it. -/
theorem frames_in_range (fns : MathFns) (cfg : AbrConfig) {lo hi : ℚ}
    (hrange : (BitrateManager.modeOf cfg).rangeMbps = some (lo, hi))
    (htarget : InRange lo hi (AbrServer.new cfg).bitrateManager.lastTargetBitrateBps)
    {es : List (Nat × AbrEvent)} {t : List (Nat × AbrEvent) × AbrServer}
    (h : Run (traced (AbrServer.step fns cfg)) (Controlled fns cfg) ([], .new cfg) es t) :
    ∀ mbps ∈ t.2.frames, lo ≤ mbps ∧ mbps ≤ hi :=
  (Run.traced_invariant (P := fun es s => Ranged lo hi (SessionEnded es) (Reported es) s)
    (Ranged.new hrange htarget) (fun _ _ _ _ hp hok hs => hp.step hok hs) h).2.frames

/-! ## Concrete runs -/

/-- A server in the mode, with a pass every second, behind a link of 200 Mbit/s. -/
def behindWideLink (abrEnabled : Nat) : AbrConfig where
  abrEnabled := abrEnabled
  initialBitrateMbps := maxMbpsLadder
  framerate := 90
  nestVrProfile := .balanced
  tUpdateAbr := 1000000000
  nadaLevel := 0
  maxHistorySize := 256
  networkEffects := [.bandwidth
    { maxBps := 200000000, currentTokens := 0, maxTokens := 0, tokenRefillRate := 0
      lastRefill := 0, maxLatency := 0, validFrom := 0, validUntil := 60000000000 }]

/-- Exact for the roots of squares, which are the only ones taken below. -/
def squareRoots : MathFns where
  sqrt x := (⌊x⌋.toNat.sqrt : Nat)
  powf x _ := x

/-- The report on a frame. -/
def frameReport (sendInstant bytesInFrame : Nat) (nadaFeedback : Option NadaFeedbackReport) :
    AbrEvent :=
  .statistics
    { sendInstant := sendInstant
      peakThroughputBps := 300000000
      frameInterarrivalS := 1 / 90
      bytesInFrame := bytesInFrame
      everestCapacityUpdate := 0
      everestThroughputUpdate := 0
      everestCommand := .continue
      nadaFeedback := nadaFeedback }

/-- A feedback report of NADA, and a frame after the warm-up. -/
def nadaReported (feedback : NadaFeedbackReport) : List (Nat × AbrEvent) :=
  [(2000000000, frameReport 1000000000 100000 (some feedback)), (9000000000, .frame 0 0)]

theorem frames_in_range_nada :
    ∃ t, Run (traced (AbrServer.step squareRoots (behindWideLink 5)))
        (Controlled squareRoots (behindWideLink 5)) ([], .new (behindWideLink 5))
        (nadaReported ⟨0, 0, 1000000⟩) t ∧
      t.2.frames ≠ [] ∧ ∀ mbps ∈ t.2.frames, 10 ≤ mbps ∧ mbps ≤ 100 := by
  have hok : allOk (traced (AbrServer.step squareRoots (behindWideLink 5)))
      (Controlled squareRoots (behindWideLink 5)) ([], .new (behindWideLink 5))
      (nadaReported ⟨0, 0, 1000000⟩) := by decide +kernel
  have hframes : (runs (traced (AbrServer.step squareRoots (behindWideLink 5)))
      ([], .new (behindWideLink 5)) (nadaReported ⟨0, 0, 1000000⟩)).map (fun t => t.2.frames) =
      some [390625 / 4096] := by decide +kernel
  obtain ⟨t, ht, hframes⟩ := Option.map_eq_some_iff.1 hframes
  have hrun := Run.of_runs hok ht
  refine ⟨t, hrun, by simp [hframes], frames_in_range squareRoots (behindWideLink 5) ?_ ?_ hrun⟩
  · decide +kernel
  · decide +kernel

/-- The end of a session, and a frame during the warm-up. -/
def sessionRestarted : List (Nat × AbrEvent) :=
  [(1000000000, .sessionEnd), (2000000000, .frame 0 0)]

/-- Reports every 251 ms at a throughput of 225 Mbit/s, on frames that take longer and longer;
and a frame after the warm-up. -/
def growingDelays : List (Nat × AbrEvent) :=
  (List.range 21).map (fun k =>
    ((1000 + 251 * k) * 1000000, frameReport ((990 + 151 * k) * 1000000) 4921875 none)) ++
    [(9000000000, .frame 0 0)]

/-- An event of the oracle, and a frame. -/
def bandwidthStepped : List (Nat × AbrEvent) :=
  [(10000000000, .oracleBandwidthStep), (10000000000, .frame 0 0)]

/-- The events can happen, and generate frames of these bitrates and no others, from a target
in the range. -/
def Generates (abrEnabled : Nat) (lo hi : ℚ) (es : List (Nat × AbrEvent)) (mbps : List ℚ) : Prop :=
  let cfg := behindWideLink abrEnabled
  (BitrateManager.modeOf cfg).rangeMbps = some (lo, hi) ∧
    InRange lo hi (AbrServer.new cfg).bitrateManager.lastTargetBitrateBps ∧
    ∃ s, Run (AbrServer.step squareRoots cfg) (fun _ _ => True) (.new cfg) es s ∧ s.frames = mbps

/-- NADA at its minimum is 9.5 Mbit/s for the encoder. GCC starts a new session with 100 Tbit/s,
and stays at 190 Mbit/s after it was initialised in congestion. The oracle goes up to
110 Mbit/s in ten seconds. All four have a maximum of 100 Mbit/s, and NADA a minimum of 10. -/
theorem frames_out_of_range :
    Generates 5 10 100 (nadaReported ⟨1, 2000, 1000000⟩) [78125 / 8192] ∧
    Generates 4 10 100 sessionRestarted [100000000] ∧
    Generates 4 10 100 growingDelays [38097 / 200] ∧
    Generates 8 5 100 bandwidthStepped [110] := by
  refine ⟨⟨by decide +kernel, by decide +kernel, exists_run_of_map ?_⟩,
    ⟨by decide +kernel, by decide +kernel, exists_run_of_map ?_⟩,
    ⟨by decide +kernel, by decide +kernel, exists_run_of_map ?_⟩,
    ⟨by decide +kernel, by decide +kernel, exists_run_of_map ?_⟩⟩
  · decide +kernel
  · decide +kernel
  · decide +kernel
  · decide +kernel

end SiestaVR.Abr
