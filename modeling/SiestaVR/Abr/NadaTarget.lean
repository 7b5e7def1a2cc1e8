import SiestaVR.Abr.PerFrame

/-!
# The rate that NADA hands over (lib/models_XR.rs:2633–2646, 3949–3970, 4023–4033)

In NADA mode the target is computed by the NADA sender. With every feedback report the server
divides the sender's rate, in bit/s, by 1024 · 1024 and stores it; the next pass multiplies what
is stored by a million. So the encoder never gets the rate of the sender: it gets 95 percent of
it (`nada_target_below`).

What the sender computes does not matter for that. The run is followed from report to pass: a
report that the sender gets stores its rate (`step_feeds`), any other event leaves the sender and
what is stored as they are (`step_not_feeds`).
-/

namespace SiestaVR.Abr

open Lib

/-- The event brings a feedback report that the NADA sender gets. -/
def AbrEvent.feedsNada (cfg : AbrConfig) : AbrEvent → Bool
  | .statistics packet => packet.nadaFeedback.isSome
  | .timerReport _ => 2 ≤ cfg.nadaLevel
  | _ => false

/-- What the server stores of the sender's rate. -/
def NadaSender.storedMbps (n : NadaSender) : ℚ := n.getTargetBitrate / 1024 / 1024

namespace AbrServer

variable {fns : MathFns} {cfg : AbrConfig} {s s' : AbrServer} {n : NadaSender}
  {e : Nat × AbrEvent} {es : List (Nat × AbrEvent)}

/-- The server is in NADA mode, and the rate of its sender is the one stored for the pass. -/
structure Handed (n : NadaSender) (s : AbrServer) : Prop where
  mode : s.bitrateManager.bitrateMode = .nadaCiscoPort
  sender : s.nadaSender = some n
  rate : s.bitrateManager.lastNadaTargetBitrateMbps = some n.storedMbps

theorem modeOf_nada (hcfg : cfg.abrEnabled = 5) :
    BitrateManager.modeOf cfg = .nadaCiscoPort := by
  rw [BitrateManager.modeOf, hcfg]
  rfl

theorem step_mode_nada (hmode : s.bitrateManager.bitrateMode = .nadaCiscoPort)
    (h : s.step fns cfg e = some s') : s'.bitrateManager.bitrateMode = .nadaCiscoPort := by
  apply BitrateMode.eq_nada_of_configured
  rw [step_mode h, hmode]
  rfl

theorem ne_nest_of_nada {mode : BitrateMode} (h : mode = .nadaCiscoPort) (max min : ℚ)
    (profile : ProfileConfig) : mode ≠ .nestVr max min profile := by
  rw [h]
  exact nofun

/-! ## What is stored -/

/-- A report that the sender gets sets its rate, and stores it for the pass. -/
theorem step_feeds (hmode : s.bitrateManager.bitrateMode = .nadaCiscoPort)
    (hsender : s.nadaSender = some n) (hfeeds : e.2.feedsNada cfg = true)
    (h : s.step fns cfg e = some s') : ∃ n', n'.Bounded ∧ s'.Handed n' := by
  have hmode' := step_mode_nada hmode h
  obtain ⟨now, event⟩ := e
  cases event with
  | statistics packet =>
    obtain ⟨report, hreport⟩ := Option.isSome_iff_exists.1 hfeeds
    have hs' := step_statistics h
    simp only [handleNetworkStatistics, hreport, hsender] at hs'
    subst hs'
    exact ⟨n.updateOnReceiveFeedback now (packet.sendInstant / 1000 : Nat) report,
      n.bounded_updateOnReceiveFeedback now _ report, ⟨hmode', rfl, rfl⟩⟩
  | timerReport report =>
    have hlevel : 2 ≤ cfg.nadaLevel := of_decide_eq_true hfeeds
    have hs' := step_timerReport h
    rw [if_pos hlevel, nadaTimerReport, hsender, Option.elim_some] at hs'
    subst hs'
    exact ⟨n.updateOnTimerFeedback now report, n.bounded_updateOnTimerFeedback now report,
      ⟨hmode', rfl, rfl⟩⟩
  | _ => cases hfeeds

/-- Any other event leaves the sender and what is stored. -/
theorem step_not_feeds (hfeeds : e.2.feedsNada cfg = false) (h : s.step fns cfg e = some s') :
    s'.nadaSender = s.nadaSender ∧ s'.bitrateManager.lastNadaTargetBitrateMbps =
      s.bitrateManager.lastNadaTargetBitrateMbps := by
  obtain ⟨now, event⟩ := e
  cases event with
  | statistics packet =>
    have hnone : packet.nadaFeedback = none := by
      rw [← Option.not_isSome_iff_eq_none, show packet.nadaFeedback.isSome = false from hfeeds]
      exact Bool.false_ne_true
    have hs' := step_statistics h
    simp only [handleNetworkStatistics, hnone] at hs'
    subst hs'
    exact ⟨rfl, (s.bitrateManager.reportNetworkStatisticsAbr_spec fns _ now _).2.2.2.1⟩
  | timerReport report =>
    have hlevel : ¬ 2 ≤ cfg.nadaLevel := of_decide_eq_false hfeeds
    rw [step_timerReport h, if_neg hlevel]
    exact ⟨rfl, rfl⟩
  | sessionEnd =>
    rw [step_sessionEnd h]
    exact ⟨rfl, rfl⟩
  | _ =>
    obtain ⟨hretargeted, hsender⟩ := step_retargets h rfl
    obtain ⟨_, _, _, _, _, heq⟩ := hretargeted
    exact ⟨hsender, by rw [heq]⟩

theorem step_handed (hn : s.Handed n) (hfeeds : e.2.feedsNada cfg = false)
    (h : s.step fns cfg e = some s') : s'.Handed n := by
  obtain ⟨hsender, hrate⟩ := step_not_feeds hfeeds h
  exact ⟨step_mode_nada hn.mode h, hsender.trans hn.sender, hrate.trans hn.rate⟩

/-- **Run**: the mode is NADA, and there is a sender. -/
theorem nada_of_run (hcfg : cfg.abrEnabled = 5)
    (h : Run (step fns cfg) (fun _ _ => True) (new cfg) es s) :
    s.bitrateManager.bitrateMode = .nadaCiscoPort ∧ ∃ n, s.nadaSender = some n := by
  refine h.state_invariant (P := fun s => s.bitrateManager.bitrateMode = .nadaCiscoPort ∧
    ∃ n, s.nadaSender = some n) ⟨modeOf_nada hcfg, ?_⟩ ?_
  · simp only [new, if_pos hcfg]
    exact ⟨_, rfl⟩
  · rintro s e s' ⟨hmode, n, hsender⟩ - hs'
    refine ⟨step_mode_nada hmode hs', ?_⟩
    cases hfeeds : e.2.feedsNada cfg with
    | true =>
      obtain ⟨n', -, hn'⟩ := step_feeds hmode hsender hfeeds hs'
      exact ⟨n', hn'.sender⟩
    | false => exact ⟨n, (step_not_feeds hfeeds hs').1.trans hsender⟩

/-- **What the encoder gets**: with the first pass after a report, and with every pass until the
next one, the target is below the rate that the sender computed for the report. -/
theorem nada_target_below (fns : MathFns) (cfg : AbrConfig) (hcfg : cfg.abrEnabled = 5)
    {es es' : List (Nat × AbrEvent)} {s s₁ s₂ s₃ : AbrServer} {report : Nat × AbrEvent} {now : Nat}
    {rRtt rInc : ℚ} (h : Run (step fns cfg) (fun _ _ => True) (new cfg) es s)
    (hfeeds : report.2.feedsNada cfg = true) (hreport : s.step fns cfg report = some s₁)
    (hwait : Run (step fns cfg) (fun _ e => e.2.feedsNada cfg = false) s₁ es' s₂)
    (hdue : s₂.bitrateManager.PassDue cfg now)
    (hframe : s₂.step fns cfg (now, .frame rRtt rInc) = some s₃) :
    ∃ n, s₁.nadaSender = some n ∧ n.Bounded ∧
      s₃.frames = s₂.frames ++ [n.storedMbps] ∧
      n.storedMbps * 1000000 < n.getTargetBitrate := by
  obtain ⟨hmode, n₀, hsender⟩ := nada_of_run hcfg h
  obtain ⟨n, hbounded, hn⟩ := step_feeds hmode hsender hfeeds hreport
  have hn₂ : s₂.Handed n := hwait.state_invariant hn fun _ _ _ hp hok hs => step_handed hp hok hs
  refine ⟨n, hn.sender, hbounded, ?_, ?_⟩
  · rw [step_frame_eq (ne_nest_of_nada hn₂.mode) hframe]
    show s₂.frames ++ [_ / 1000000] = _
    rw [BitrateManager.passIfDue_target, if_pos hdue, BitrateManager.passTarget, hn₂.mode]
    simp only [hn₂.rate, Option.elim_some]
    rw [mul_div_cancel_right₀ _ (by norm_num)]
  · have hmin : (0 : ℚ) < n.getTargetBitrate := by
      have hmin := hbounded.1
      have hrate : 0 < n.getTargetBitrate := lt_of_lt_of_le (by decide) hmin
      exact_mod_cast hrate
    unfold NadaSender.storedMbps
    linarith

/-- A report of a delay of two seconds. -/
def delayReport : Nat × AbrEvent :=
  (2000000000, frameReport 1000000000 100000 (some ⟨1, 2000, 1000000⟩))

theorem nada_target_below_after_delay :
    ∃ s₁ s₃ n, (new (behindWideLink 5)).step squareRoots (behindWideLink 5) delayReport = some s₁ ∧
      s₁.step squareRoots (behindWideLink 5) (9000000000, .frame 0 0) = some s₃ ∧
      s₁.nadaSender = some n ∧ s₃.frames = s₁.frames ++ [n.storedMbps] ∧
      n.storedMbps * 1000000 < n.getTargetBitrate := by
  have hview : ((new (behindWideLink 5)).step squareRoots (behindWideLink 5) delayReport).map
      (fun s => ((s.step squareRoots (behindWideLink 5) (9000000000, .frame 0 0)).isSome,
        decide (s.bitrateManager.PassDue (behindWideLink 5) 9000000000))) = some (true, true) := by
    decide +kernel
  obtain ⟨s₁, hs₁, hview⟩ := Option.map_eq_some_iff.1 hview
  obtain ⟨hsome, hdue⟩ := Prod.mk.inj hview
  obtain ⟨s₃, hs₃⟩ := Option.isSome_iff_exists.1 hsome
  obtain ⟨n, hn, -, hframes, hbelow⟩ := nada_target_below squareRoots (behindWideLink 5) rfl .start
    rfl hs₁ .start (of_decide_eq_true hdue) hs₃
  exact ⟨s₁, s₃, n, hs₁, hs₃, hn, hframes, hbelow⟩

/-- The sender goes down to its minimum of 10 Mbit/s, and the encoder to 9.5. -/
theorem nada_target_missed :
    ((new (behindWideLink 5)).step squareRoots (behindWideLink 5) delayReport).map
        (fun s => s.nadaSender.map NadaSender.getTargetBitrate) = some (some 10000000) ∧
      (runs (step squareRoots (behindWideLink 5)) (new (behindWideLink 5))
        [delayReport, (9000000000, .frame 0 0)]).map AbrServer.frames = some [78125 / 8192] := by
  decide +kernel

end AbrServer

end SiestaVR.Abr
