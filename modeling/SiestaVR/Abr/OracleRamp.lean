import Mathlib.Data.List.Chain
import SiestaVR.Abr.PerFrame

/-!
# The ramp of the oracle (lib/models_XR.rs:137–141, 2664–2680, 2708–2751, 3879–3890)

Climbs of the oracle's target are meant to be limited to `ORACLE_RAMP_UP_MBPS_PER_SEC`, drops
are immediate. Three writers share the target and the time of the last update: the periodic
pass, the event at a segment boundary, and the event ahead of a drop.

- The two events go through `oracle_ramp_target_mbps`, which measures the time from the last
  update. After the reset of a session the time of the last update is the epoch, and the first
  event may climb as if the session had lasted from there.
- The pass does not limit the climb at all.

The target is a step function of time, so a climb is measured between the instants at which it
is updated (`Note`). Between any two of them in one session the limit is kept, if every update
meets `RampFits` (`oracle_ramp_limited`).
-/

namespace SiestaVR.Abr

open Lib Emu

/-! ## Notes -/

/-- An update of the target. -/
structure Note where
  instant : Nat
  targetMbps : ℚ
deriving DecidableEq, Repr

/-- The second note is later, and above the first by what the ramp allows at most. -/
def Note.Climbs (a b : Note) : Prop :=
  a.instant ≤ b.instant ∧
    b.targetMbps ≤ a.targetMbps + oracleRampUpMbpsPerSec * secs (b.instant - a.instant)

instance (a b : Note) : Decidable (a.Climbs b) := inferInstanceAs (Decidable (_ ∧ _))

/-- The target climbs between any two notes by what the ramp allows at most. -/
def Paced (notes : List Note) : Prop := notes.Pairwise Note.Climbs

instance (notes : List Note) : Decidable (Paced notes) :=
  inferInstanceAs (Decidable (notes.Pairwise _))

theorem secs_nonneg (ns : Nat) : 0 ≤ secs ns := div_nonneg (Nat.cast_nonneg _) (by norm_num)

theorem secs_sub_add {a b c : Nat} (hab : a ≤ b) (hbc : b ≤ c) :
    secs (b - a) + secs (c - b) = secs (c - a) := by
  simp only [secs, Nat.cast_sub hab, Nat.cast_sub hbc, Nat.cast_sub (hab.trans hbc)]
  ring

theorem Note.Climbs.trans {a b c : Note} (hab : a.Climbs b) (hbc : b.Climbs c) : a.Climbs c := by
  refine ⟨hab.1.trans hbc.1, ?_⟩
  rw [← secs_sub_add hab.1 hbc.1, mul_add]
  linarith [hab.2, hbc.2]

instance : Trans Note.Climbs Note.Climbs Note.Climbs := ⟨Note.Climbs.trans⟩

theorem Paced.snoc {notes : List Note} {a b : Note} (h : Paced notes)
    (hlast : notes.getLast? = some a) (hab : a.Climbs b) : Paced (notes ++ [b]) := by
  refine (List.IsChain.append h.isChain (.singleton b) fun x hx y hy => ?_).pairwise
  rw [hlast] at hx
  cases hx
  cases hy
  exact hab

/-! ## The session -/

/-- The target after an event. -/
def AbrServer.noteAt (s : AbrServer) (now : Nat) : Note :=
  ⟨now, s.bitrateManager.lastTargetBitrateBps / 1000000⟩

/-- What is noted of the present session: the target at its start, and every update. -/
def noteUpdate (cfg : AbrConfig) (notes : List Note) (s : AbrServer) (e : Nat × AbrEvent)
    (s' : AbrServer) : List Note :=
  match e.2 with
  | .frame _ _ =>
    if cfg.tUpdateAbr ≤ e.1 - s.bitrateManager.lastUpdateInstant then notes ++ [s'.noteAt e.1]
    else notes
  | .oracleBandwidthStep =>
    if (s.bitrateManager.activeCapMbps e.1).isSome then notes ++ [s'.noteAt e.1] else notes
  | .oracleApplyLookaheadCap _ => notes ++ [s'.noteAt e.1]
  | .sessionEnd => [s'.noteAt e.1]
  | _ => notes

/-- When the target was last updated in this session. -/
def lastNoted (notes : List Note) : Nat := (notes.getLast?.map Note.instant).getD 0

/-- How far the ramp gets from the target. -/
def reachMbps (t : List Note × AbrServer) (now : Nat) : ℚ :=
  t.2.bitrateManager.lastTargetBitrateBps / 1000000 +
    oracleRampUpMbpsPerSec * secs (now - lastNoted t.1)

/-- An event of the oracle has the limit: the time of the last update is one of this session, or
the cap is within reach. -/
def CapInReach (t : List Note × AbrServer) (now : Nat) (cap : ℚ) : Prop :=
  t.2.bitrateManager.lastUpdateInstant = lastNoted t.1 ∨
    cap - oracleBitrateMarginMbps ≤ reachMbps t now

/-- The update has the limit. With a pass, the cap or the maximum is within reach. -/
def RampFits (cfg : AbrConfig) (t : List Note × AbrServer) (e : Nat × AbrEvent) : Prop :=
  match e.2 with
  | .frame _ _ => t.2.bitrateManager.PassDue cfg e.1 →
    ∀ cap ∈ t.2.bitrateManager.oracleMinCapOverLookaheadMbps e.1,
      cap - oracleBitrateMarginMbps ≤ reachMbps t e.1 ∨ maxMbpsLadder ≤ reachMbps t e.1
  | .oracleBandwidthStep => ∀ cap ∈ t.2.bitrateManager.activeCapMbps e.1, CapInReach t e.1 cap
  | .oracleApplyLookaheadCap cap => CapInReach t e.1 cap
  | _ => True

instance (t : List Note × AbrServer) (now : Nat) (cap : ℚ) : Decidable (CapInReach t now cap) :=
  inferInstanceAs (Decidable (_ ∨ _))

instance (cfg : AbrConfig) (t : List Note × AbrServer) : ∀ e, Decidable (RampFits cfg t e)
  | (now, .frame _ _) => inferInstanceAs (Decidable (t.2.bitrateManager.PassDue cfg now →
      ∀ cap ∈ t.2.bitrateManager.oracleMinCapOverLookaheadMbps now, _ ∨ _))
  | (now, .oracleBandwidthStep) =>
    inferInstanceAs (Decidable (∀ cap ∈ t.2.bitrateManager.activeCapMbps now, _))
  | (now, .oracleApplyLookaheadCap cap) => inferInstanceAs (Decidable (CapInReach t now cap))
  | (_, .statistics _) | (_, .timerReport _) | (_, .sessionEnd) => .isTrue trivial

/-- The mode of the oracle. -/
def oracleMode : BitrateMode :=
  .oracle oracleBitrateMarginMbps minOracleBitrateMbps maxMbpsLadder

/-- The notes are paced up to the present target. The last update is the last note, or there was
none in this session. -/
structure Ramped (t : List Note × AbrServer) : Prop where
  mode : t.2.bitrateManager.bitrateMode = oracleMode
  ge : minOracleBitrateMbps ≤ t.2.bitrateManager.lastTargetBitrateBps / 1000000
  last : t.1.getLast? = some (t.2.noteAt (lastNoted t.1))
  noted : lastNoted t.1 ≤ t.2.now
  updated : t.2.bitrateManager.lastUpdateInstant ≤ lastNoted t.1
  paced : Paced t.1

variable {fns : MathFns} {cfg : AbrConfig} {t t' : List Note × AbrServer} {s' : AbrServer}
  {e : Nat × AbrEvent} {now : Nat}

theorem lastNoted_snoc (notes : List Note) (note : Note) :
    lastNoted (notes ++ [note]) = note.instant := by
  simp [lastNoted]

theorem target_le_reach (t : List Note × AbrServer) (now : Nat) :
    t.2.bitrateManager.lastTargetBitrateBps / 1000000 ≤ reachMbps t now := by
  have hramp : 0 ≤ oracleRampUpMbpsPerSec * secs (now - lastNoted t.1) :=
    mul_nonneg (by norm_num [oracleRampUpMbpsPerSec]) (secs_nonneg _)
  unfold reachMbps
  linarith

namespace Ramped

theorem update (h : Ramped t) (hnow : t.2.now ≤ now) (hnow' : s'.now = now)
    (hmode : s'.bitrateManager.bitrateMode = oracleMode)
    (hge : minOracleBitrateMbps ≤ s'.bitrateManager.lastTargetBitrateBps / 1000000)
    (hreach : s'.bitrateManager.lastTargetBitrateBps / 1000000 ≤ reachMbps t now)
    (hupdated : s'.bitrateManager.lastUpdateInstant ≤ now) :
    Ramped (t.1 ++ [s'.noteAt now], s') where
  mode := hmode
  ge := hge
  last := by
    rw [List.getLast?_concat, lastNoted_snoc]
    rfl
  noted := by
    rw [lastNoted_snoc]
    exact hnow'.ge
  updated := by
    rw [lastNoted_snoc]
    exact hupdated
  paced := h.paced.snoc h.last ⟨h.noted.trans hnow, hreach⟩

theorem keep (h : Ramped t) (hnow : t.2.now ≤ s'.now)
    (hmode : s'.bitrateManager.bitrateMode = oracleMode)
    (htarget : s'.bitrateManager.lastTargetBitrateBps = t.2.bitrateManager.lastTargetBitrateBps)
    (hlast : s'.bitrateManager.lastUpdateInstant = t.2.bitrateManager.lastUpdateInstant) :
    Ramped (t.1, s') where
  mode := hmode
  ge := htarget ▸ h.ge
  last := by
    rw [h.last, AbrServer.noteAt, AbrServer.noteAt, htarget]
  noted := h.noted.trans hnow
  updated := hlast ▸ h.updated
  paced := h.paced

/-! ## Updates -/

theorem rampTarget_mem (h : Ramped t) {cap : ℚ} (hcap : CapInReach t now cap) :
    let target := t.2.bitrateManager.oracleRampTargetMbps cap oracleBitrateMarginMbps
      minOracleBitrateMbps now
    minOracleBitrateMbps ≤ target ∧ target ≤ reachMbps t now := by
  have hprev := target_le_reach t now
  have hge := h.ge
  have hramp : 0 ≤ oracleRampUpMbpsPerSec *
      secs (now - t.2.bitrateManager.lastUpdateInstant) :=
    mul_nonneg (by norm_num [oracleRampUpMbpsPerSec]) (secs_nonneg _)
  simp only [BitrateManager.oracleRampTargetMbps]
  split_ifs with hup
  · refine ⟨le_min (by linarith) (le_max_right _ _), ?_⟩
    rcases hcap with hlast | hcap
    · refine (min_le_left _ _).trans ?_
      rw [hlast]
      rfl
    · exact (min_le_right _ _).trans (max_le hcap (hge.trans hprev))
  · exact ⟨le_max_right _ _, (not_le.1 hup).le.trans hprev⟩

theorem oracleApplyCap (h : Ramped t) (hnow : t.2.now ≤ now) {cap : ℚ}
    (hcap : CapInReach t now cap) {s' : AbrServer}
    (hs' : s' = { t.2 with
      now := now, bitrateManager := t.2.bitrateManager.oracleApplyCap now cap }) :
    Ramped (t.1 ++ [s'.noteAt now], s') := by
  have happly : t.2.bitrateManager.oracleApplyCap now cap =
      { t.2.bitrateManager with
        lastTargetBitrateBps := t.2.bitrateManager.oracleRampTargetMbps cap
          oracleBitrateMarginMbps minOracleBitrateMbps now * 1000000
        lastUpdateInstant := now } := by
    simp only [BitrateManager.oracleApplyCap, h.mode, oracleMode]
  obtain ⟨hge, hle⟩ := h.rampTarget_mem hcap
  rw [happly] at hs'
  subst hs'
  refine h.update hnow rfl h.mode ?_ ?_ le_rfl
  · show _ ≤ _ * 1000000 / 1000000
    rwa [mul_div_cancel_right₀ _ (by norm_num)]
  · show _ * 1000000 / 1000000 ≤ _
    rwa [mul_div_cancel_right₀ _ (by norm_num)]

theorem passTarget_mem (h : Ramped t)
    (hcap : ∀ cap ∈ t.2.bitrateManager.oracleMinCapOverLookaheadMbps now,
      cap - oracleBitrateMarginMbps ≤ reachMbps t now ∨ maxMbpsLadder ≤ reachMbps t now)
    (rRtt rInc : ℚ) :
    minOracleBitrateMbps ≤ t.2.bitrateManager.passTarget now rRtt rInc / 1000000 ∧
      t.2.bitrateManager.passTarget now rRtt rInc / 1000000 ≤ reachMbps t now := by
  have hprev := target_le_reach t now
  simp only [BitrateManager.passTarget, h.mode, oracleMode, BitrateManager.passOracle]
  cases hlook : t.2.bitrateManager.oracleMinCapOverLookaheadMbps now with
  | none => exact ⟨h.ge, hprev⟩
  | some cap =>
    rw [Option.elim_some, mul_div_cancel_right₀ _ (by norm_num)]
    refine ⟨le_min (le_max_right _ _) (by norm_num [minOracleBitrateMbps, maxMbpsLadder]), ?_⟩
    rcases hcap cap hlook with hcap | hmax
    · exact (min_le_left _ _).trans (max_le hcap (h.ge.trans hprev))
    · exact (min_le_right _ _).trans hmax

theorem ne_nest (h : Ramped t) (max min : ℚ) (profile : ProfileConfig) :
    t.2.bitrateManager.bitrateMode ≠ .nestVr max min profile := by
  rw [h.mode]
  exact nofun

theorem frame (h : Ramped t) {rRtt rInc : ℚ} (hfits : RampFits cfg t (now, .frame rRtt rInc))
    (hs' : t.2.step fns cfg (now, .frame rRtt rInc) = some s') :
    Ramped (noteUpdate cfg t.1 t.2 (now, .frame rRtt rInc) s', s') := by
  have hnow : t.2.now ≤ now := AbrServer.now_le_of_step hs'
  obtain rfl := AbrServer.step_frame_eq h.ne_nest hs'
  set m' := (t.2.bitrateManager.passIfDue cfg now rRtt rInc).reportEncodedFrameServer now with hm'
  obtain ⟨hmode, -, -, htarget⟩ := BitrateManager.reportEncodedFrameServer_spec
    (t.2.bitrateManager.passIfDue cfg now rRtt rInc) now
  have hlast : m'.lastUpdateInstant = _ := AbrServer.reportEncodedFrameServer_lastUpdate _ now
  rw [← hm', (BitrateManager.retargeted_passIfDue cfg _ now rRtt rInc).mode] at hmode
  rw [← hm', BitrateManager.passIfDue_target] at htarget
  rw [BitrateManager.passIfDue_lastUpdate] at hlast
  by_cases hlate : cfg.tUpdateAbr ≤ now - t.2.bitrateManager.lastUpdateInstant
  · rw [noteUpdate, if_pos hlate]
    have hmem : minOracleBitrateMbps ≤ m'.lastTargetBitrateBps / 1000000 ∧
        m'.lastTargetBitrateBps / 1000000 ≤ reachMbps t now := by
      rw [htarget]
      split_ifs with hdue
      · exact h.passTarget_mem (hfits hdue) rRtt rInc
      · exact ⟨h.ge, target_le_reach t now⟩
    rw [if_pos hlate] at hlast
    exact h.update hnow rfl (hmode.trans h.mode) hmem.1 hmem.2 hlast.le
  · rw [noteUpdate, if_neg hlate]
    rw [if_neg hlate] at hlast
    rw [if_neg fun hdue => hlate hdue.2] at htarget
    exact h.keep hnow (hmode.trans h.mode) htarget hlast

/-- The event at a boundary of the bandwidth. Without a cap it does nothing. -/
theorem oracleBandwidthStep (h : Ramped t) (hfits : RampFits cfg t (now, .oracleBandwidthStep))
    (hmode : s'.bitrateManager.bitrateMode = oracleMode)
    (hs' : t.2.step fns cfg (now, .oracleBandwidthStep) = some s') :
    Ramped (noteUpdate cfg t.1 t.2 (now, .oracleBandwidthStep) s', s') := by
  have hnow : t.2.now ≤ now := AbrServer.now_le_of_step hs'
  have hs' := (Option.some.inj (AbrServer.step_eq hs')).symm
  unfold BitrateManager.oracleSnapToCap at hs'
  cases hactive : t.2.bitrateManager.activeCapMbps now with
  | none =>
    rw [hactive, Option.elim_none] at hs'
    subst hs'
    simp only [noteUpdate, hactive, Option.isSome_none, Bool.false_eq_true, if_false]
    exact h.keep hnow hmode rfl rfl
  | some cap =>
    rw [hactive, Option.elim_some] at hs'
    simp only [noteUpdate, hactive, Option.isSome_some, if_true]
    exact h.oracleApplyCap hnow (hfits cap hactive) hs'

/-! ## Runs -/

theorem of_start (hmode : s'.bitrateManager.bitrateMode = oracleMode)
    (htarget : s'.bitrateManager.lastTargetBitrateBps = maxMbpsLadder * 1000000)
    (hupdate : s'.bitrateManager.lastUpdateInstant = 0) : Ramped ([s'.noteAt s'.now], s') where
  mode := hmode
  ge := by
    rw [htarget]
    norm_num [minOracleBitrateMbps, maxMbpsLadder]
  last := rfl
  noted := le_rfl
  updated := hupdate.trans_le (Nat.zero_le _)
  paced := List.pairwise_singleton _ _

/-- **Step**: an event that has the limit keeps the notes paced. -/
theorem step (h : Ramped t) (hfits : RampFits cfg t e)
    (ht' : watched (AbrServer.step fns cfg) (noteUpdate cfg) t e = some t') : Ramped t' := by
  obtain ⟨hs', hnotes⟩ := watched_eq_some.1 ht'
  obtain ⟨notes', s'⟩ := t'
  obtain rfl : notes' = noteUpdate cfg t.1 t.2 e s' := hnotes
  have hnow : t.2.now ≤ e.1 := AbrServer.now_le_of_step hs'
  have hmode : s'.bitrateManager.bitrateMode = oracleMode := by
    apply BitrateMode.eq_oracle_of_configured
    rw [AbrServer.step_mode hs', h.mode]
    rfl
  obtain ⟨now, event⟩ := e
  cases event with
  | frame rRtt rInc => exact h.frame hfits hs'
  | statistics packet =>
    obtain rfl := AbrServer.step_statistics hs'
    obtain ⟨hsame, htarget, hlast⟩ :=
      AbrServer.handleNetworkStatistics_target fns { t.2 with now := now } packet
    exact h.keep (hsame ▸ hnow) hmode htarget hlast
  | timerReport report =>
    obtain rfl := AbrServer.step_timerReport hs'
    split_ifs at hmode ⊢
    · obtain ⟨rate, heq⟩ := AbrServer.nadaTimerReport_eq { t.2 with now := now } report
      refine h.keep ?_ hmode (by rw [heq]) (by rw [heq])
      rw [AbrServer.nadaTimerReport_now]
      exact hnow
    · exact h.keep hnow hmode rfl rfl
  | oracleBandwidthStep => exact h.oracleBandwidthStep hfits hmode hs'
  | oracleApplyLookaheadCap cap =>
    exact h.oracleApplyCap hnow hfits (Option.some.inj (AbrServer.step_eq hs')).symm
  | sessionEnd =>
    obtain rfl := AbrServer.step_sessionEnd hs'
    refine of_start hmode ?_ rfl
    simp only [BitrateManager.reset, BitrateManager.resetTarget, h.mode, oracleMode]

end Ramped

/-- The target at the start is the first note. -/
def startNotes (cfg : AbrConfig) : List Note := [(AbrServer.new cfg).noteAt 0]

/-- **The oracle climbs by what the ramp allows**, between any two updates of a session, in
every run whose updates have the limit. -/
theorem oracle_ramp_limited (fns : MathFns) (cfg : AbrConfig) (hcfg : cfg.abrEnabled = 8)
    {es : List (Nat × AbrEvent)} {t : List Note × AbrServer}
    (h : Run (watched (AbrServer.step fns cfg) (noteUpdate cfg)) (RampFits cfg)
      (startNotes cfg, .new cfg) es t) : Paced t.1 := by
  have hmode : (AbrServer.new cfg).bitrateManager.bitrateMode = oracleMode := by
    show BitrateManager.modeOf cfg = oracleMode
    rw [BitrateManager.modeOf, hcfg]
    rfl
  have htarget : (AbrServer.new cfg).bitrateManager.lastTargetBitrateBps =
      maxMbpsLadder * 1000000 := by
    show BitrateManager.seedBitrateMbps cfg * 1000000 = _
    rw [BitrateManager.seedBitrateMbps, hcfg]
    rfl
  have hstart : Ramped (startNotes cfg, .new cfg) := .of_start hmode htarget rfl
  exact (h.state_invariant hstart fun _ _ _ hp hok hs => hp.step hok hs).paced

/-- An oracle with a pass every second, behind a link that goes up from 20 to 100 Mbit/s at ten
seconds. -/
def behindRisingLink : AbrConfig :=
  { behindWideLink 8 with
    networkEffects := [(20000000, 0, 10000000000), (100000000, 10000000000, 60000000000)].map
      fun (maxBps, validFrom, validUntil) => .bandwidth
        { maxBps := maxBps, currentTokens := 0, maxTokens := 0, tokenRefillRate := 0
          lastRefill := 0, maxLatency := 0, validFrom := validFrom, validUntil := validUntil } }

/-- With the event at the boundary, the target goes up from 15 to 16 Mbit/s in a second. -/
theorem oracle_ramp_limited_at_boundary :
    ∃ t, Run (watched (AbrServer.step squareRoots behindRisingLink) (noteUpdate behindRisingLink))
        (RampFits behindRisingLink) (startNotes behindRisingLink, .new behindRisingLink)
        [(9000000000, .frame 0 0), (10000000000, .oracleBandwidthStep)] t ∧
      t.1 = [⟨0, 100⟩, ⟨9000000000, 15⟩, ⟨10000000000, 16⟩] ∧ Paced t.1 := by
  have hok : allOk (watched (AbrServer.step squareRoots behindRisingLink)
      (noteUpdate behindRisingLink)) (RampFits behindRisingLink)
      (startNotes behindRisingLink, .new behindRisingLink)
      [(9000000000, .frame 0 0), (10000000000, .oracleBandwidthStep)] := by decide +kernel
  have hnotes : (runs (watched (AbrServer.step squareRoots behindRisingLink)
      (noteUpdate behindRisingLink)) (startNotes behindRisingLink, .new behindRisingLink)
      [(9000000000, .frame 0 0), (10000000000, .oracleBandwidthStep)]).map Prod.fst =
      some [⟨0, 100⟩, ⟨9000000000, 15⟩, ⟨10000000000, 16⟩] := by decide +kernel
  obtain ⟨t, ht, hnotes⟩ := Option.map_eq_some_iff.1 hnotes
  have hrun := Run.of_runs hok ht
  exact ⟨t, hrun, hnotes, oracle_ramp_limited squareRoots behindRisingLink rfl hrun⟩

/-- The events can happen, and these are the notes. -/
def Noted (cfg : AbrConfig) (es : List (Nat × AbrEvent)) (notes : List Note) : Prop :=
  ∃ t, Run (watched (AbrServer.step squareRoots cfg) (noteUpdate cfg)) (fun _ _ => True)
    (startNotes cfg, .new cfg) es t ∧ t.1 = notes

/-- With a pass, it goes up from 15 to 95 Mbit/s. And after the end of a session at 20 s, an
event at 21 s takes the target up by 21 Mbit/s. -/
theorem oracle_ramp_exceeded :
    (Noted behindRisingLink [(9000000000, .frame 0 0), (10000000000, .frame 0 0)]
        [⟨0, 100⟩, ⟨9000000000, 15⟩, ⟨10000000000, 95⟩] ∧
      ¬ Paced [⟨0, 100⟩, ⟨9000000000, 15⟩, ⟨10000000000, 95⟩]) ∧
    Noted (behindWideLink 8) [(20000000000, .sessionEnd), (21000000000, .oracleBandwidthStep)]
        [⟨20000000000, 100⟩, ⟨21000000000, 121⟩] ∧
      ¬ Paced [⟨20000000000, 100⟩, ⟨21000000000, 121⟩] := by
  refine ⟨⟨exists_run_of_map ?_, ?_⟩, exists_run_of_map ?_, ?_⟩
  · decide +kernel
  · decide +kernel
  · decide +kernel
  · decide +kernel

end SiestaVR.Abr
