import SiestaVR.Abr.Manager
import SiestaVR.Lib.Runs

/-!
# Adaptive bitrate at the server (lib/models_XR.rs:3848–3896, 3925–3975, 4019–4033,
4496–4615)

What `XRServer` does with its bitrate manager: every video frame is generated with the
target bitrate, after the stats timeout and the pass if one is due; frame reports feed the
manager and, in NADA mode, the NADA sender, whose rate is handed to the manager; oracle events
and the end of a session write the target at once.

`frames` remembers the bitrates of the frames generated, in Mbit/s. Events come at times that
do not decrease.
-/

namespace SiestaVR.Abr

open Lib

/-- `XRServer`, by what concerns the bitrate. -/
structure AbrServer where
  now : Nat
  bitrateManager : BitrateManager
  nadaSender : Option NadaSender
  frames : List ℚ
deriving DecidableEq, Repr

/-- `ClientControlPacket::NetworkStatistics`, for a frame sent at `sendInstant`. -/
structure StatisticsPacket where
  sendInstant : Nat
  peakThroughputBps : ℚ
  frameInterarrivalS : ℚ
  bytesInFrame : Nat
  everestCapacityUpdate : ℚ
  everestThroughputUpdate : ℚ
  everestCommand : EverestCommand
  nadaFeedback : Option NadaFeedbackReport
deriving DecidableEq, Repr

namespace AbrServer

/-- `XRServer::new`. -/
def new (cfg : AbrConfig) : AbrServer where
  now := 0
  bitrateManager := .new cfg
  nadaSender :=
    if cfg.abrEnabled = 5 then
      some (if cfg.nadaLevel ≥ 2 then .newAt 0 (cfg.initialBitrateMbps * 1000000) else .new 0)
    else none
  frames := []

/-- The part of `generate_video_frame` before the frame is generated. -/
def adapt (cfg : AbrConfig) (m : BitrateManager) (now : Nat) (rRtt rInc : ℚ) :
    Option BitrateManager :=
  (m.statsTimeoutPerFrame now).map fun m =>
    if now - m.lastUpdateInstant ≥ cfg.tUpdateAbr then
      { m.onePassAbr now rRtt rInc with lastUpdateInstant := now }
    else m

/-- `generate_video_frame`. -/
def generateVideoFrame (cfg : AbrConfig) (s : AbrServer) (rRtt rInc : ℚ) : Option AbrServer :=
  (adapt cfg s.bitrateManager s.now rRtt rInc).map fun m =>
    { s with
      frames := s.frames ++ [m.lastTargetBitrateBps / 1000000]
      bitrateManager := m.reportEncodedFrameServer s.now }

/-- The NADA sender's rate is handed to the manager, in units of 1024 · 1024 bit/s. -/
def setNadaSender (s : AbrServer) (nada : NadaSender) : AbrServer :=
  { s with
    nadaSender := some nada
    bitrateManager := { s.bitrateManager with
      lastNadaTargetBitrateMbps := some (nada.getTargetBitrate / 1024 / 1024) } }

/-- `handle_control_packet`, for the statistics of a frame. -/
def handleNetworkStatistics (fns : MathFns) (s : AbrServer) (packet : StatisticsPacket) :
    AbrServer :=
  let stats : BitrateManager.NetworkStatistics :=
    { networkRtt := s.now - packet.sendInstant
      peakThroughputBps := packet.peakThroughputBps
      frameInterarrivalS := packet.frameInterarrivalS
      bytesInFrame := packet.bytesInFrame
      everestCapacityUpdate := packet.everestCapacityUpdate
      everestThroughputUpdate := packet.everestThroughputUpdate
      everestCommand := packet.everestCommand }
  let s := { s with bitrateManager :=
    s.bitrateManager.reportNetworkStatisticsAbr fns stats s.now packet.sendInstant }
  match packet.nadaFeedback, s.nadaSender with
  | some report, some nada =>
    s.setNadaSender
      (nada.updateOnReceiveFeedback s.now (packet.sendInstant / 1000 : Nat) report)
  | _, _ => s

/-- `nada_timer_report`. -/
def nadaTimerReport (s : AbrServer) (report : NadaFeedbackReport) : AbrServer :=
  s.nadaSender.elim s fun nada => s.setNadaSender (nada.updateOnTimerFeedback s.now report)

end AbrServer

/-! ## Runs -/

/-- What happens to the server. -/
inductive AbrEvent
  /-- A frame is generated, with the random numbers of a pass. -/
  | frame (rRtt rInc : ℚ)
  | statistics (packet : StatisticsPacket)
  | timerReport (report : NadaFeedbackReport)
  | oracleBandwidthStep
  | oracleApplyLookaheadCap (capMbps : ℚ)
  | sessionEnd
deriving DecidableEq, Repr

/-- What an event does at the present time. No result: a duration is negative or too large,
and the program aborts. -/
def AbrServer.handle (fns : MathFns) (cfg : AbrConfig) (s : AbrServer) :
    AbrEvent → Option AbrServer
  | .frame rRtt rInc => s.generateVideoFrame cfg rRtt rInc
  | .statistics packet =>
    if packet.sendInstant ≤ s.now then some (s.handleNetworkStatistics fns packet) else none
  | .timerReport report => some (if 2 ≤ cfg.nadaLevel then s.nadaTimerReport report else s)
  | .oracleBandwidthStep =>
    some { s with bitrateManager := s.bitrateManager.oracleSnapToCap s.now }
  | .oracleApplyLookaheadCap cap =>
    some { s with bitrateManager := s.bitrateManager.oracleApplyCap s.now cap }
  | .sessionEnd => some { s with bitrateManager := s.bitrateManager.reset }

/-- One event, at a time. -/
def AbrServer.step (fns : MathFns) (cfg : AbrConfig) (s : AbrServer) (e : Nat × AbrEvent) :
    Option AbrServer :=
  if s.now ≤ e.1 then { s with now := e.1 }.handle fns cfg e.2 else none

end SiestaVR.Abr
