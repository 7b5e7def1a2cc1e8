import SiestaVR.Emu.Pattern
import SiestaVR.Xr.Node
import Mathlib.Data.List.Sort

/-!
# XR sessions (lib/models_XR.rs:3848–3873, 4371–4419, 4496–4733, 4735–4815, 5709–5935,
6674–6943, xr_entry/mod.rs:1032–1138)

A client and a server stream in sessions. `run_sim` schedules the start and the end of every
session on both sides: the server's `connection_pipeline` starts the generation of video and
audio frames, the client's `configure_streams` that of tracking data, and each of these
generators schedules itself again. The client's `session_end` also schedules a
`session_reboot` for the time the next session starts, which configures the streams once more.

- What is kept of each side is whether it streams, and what its generators decide on. The
  packets they send are left out, as are bandwidth probes and the network's events, which
  neither stream nor schedule a generator.
- The socket builders of both sides never fail.
- Times are in nanoseconds, sessions in seconds; what the source computes in floating point
  is computed in exact rationals. No result: the program aborts.
-/

namespace SiestaVR.Xr

open Lib Emu

/-- The fixed parameters of a client and its server. -/
structure XrConfig where
  fps : ℚ
  framerate : ℚ
  tVsync : Nat
  noUplinkTracking : Bool
deriving DecidableEq, Repr

/-! ## The client -/

/-- The events of `XRClient`. -/
inductive ClientTask
  | configureStreams
  | vsync
  | sessionEnd (pauseTime : ℚ)
  | sessionReboot
  | videoReceiveThread
  | generateTrackingData
deriving DecidableEq, Repr

/-- `XRClient`. -/
structure XrClient where
  isStreaming : Bool
deriving DecidableEq, Repr

namespace XrClient

/-- `generate_tracking_data`. -/
def generateTrackingData (cfg : XrConfig) (now : Nat) (c : XrClient) :
    Option (XrClient × List (Nat × ClientTask)) :=
  if c.isStreaming then
    (Duration.fromQuotient 1 (cfg.framerate * 3)).map fun loopDeadline =>
      (c, [(now + loopDeadline, .generateTrackingData)])
  else some (c, [])

/-- `configure_streams`. -/
def configureStreams (cfg : XrConfig) (now : Nat) (c : XrClient) :
    Option (XrClient × List (Nat × ClientTask)) :=
  let c := { c with isStreaming := true }
  if cfg.noUplinkTracking then some (c, []) else c.generateTrackingData cfg now

/-- `session_end`. -/
def sessionEnd (now : Nat) (pauseTime : ℚ) (c : XrClient) :
    Option (XrClient × List (Nat × ClientTask)) :=
  (Duration.fromSecsF64 pauseTime).map fun delay =>
    ({ c with isStreaming := false }, [(now + max delay 1, .sessionReboot)])

/-- `session_reboot`. -/
def sessionReboot (cfg : XrConfig) (now : Nat) (c : XrClient) :
    Option (XrClient × List (Nat × ClientTask)) :=
  (c.configureStreams cfg now).map fun (c, out) =>
    (c, out ++ [(now + 10000000, .videoReceiveThread)])

/-- The events of the client. -/
def handle (cfg : XrConfig) : Handler ClientTask XrClient
  | now, .configureStreams, c => c.configureStreams cfg now
  -- `vsync` goes on whether there is a session or not.
  | now, .vsync, c => some (c, [(now + cfg.tVsync, .vsync)])
  | now, .sessionEnd pauseTime, c => c.sessionEnd now pauseTime
  | now, .sessionReboot, c => c.sessionReboot cfg now
  | _, .videoReceiveThread, c => some (c, [])
  | now, .generateTrackingData, c => c.generateTrackingData cfg now

end XrClient

/-! ## The server -/

/-- The events of `XRServer`. -/
inductive ServerTask
  | connectionPipeline
  | sessionEnd
  | generateVideoFrame
  | generateAudioFrame
deriving DecidableEq, Repr

/-- `XRServer`: whether it streams, and whether it has a `video_app_sender`. -/
structure XrServer where
  isStreaming : Bool
  videoAppSender : Bool
deriving DecidableEq, Repr

namespace XrServer

/-- `generate_audio_frame`, which goes on with or without a sender. -/
def generateAudioFrame (now : Nat) (s : XrServer) : XrServer × List (Nat × ServerTask) :=
  (s, [(now + 10000000, .generateAudioFrame)])

/-- The time until the next frame, for a random `epsilon` within a millisecond. -/
def timeUntilNextFrame (cfg : XrConfig) (epsilon : ℚ) : Option Nat :=
  if cfg.fps = 0 then none
  else Duration.fromSecsF64 (max (1 / cfg.fps + epsilon) (1 / 2 * (1 / cfg.fps)))

/-- `generate_video_frame`. -/
def generateVideoFrame (cfg : XrConfig) (epsilon : ℚ) (now : Nat) (s : XrServer) :
    Option (XrServer × List (Nat × ServerTask)) :=
  if s.videoAppSender then
    (timeUntilNextFrame cfg epsilon).map fun delay => (s, [(now + delay, .generateVideoFrame)])
  -- The session ended when this frame was already scheduled.
  else some (s, [])

/-- `connection_pipeline`. -/
def connectionPipeline (cfg : XrConfig) (epsilon : ℚ) (now : Nat) (s : XrServer) :
    Option (XrServer × List (Nat × ServerTask)) :=
  let s := { s with isStreaming := true, videoAppSender := true }
  (s.generateVideoFrame cfg epsilon now).map fun (s, video) =>
    let (s, audio) := s.generateAudioFrame now
    (s, video ++ audio)

/-- `session_end`. -/
def sessionEnd (s : XrServer) : XrServer := { s with isStreaming := false, videoAppSender := false }

/-- The events of the server, for the random number of the next frame. -/
def handle (cfg : XrConfig) (epsilon : ℚ) : Handler ServerTask XrServer
  | now, .connectionPipeline, s => s.connectionPipeline cfg epsilon now
  | _, .sessionEnd, s => some (s.sessionEnd, [])
  | now, .generateVideoFrame, s => s.generateVideoFrame cfg epsilon now
  | now, .generateAudioFrame, s => some (s.generateAudioFrame now)

end XrServer

/-! ## The driver -/

/-- A client, its server, and the time of the simulation. -/
structure Pair where
  client : Node ClientTask XrClient
  server : Node ServerTask XrServer
  time : Nat

/-- Neither side streams, and nothing is scheduled. -/
def Pair.new : Pair := ⟨.new ⟨false⟩, .new ⟨false, false⟩, 0⟩

/-- `pause_after`, from the sessions that follow. -/
def pauseAfter (stop : ℚ) : List (ℚ × ℚ) → ℚ
  | (nextStart, _) :: _ => if nextStart - stop < 0 then 0 else nextStart - stop
  | [] => 0

/-- The loop of `run_sim` over the sessions of a pair. -/
def scheduleSessions (hasScheduledVsync : Bool) : List (ℚ × ℚ) → Pair → Option Pair
  | [], p => some p
  | (start, stop) :: rest, p => do
    let startTime ← Duration.fromSecsF64 start
    let stopTime ← Duration.fromSecsF64 stop
    let client ← p.client.scheduleAll 0
      ((startTime, .configureStreams) ::
        (if hasScheduledVsync then [] else [(startTime, .vsync)]) ++
          [(stopTime, .sessionEnd (pauseAfter stop rest))])
    let server ← p.server.scheduleAll 0
      [(startTime, .connectionPipeline), (stopTime, .sessionEnd)]
    scheduleSessions true rest { p with client := client, server := server }

/-- `run_sim`: the pair when the simulation starts. -/
def runSim (sessions : List (ℚ × ℚ)) : Option Pair :=
  scheduleSessions false (sessions.insertionSort fun a b => a.1 ≤ b.1) .new

/-! ## Runs -/

/-- The side that runs an event, and the random number the server uses. -/
inductive Turn
  | client
  | server (epsilon : ℚ)

/-- The time of the event. -/
def Pair.due (p : Pair) : Turn → Option Nat
  | .client => p.client.due
  | .server _ => p.server.due

/-- One event. No result: there is none, the other side has an earlier one, or the program
aborts. Events of both sides at the same time run in any order. -/
def Pair.step (cfg : XrConfig) (p : Pair) : Turn → Option Pair
  | .client => p.client.due.bind fun t =>
    if ∀ t' ∈ p.server.due, t ≤ t' then
      (p.client.turn (XrClient.handle cfg)).map fun client => { p with client := client, time := t }
    else none
  | .server epsilon => p.server.due.bind fun t =>
    if ∀ t' ∈ p.client.due, t ≤ t' then
      (p.server.turn (XrServer.handle cfg epsilon)).map fun server =>
        { p with server := server, time := t }
    else none

end SiestaVR.Xr
