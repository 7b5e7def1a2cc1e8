import SiestaVR.Lib.Runs
import SiestaVR.Stream.Socket

/-!
# One session of a receiving socket (lib/models_XR.rs:6170–6335, 6689–6705, 6964–7060)

A session is a socket, the channel in front of it and the loss reports sent to the
other side. Four things happen to it, in any order and at any times:

- a shard arrives from the network (`in_from_network`: it is put on the channel
  and `StreamSocket::recv` is called),
- expired packets are given up (the start of `vsync`),
- the recorded losses are flushed and reported (`video_receive_thread` and
  `vsync`),
- the application takes a reconstructed packet (`StreamReceiver::recv`). The
  callers work on copies of the reading end, so a read names the copy it uses.
-/

namespace SiestaVR.Stream

open Lib

/-! ## The reading end of a stream (lib/alvr_stream_socket.rs:2925–3008) -/

/-- `StreamReceiver`, without the queue it shares with the socket. -/
structure StreamReceiver where
  lastPacketIndex : Option UInt32
  rxBytes : Nat
  rxShardCounter : Nat
  duplicatedShardCounter : Nat

/-- The reading end that `subscribe_to_stream` returns. -/
def StreamReceiver.new : StreamReceiver := ⟨none, 0, 0, 0⟩

/-- `ReceiverData`. -/
structure ReceiverData where
  buffer : Bytes
  size : Nat
  hadPacketLoss : Bool
  frameIndex : UInt32
  rxBytes : Nat
  bytesInFrame : Nat
  bytesInFrameApp : Nat
  framesSkipped : UInt32
  rxShardCounter : Nat
  duplicatedShardCounter : Nat
  highestRxFrameIndex : Int
  highestRxShardIndex : Int
  shardsInFrame : Nat

/-- What a reader makes of a packet, after the index of the last one it returned. -/
inductive Freshness
  | expected
  | skipped (frames : UInt32)
  | old

/-- The comparison of `StreamReceiver::recv`. No result: the number of skipped
frames underflows. -/
def freshness (last : Option UInt32) (index : UInt32) : Option Freshness :=
  match last with
  | none => some .expected
  | some last =>
    match wrappingCmp index (last + 1) with
    | .eq => some .expected
    | .gt => if index < last + 1 then none else some (.skipped (index - (last + 1)))
    | .lt => some .old

/-- `StreamReceiver::recv`. The buffer of a packet discarded as old goes back to the
pool. -/
def StreamReceiver.recv (reader : StreamReceiver) (c : StreamRecvComponents) :
    Option (Except ConnectionError ReceiverData × StreamReceiver × StreamRecvComponents) :=
  match c.packetQueue.tryRecv with
  | none => some (.error .tryAgain, reader, c)
  | some (packet, queue) =>
    let c := { c with packetQueue := queue }
    let reader := { reader with
      rxBytes := reader.rxBytes + packet.rxBytes
      rxShardCounter := reader.rxShardCounter + packet.rxShardCounter
      duplicatedShardCounter := reader.duplicatedShardCounter + packet.duplicatedShardCounter }
    let accept := fun (hadPacketLoss : Bool) (framesSkipped : UInt32) =>
      (.ok
        { buffer := packet.buffer
          size := packet.size
          hadPacketLoss := hadPacketLoss
          frameIndex := packet.frameIndex
          rxBytes := reader.rxBytes
          bytesInFrame := packet.bytesInFrame
          bytesInFrameApp := packet.bytesInFrameApp
          framesSkipped := framesSkipped
          rxShardCounter := reader.rxShardCounter
          duplicatedShardCounter := reader.duplicatedShardCounter
          highestRxFrameIndex := packet.highestRxFrameIndex
          highestRxShardIndex := packet.highestRxShardIndex
          shardsInFrame := packet.shardsInFrame },
        { lastPacketIndex := some packet.index
          rxBytes := 0
          rxShardCounter := 0
          duplicatedShardCounter := 0 }, c)
    (freshness reader.lastPacketIndex packet.index).map fun
      | .expected => accept false 0
      | .skipped frames => accept true frames
      -- the counters of a packet that is discarded stay for the next one
      | .old => (.error .tryAgain, reader,
          { c with usedBuffers := c.usedBuffers ++ [packet.buffer] })

/-! ## Sessions -/

/-- `DeadlineShardlossStatPacket`: frames lost, and the shards lost of each. -/
structure DeadlineShardlossStat where
  frameIndexes : List UInt32
  shardsLost : List Nat
deriving DecidableEq, Repr

/-- The losses in a report, as the server reads them
(lib/models_XR.rs:3986–4013: one frame and so many shards for each pair). -/
def DeadlineShardlossStat.losses (r : DeadlineShardlossStat) : List (UInt32 × Nat) :=
  r.frameIndexes.zip r.shardsLost

/-- The state of a session. -/
structure Session where
  socket : StreamSocket
  channel : BufferedReceiver
  reports : List DeadlineShardlossStat

/-- What can happen in a session. -/
inductive Event
  | shard (message : Bytes) (now : Nat) (order : IterOrder)
  | sweep (now : Nat) (order : IterOrder)
  | flush (order : Shuffle (UInt32 × Nat))
  | read (streamId : UInt16) (reader : StreamReceiver)

/-- `report_frame_lost`: only the first losses fit the report. -/
def reportFrameLost (frames : List UInt32) (shardsLost : List Nat) (s : Session) : Session :=
  { s with
    reports := s.reports ++ [⟨frames.take maxDeadlineInStats, shardsLost.take maxDeadlineInStats⟩] }

/-- Flushing, as `video_receive_thread` and `vsync` do it. -/
def flushLosses (cfg : SocketConfig) (order : Shuffle (UInt32 × Nat)) (s : Session) : Session :=
  let ((frames, shardsLost), socket) := s.socket.flushShardsLostDeadline order
  let socket := if cfg.nadaFix then socket.flushShardsExpectedDeadline else socket
  -- the tables are empty now, whether or not the losses fit the report
  let s := { s with socket := socket }
  if frames = [] then s else reportFrameLost frames shardsLost s

/-- One event. No result: the program panics, or never returns. -/
def step (cfg : SocketConfig) (s : Session) : Event → Option Session
  | .shard message now order =>
    (s.socket.recv cfg now order (s.channel.sendShared message)).map fun (_, socket, channel) =>
      { s with socket := socket, channel := channel }
  | .sweep now order => some { s with socket := s.socket.sweepExpiredDeadlines cfg order now }
  | .flush order => some (flushLosses cfg order s)
  | .read streamId reader =>
    match s.socket.streamRecvComponents.lookup streamId with
    | none => some s
    | some c => (reader.recv c).map fun (_, _, c) =>
      { s with socket := { s.socket with
          streamRecvComponents := s.socket.streamRecvComponents.insert streamId c } }

/-- The losses reported so far. -/
def Session.reported (s : Session) : List (UInt32 × Nat) :=
  s.reports.flatMap (·.losses)

/-- A session with subscriptions to some streams, in which nothing has happened. -/
def Session.start (streams : List UInt16) (maxConcurrentBuffers : Nat) : Session where
  socket := streams.foldl (fun s id => s.subscribeToStream id maxConcurrentBuffers) .build
  channel := .empty
  reports := []

end SiestaVR.Stream
