import SiestaVR.Lib.Agenda
import SiestaVR.Stream.DeadlineEnforcement

/-!
# The receiving client (lib/models_XR.rs:4820–4872, 5772–5835, 6202–6215, 6300–6345,
6541–6605, 6689–6775, 6963–7060)

`XRClient` in one session. The network hands it batches of packets; each is filed by
the socket, and for each a `video_receive_thread` event is scheduled 10 ns later, which
takes one reconstructed packet out of the queue and pushes it to the decoder. `vsync`
gives up expired packets and takes a frame from the decoder queue.

- The socket, its channel and the loss reports are a `Session`.
- The reading end of the video stream is copied for every use, here as in the program:
  what a read changes in the copy is gone when the event ends.
- The scheduled events are on the `agenda`. `vsync` and network events come at any time
  that leaves no scheduled event behind.
- `pushed` remembers the frames pushed to the decoder queue and the statistics packet
  sent for each.
- The float estimates of a statistics packet, the decoding of frames, and the echo of
  bandwidth probes are left out.
-/

namespace SiestaVR.Stream

open Lib

/-- `HAPTICS`. -/
def haptics : UInt16 := 1

/-- `AUDIO`. -/
def audio : UInt16 := 2

/-- `MAX_UNREAD_PACKETS`. -/
def maxUnreadPackets : Nat := 5

/-- `DECODER_BUFFERING_FRAMES`, also `TARGET_FRAMES_DECODER_QUEUE`. -/
def decoderBufferingFrames : Nat := 3

/-- The delay with which received packets are read. -/
def receiveDelay : Nat := 10

/-! ## State -/

/-- `DroppingVecDeque`. -/
structure DroppingVecDeque (α : Type) where
  deque : List α
  capacity : Nat
  droppedFrameCounter : Nat
  okDequedFrameCounter : Nat
  enquedFrameCounter : Nat

namespace DroppingVecDeque

variable {α : Type}

def new (capacity : Nat) : DroppingVecDeque α := ⟨[], capacity, 0, 0, 0⟩

/-- `push`: at capacity the oldest entry makes room. -/
def push (q : DroppingVecDeque α) (a : α) : DroppingVecDeque α :=
  let q := { q with enquedFrameCounter := q.enquedFrameCounter + 1 }
  let q :=
    if q.deque.length = q.capacity then
      { q with deque := q.deque.tail, droppedFrameCounter := q.droppedFrameCounter + 1 }
    else q
  { q with deque := q.deque ++ [a] }

/-- `pop`. The counter also counts attempts on an empty queue. -/
def pop (q : DroppingVecDeque α) : Option α × DroppingVecDeque α :=
  (q.deque.head?,
    { q with deque := q.deque.tail, okDequedFrameCounter := q.okDequedFrameCounter + 1 })

end DroppingVecDeque

/-- `MpduPacket`, as the client reads it: the stream in its header and the shard. -/
structure MpduPacket where
  streamId : UInt16
  dataInner : Bytes

/-- `NetworkStatisticsPacket`. -/
structure NetworkStatisticsPacket where
  frameIndex : Int
  bytesInFrame : Nat
  bytesInFrameApp : Nat
  framesSkipped : UInt32
  rxBytes : Nat
  rxShardCounter : Nat
  duplicatedShardCounter : Nat
  highestRxFrameIndex : Int
  highestRxShardIndex : Int
  lostShardsDeadline : Nat
  bufferLevelDecoder : Nat

/-- The handlers that the client schedules. -/
inductive Task
  | videoReceiveThread
  | bwProbeReceiveThread
deriving DecidableEq, Repr

/-- `XRClient`. -/
structure Client where
  session : Session
  isStreaming : Bool
  inputAppVideo : Option StreamReceiver
  inputAppAudio : Option StreamReceiver
  inputAppHaptics : Option StreamReceiver
  inputAppBwProbe : Option StreamReceiver
  decoderQueue : DroppingVecDeque (Nat × Bytes)
  jitterBufferWarmupReady : Bool
  agenda : Agenda Task
  pushed : List (Nat × NetworkStatisticsPacket)

/-- The client after `configure_streams`, with what is on its agenda from before. The
probe stream belongs to FovOptix, mode 6. -/
def Client.configureStreams (abrMode : Nat) (agenda : Agenda Task) : Client where
  session := .start ([video, audio, haptics] ++ if abrMode = 6 then [fovoptixBwProbe] else [])
    maxUnreadPackets
  isStreaming := true
  inputAppVideo := some .new
  inputAppAudio := some .new
  inputAppHaptics := some .new
  inputAppBwProbe := if abrMode = 6 then some .new else none
  decoderQueue := .new decoderBufferingFrames
  jitterBufferWarmupReady := false
  agenda := agenda
  pushed := []

/-! ## Receiving from the network -/

namespace Client

/-- A haptics or audio packet is read from the channel and forgotten. -/
def skipMessage (c : Client) (data : Bytes) : Client :=
  { c with session := { c.session with
      channel := ((c.session.channel.sendShared data).recv maxPacketSizeRecv).2 } }

/-- A shard is put on the channel and received by the socket. -/
def receiveShard (cfg : SocketConfig) (order : IterOrder) (data : Bytes) (c : Client) :
    Option Client :=
  (Stream.step cfg c.session (.shard data c.agenda.now order)).map fun s => { c with session := s }

/-- `context.scheduler.schedule_event`. -/
def schedule (c : Client) (delay : Nat) (task : Task) : Client :=
  { c with agenda := c.agenda.schedule delay task }

/-- What a packet of a batch does, before the event is scheduled that reads it. -/
def filePacket (cfg : SocketConfig) (c : Client) (packet : MpduPacket) (order : IterOrder) :
    Option Client :=
  if packet.streamId = haptics then
    some (if c.inputAppHaptics.isSome then c.skipMessage packet.dataInner else c)
  else if packet.streamId = audio then
    some (if c.inputAppAudio.isSome then c.skipMessage packet.dataInner else c)
  else if packet.streamId = video then
    if c.inputAppVideo.isSome then c.receiveShard cfg order packet.dataInner else some c
  else if packet.streamId = fovoptixBwProbe then
    if c.inputAppBwProbe.isSome then
      (c.receiveShard cfg order packet.dataInner).map
        (·.schedule receiveDelay .bwProbeReceiveThread)
    else some c
  else some c

/-- One round of the loop of `in_from_network`. -/
def onPacket (cfg : SocketConfig) (c : Client) (packet : MpduPacket × IterOrder) : Option Client :=
  -- a video read is scheduled for every packet, whatever its stream
  (c.filePacket cfg packet.1 packet.2).map (·.schedule receiveDelay .videoReceiveThread)

/-- `in_from_network`. -/
def inFromNetwork (cfg : SocketConfig) (c : Client) (packets : List (MpduPacket × IterOrder)) :
    Option Client :=
  runs (onPacket cfg) c packets

/-! ## Reading -/

end Client

/-- `ReceiverData::get`. No result: the slice is out of range. -/
def ReceiverData.get (data : ReceiverData) : Option Bytes :=
  if shardPrefixSize + 13 ≤ data.size ∧ data.size ≤ data.buffer.length then
    some ((data.buffer.take data.size).drop (shardPrefixSize + 13))
  else none

/-- The statistics packet for a frame, with `level` frames in the decoder queue. -/
def networkStatistics (data : ReceiverData) (level : Nat) : NetworkStatisticsPacket where
  frameIndex := data.frameIndex.toInt32.toInt
  bytesInFrame := data.bytesInFrame
  bytesInFrameApp := data.bytesInFrameApp
  framesSkipped := data.framesSkipped
  rxBytes := data.rxBytes
  rxShardCounter := data.rxShardCounter
  duplicatedShardCounter := data.duplicatedShardCounter
  highestRxFrameIndex := data.highestRxFrameIndex
  highestRxShardIndex := data.highestRxShardIndex
  lostShardsDeadline := 0
  bufferLevelDecoder := level % 256

namespace Client

/-- The frame goes to the decoder and its statistics to the server. -/
def pushFrame (c : Client) (data : ReceiverData) : Option Client :=
  data.get.map fun nal =>
    { c with
      pushed := c.pushed ++
        [(data.frameIndex.toNat, networkStatistics data c.decoderQueue.deque.length)]
      decoderQueue := c.decoderQueue.push (data.frameIndex.toNat, nal) }

/-- The components of a stream are replaced. -/
def setComponents (c : Client) (streamId : UInt16) (comps : StreamRecvComponents) : Client :=
  { c with session := { c.session with socket := { c.session.socket with
      streamRecvComponents := c.session.socket.streamRecvComponents.insert streamId comps } } }

/-- `video_receive_thread`. -/
def videoReceiveThread (cfg : SocketConfig) (order : Shuffle (UInt32 × Nat)) (c : Client) :
    Option Client :=
  match c.isStreaming, c.inputAppVideo with
  | true, some receiver =>
    let c := { c with session := flushLosses cfg order c.session }
    match c.session.socket.streamRecvComponents.lookup video with
    | none => some c
    | some comps =>
      -- `receiver` is a copy: the index of the packet it returns is not kept
      (receiver.recv comps).bind fun (data, _, comps) =>
        match data with
        | .error _ => some (c.setComponents video comps)
        | .ok data => (c.setComponents video comps).pushFrame data
  | _, _ => some c

/-- `bw_probe_receive_thread`, up to the echo. -/
def bwProbeReceiveThread (cfg : SocketConfig) (c : Client) : Option Client :=
  match c.inputAppBwProbe with
  | none => some c
  | some receiver =>
    (Stream.step cfg c.session (.read fovoptixBwProbe receiver)).map fun s =>
      { c with session := s }

/-- The first steps of `vsync`: expired packets are given up and reported, and a frame is
taken from the decoder queue once that has been full. -/
def vsync (cfg : SocketConfig) (order : IterOrder) (flushOrder : Shuffle (UInt32 × Nat))
    (c : Client) : Client :=
  let s := { c.session with
    socket := c.session.socket.sweepExpiredDeadlines cfg order c.agenda.now }
  let c := { c with session := flushLosses cfg flushOrder s }
  if c.jitterBufferWarmupReady then { c with decoderQueue := c.decoderQueue.pop.2 }
  else
    { c with
      jitterBufferWarmupReady := decide (decoderBufferingFrames ≤ c.decoderQueue.deque.length) }

end Client

/-! ## Runs -/

/-- What happens to a client in a session, and when. -/
inductive ClientEvent
  | network (now : Nat) (packets : List (MpduPacket × IterOrder))
  | videoReceiveThread (now : Nat) (order : Shuffle (UInt32 × Nat))
  | bwProbeReceiveThread (now : Nat)
  | vsync (now : Nat) (order : IterOrder) (flushOrder : Shuffle (UInt32 × Nat))

/-- One event. No result: the event is not due, another one is due before, or the
program panics. -/
def Client.step (cfg : SocketConfig) (c : Client) : ClientEvent → Option Client
  | .network now packets => (c.agenda.advance now).bind fun a =>
    inFromNetwork cfg { c with agenda := a } packets
  | .videoReceiveThread now order => (c.agenda.fire now .videoReceiveThread).bind fun a =>
    videoReceiveThread cfg order { c with agenda := a }
  | .bwProbeReceiveThread now => (c.agenda.fire now .bwProbeReceiveThread).bind fun a =>
    bwProbeReceiveThread cfg { c with agenda := a }
  | .vsync now order flushOrder => (c.agenda.advance now).map fun a =>
    vsync cfg order flushOrder { c with agenda := a }

end SiestaVR.Stream
