import SiestaVR.Lib.Tables
import SiestaVR.Stream.Sender
import Mathlib.Data.Finset.Card

/-!
# The receiving socket (lib/alvr_stream_socket.rs:1557–1790, 2011–2060, 2080–2680)

`StreamSocket.recv` reads one shard. It parses the prefix, keeps the video
statistics, finds or opens the packet the shard belongs to, writes the shard into
the packet's buffer, hands the packet to the application when all its shards are
there, and then gives up every packet whose deadline has passed
(`sweepExpiredDeadlines`).

- Times are nanoseconds since `TaiTime::EPOCH`. `genInstant` is the generation
  time that a prefix's float stands for, when it is in the range of `TaiTime`.
- Visiting the entries of a hash table happens in an order the program does not
  fix; it is an argument (`IterOrder`) wherever it can matter.
- The jitter, delay and Kalman estimates, all floats, are left out. Nothing here
  depends on them.
- `should_discard` is set to false for every shard, so the sink for discarded
  shards never receives one and is left out too.
- No result of `recv` stands for a panic, or for a read loop that never ends.
-/

namespace SiestaVR.Stream

open Lib

/-- The settings `recv` reads. -/
structure SocketConfig where
  maxPacketSize : Nat
  /-- `client_deadline::deadline()`. -/
  deadline : Nat
  /-- `client_deadline::anchor_first()`. -/
  anchorFirst : Bool
  /-- `nada_fix()`. -/
  nadaFix : Bool
  genInstant : UInt32 → Option Nat

/-- `DEADLINE_PACKETS_S`. -/
def deadlinePackets : Nat := 60000000

/-- `MAX_DEADLINE_IN_STATS`. -/
def maxDeadlineInStats : Nat := 10

/-- `ALVR_ORIGINAL_SOCKETRX_BEHAVIOR`. -/
def alvrOriginalSocketrxBehavior : Bool := false

/-- The orders in which hash tables are visited. -/
structure IterOrder where
  streams : Shuffle UInt16
  packets : Shuffle UInt32

/-- Every table in the order of its list. -/
def IterOrder.id : IterOrder := ⟨Shuffle.id, Shuffle.id⟩

/-! ## State -/

/-- `ShardMapStats`. -/
structure ShardMapStats where
  txInstant : UInt32
  rxInstant : Nat
  rxBytes : Nat
  rxBytesApp : Nat

/-- `InProgressPacket`. -/
structure InProgressPacket where
  buffer : Bytes
  bufferLength : Nat
  receivedShardIndices : Finset Nat
  deadline : Option Nat
  numShardsExpected : Nat
  idFrame : UInt32

/-- `ReconstructedPacket`. -/
structure ReconstructedPacket where
  index : UInt32
  buffer : Bytes
  size : Nat
  frameIndex : UInt32
  shardsInFrame : Nat
  rxBytes : Nat
  bytesInFrame : Nat
  bytesInFrameApp : Nat
  rxShardCounter : Nat
  duplicatedShardCounter : Nat
  highestRxFrameIndex : Int
  highestRxShardIndex : Int

/-- `StreamRecvComponents`: the pool of free buffers, the queue to the application
and the packets not yet complete. -/
structure StreamRecvComponents where
  usedBuffers : List Bytes
  packetQueue : Channel ReconstructedPacket
  inProgressPackets : Table UInt32 InProgressPacket

/-- `RecvState`: the shard being read. Its cursor and its backup are only used
within one call, see `InProgressPacket.readShard`. -/
structure RecvState where
  header : ShardHeader
  frameDeadline : Option Nat

/-- `StreamSocket`. -/
structure StreamSocket where
  shardRecvState : Option RecvState
  streamRecvComponents : Table UInt16 StreamRecvComponents
  mapRx : Table UInt32 (Table Nat ShardMapStats)
  rxBytes : Nat
  rxShardCounter : Nat
  duplicatedShardCounter : Nat
  highestRxFrameIndex : Int
  highestRxShardIndex : Int
  lostShardsDeadlineMap : Table UInt32 Nat
  lostShardsExpectedMap : Table UInt32 Nat

/-- `StreamSocketBuilder::build`. -/
def StreamSocket.build : StreamSocket where
  shardRecvState := none
  streamRecvComponents := ∅
  mapRx := ∅
  rxBytes := 0
  rxShardCounter := 0
  duplicatedShardCounter := 0
  highestRxFrameIndex := -1
  highestRxShardIndex := -1
  lostShardsDeadlineMap := ∅
  lostShardsExpectedMap := ∅

namespace StreamSocket

/-- `subscribe_to_stream`. -/
def subscribeToStream (s : StreamSocket) (streamId : UInt16) (maxConcurrentBuffers : Nat) :
    StreamSocket :=
  { s with
    streamRecvComponents := s.streamRecvComponents.insert streamId
      { usedBuffers := List.replicate maxConcurrentBuffers []
        packetQueue := .empty
        inProgressPackets := ∅ } }

/-! ## Parsing a shard -/

/-- The statistics of a video shard. The casts to `i32` wrap. -/
def noteVideoShard (s : StreamSocket) (now : Nat) (h : ShardHeader) : StreamSocket :=
  let frame := h.packetIndex.toInt32.toInt
  let shard := (Int32.ofNat h.shardIndex).toInt
  let s :=
    if s.highestRxFrameIndex = frame then
      if s.highestRxShardIndex < shard then { s with highestRxShardIndex := shard } else s
    else if s.highestRxFrameIndex < frame then
      { s with highestRxFrameIndex := frame, highestRxShardIndex := shard }
    -- a shard of an earlier frame moves neither mark
    else s
  let packet : ShardMapStats :=
    { txInstant := h.txInstant
      rxInstant := now
      rxBytes := h.shardLength % 2 ^ 32
      rxBytesApp := (h.shardLength - shardPrefixSize) % 2 ^ 32 }
  let shardsMap := (s.mapRx.lookup h.packetIndex).getD ∅
  let s :=
    -- only the first copy of a shard is kept and counted, but all its copies' bytes are
    if h.shardIndex ∈ shardsMap then
      { s with duplicatedShardCounter := s.duplicatedShardCounter + 1 }
    else
      { s with
        mapRx := s.mapRx.insert h.packetIndex (shardsMap.insert h.shardIndex packet)
        rxShardCounter := s.rxShardCounter + 1 }
  { s with rxBytes := s.rxBytes + h.shardLength % 2 ^ 32 }

/-- `frame_deadline`: the deadline counted from when the frame was generated. -/
def frameDeadline (cfg : SocketConfig) (h : ShardHeader) : Option Nat :=
  (cfg.genInstant h.txInstant).map (· + cfg.deadline)

end StreamSocket

/-! ## Opening a packet -/

/-- The deadline a packet gets when its first shard arrives. -/
def packetDeadline (cfg : SocketConfig) (now : Nat) (st : RecvState) : Option Nat :=
  if cfg.anchorFirst then some (now + cfg.deadline) else st.frameDeadline

/-- A packet of which no shard has been read yet. -/
def InProgressPacket.fresh (cfg : SocketConfig) (now : Nat) (st : RecvState) (buffer : Bytes) :
    InProgressPacket where
  buffer := buffer
  bufferLength := 0
  receivedShardIndices := ∅
  deadline := packetDeadline cfg now st
  numShardsExpected := st.header.shardsCount
  idFrame := st.header.packetIndex

namespace StreamRecvComponents

/-- The packet whose buffer is taken for packet `packetIndex`, more than five
indices older, if there is one. -/
def recyclable (c : StreamRecvComponents) (order : IterOrder) (packetIndex : UInt32) :
    Option UInt32 :=
  (order.packets.order c.inProgressPackets.keys).find? fun idx =>
    wrappingCmp idx (packetIndex - 5) == .lt

/-- A buffer for a new packet: from the pool, else that of an old packet, which is
given up, else a new one. Buffers keep their contents. -/
def takeBuffer (c : StreamRecvComponents) (order : IterOrder) (packetIndex : UInt32) :
    Bytes × StreamRecvComponents :=
  match c.usedBuffers with
  | buffer :: rest => (buffer, { c with usedBuffers := rest })
  | [] =>
    match c.recyclable order packetIndex with
    | some idx =>
      -- unlike a sweep, this leaves nothing in the loss tables
      (((c.inProgressPackets.lookup idx).map (·.buffer)).getD [],
        { c with inProgressPackets := c.inProgressPackets.erase idx })
    | none => ([], c)

/-- The packet a shard belongs to is looked up, or opened. -/
def openPacket (cfg : SocketConfig) (now : Nat) (order : IterOrder) (st : RecvState)
    (c : StreamRecvComponents) : InProgressPacket × StreamRecvComponents :=
  match c.inProgressPackets.lookup st.header.packetIndex with
  -- the packet keeps the deadline and the number of shards of its first shard
  | some packet => (packet, c)
  | none =>
    let (buffer, c) := c.takeBuffer order st.header.packetIndex
    let packet := InProgressPacket.fresh cfg now st buffer
    (packet, { c with
      inProgressPackets := c.inProgressPackets.insert st.header.packetIndex packet })

end StreamRecvComponents

/-! ## Reading a shard into its packet -/

/-- `while packet_cursor < shard_length { … }`, on the part of the buffer where the
shard begins. Every round takes one message; without one the loop never ends, so
the number of messages bounds the rounds of a loop that does. -/
def readLoop (shardLength : Nat) :
    Nat → BufferedReceiver → Bytes → Nat → Option (Bytes × BufferedReceiver)
  | 0, _, _, _ => none
  | fuel + 1, r, sub, cursor =>
    if cursor < shardLength then
      match r.recv (shardLength - cursor) with
      -- `recv(..).unwrap()`
      | (.error _, _) => none
      | (.ok data, r) => readLoop shardLength fuel r (splice sub cursor data) (cursor + data.length)
    else some (sub, r)

/-- The shard is read over the place where it belongs, prefix included, and the
bytes that the prefix has overwritten are put back. -/
def InProgressPacket.readShard (cfg : SocketConfig) (st : RecvState) (r : BufferedReceiver)
    (p : InProgressPacket) : Option (InProgressPacket × BufferedReceiver) :=
  -- no offset for the prefix: it is written too
  let start := st.header.shardIndex * maxShardDataSize cfg.maxPacketSize
  let bufferLength := max p.bufferLength (start + st.header.shardLength)
  let buffer := grow p.buffer bufferLength 0
  let sub := buffer.drop start
  -- `sub_buffer[..SHARD_PREFIX_SIZE]` is out of range
  if sub.length < shardPrefixSize then none
  else
    let backup := sub.take shardPrefixSize
    (readLoop st.header.shardLength (r.receiver.length + 3) r sub 0).map fun (sub, r) =>
      ({ p with
          bufferLength := bufferLength
          buffer := buffer.take start ++ splice sub 0 backup
          receivedShardIndices := insert st.header.shardIndex p.receivedShardIndices }, r)

/-! ## Deadlines -/

/-- Whether the packet's deadline has passed. -/
def InProgressPacket.expired (now : Nat) (p : InProgressPacket) : Bool :=
  p.deadline.any (· ≤ now)

/-- `shards_lost`. The subtraction does not underflow as long as the shards of a
packet agree on their number. -/
def InProgressPacket.shardsLost (p : InProgressPacket) : Nat :=
  p.numShardsExpected - p.receivedShardIndices.card

namespace StreamRecvComponents

/-- The packets in progress that meet a condition, with their keys. -/
def packetsWhere (c : StreamRecvComponents) (order : IterOrder)
    (cond : UInt32 → InProgressPacket → Bool) : List (UInt32 × InProgressPacket) :=
  (order.packets.order c.inProgressPackets.keys).filterMap fun id =>
    (c.inProgressPackets.lookup id).bind fun p => if cond id p then some (id, p) else none

/-- The packets in progress whose deadline has passed. -/
def expiredPackets (c : StreamRecvComponents) (order : IterOrder) (now : Nat) :
    List (UInt32 × InProgressPacket) :=
  c.packetsWhere order fun _ p => p.expired now

/-- Packets are given up. For each that has a buffer, an empty one goes back to the
pool. -/
def dropPackets (c : StreamRecvComponents) (ps : List (UInt32 × InProgressPacket)) :
    StreamRecvComponents :=
  { c with
    inProgressPackets := Table.eraseAll (ps.map (·.1)) c.inProgressPackets
    usedBuffers := c.usedBuffers ++ (ps.filter fun x => !x.2.buffer.isEmpty).map fun _ => [] }

end StreamRecvComponents

namespace StreamSocket

/-- The shards of given-up packets are entered in the loss tables. -/
def recordLost (cfg : SocketConfig) (ps : List (UInt32 × InProgressPacket)) (s : StreamSocket) :
    StreamSocket :=
  { s with
    lostShardsDeadlineMap :=
      Table.insertAll (·.2.idFrame) (·.2.shardsLost) ps s.lostShardsDeadlineMap
    lostShardsExpectedMap :=
      if cfg.nadaFix then
        Table.insertAll (·.2.idFrame) (·.2.numShardsExpected) ps s.lostShardsExpectedMap
      else s.lostShardsExpectedMap }

/-- One round of the outer loop of the sweep. -/
def sweepStream (cfg : SocketConfig) (order : IterOrder) (now : Nat) (s : StreamSocket)
    (streamId : UInt16) : StreamSocket :=
  match s.streamRecvComponents.lookup streamId with
  | none => s
  | some c =>
    let expired := c.expiredPackets order now
    let s := s.recordLost cfg expired
    { s with
      streamRecvComponents := s.streamRecvComponents.insert streamId (c.dropPackets expired) }

/-- `sweep_expired_deadlines`: in every stream, the packets whose deadline has
passed are given up and their missing shards recorded. The loss tables are shared
by all streams. -/
def sweepExpiredDeadlines (cfg : SocketConfig) (order : IterOrder) (now : Nat) (s : StreamSocket) :
    StreamSocket :=
  (order.streams.order s.streamRecvComponents.keys).foldl (sweepStream cfg order now) s

/-- `lost_shards_deadline_map.drain()`. -/
def drained (order : Shuffle (UInt32 × Nat)) (lost : Table UInt32 Nat) : List (UInt32 × Nat) :=
  order.order (lost.entries.map fun e => (e.1, e.2))

/-- `flush_shards_lost_deadline`: the recorded frames and their lost shards. -/
def flushShardsLostDeadline (order : Shuffle (UInt32 × Nat)) (s : StreamSocket) :
    (List UInt32 × List Nat) × StreamSocket :=
  let losses := drained order s.lostShardsDeadlineMap
  ((losses.map (·.1), losses.map (·.2)), { s with lostShardsDeadlineMap := ∅ })

/-- `flush_shards_expected_deadline`, without the sum it returns. -/
def flushShardsExpectedDeadline (s : StreamSocket) : StreamSocket :=
  { s with lostShardsExpectedMap := ∅ }

/-! ## Receiving -/

/-- The packet handed to the application. -/
def reconstruct (s : StreamSocket) (st : RecvState) (p : InProgressPacket) :
    ReconstructedPacket :=
  let values := if st.header.streamId = video then
      ((s.mapRx.lookup st.header.packetIndex).getD ∅).entries.map (·.2)
    else []
  { index := st.header.packetIndex
    buffer := p.buffer
    size := p.bufferLength
    frameIndex := st.header.packetIndex
    shardsInFrame := st.header.shardsCount
    rxBytes := s.rxBytes
    bytesInFrame := (values.map (·.rxBytes)).sum
    bytesInFrameApp := (values.map (·.rxBytesApp)).sum
    rxShardCounter := s.rxShardCounter
    duplicatedShardCounter := s.duplicatedShardCounter
    highestRxFrameIndex := s.highestRxFrameIndex
    highestRxShardIndex := s.highestRxShardIndex }

/-- After a video frame the counters start anew, and only the statistics of the
latest frames are kept. -/
def resetVideoCounters (s : StreamSocket) (packetIndex : UInt32) : StreamSocket :=
  { s with
    rxBytes := 0
    rxShardCounter := 0
    duplicatedShardCounter := 0
    mapRx := Table.eraseAll
      (s.mapRx.keys.filter fun idx => wrappingCmp (idx + 5) packetIndex == .lt) s.mapRx }

/-- A complete packet goes to the application, and an empty buffer to the pool. -/
def completePacket (s : StreamSocket) (st : RecvState) (c : StreamRecvComponents)
    (p : InProgressPacket) : StreamSocket :=
  let c := { c with
    packetQueue := c.packetQueue.send (s.reconstruct st p)
    inProgressPackets := c.inProgressPackets.erase st.header.packetIndex
    usedBuffers := c.usedBuffers ++ [[]] }
  let s := { s with
    streamRecvComponents := s.streamRecvComponents.insert st.header.streamId c }
  if st.header.streamId = video then s.resetVideoCounters st.header.packetIndex else s

/-- The packets older than the one just received are given up and recorded as
lost. Their buffers go back to the pool as they are. -/
def discardOlder (cfg : SocketConfig) (order : IterOrder) (st : RecvState) (s : StreamSocket) :
    StreamSocket :=
  match s.streamRecvComponents.lookup st.header.streamId with
  | none => s
  | some c =>
    let older := c.packetsWhere order fun idx _ => wrappingCmp idx st.header.packetIndex == .lt
    let s := s.recordLost cfg older
    { s with
      streamRecvComponents := s.streamRecvComponents.insert st.header.streamId
        { c with
          inProgressPackets := Table.eraseAll (older.map (·.1)) c.inProgressPackets
          usedBuffers := c.usedBuffers ++ older.map (·.2.buffer) } }

/-- The shard has been read into its packet `p`: it is handed on if complete, then
expired packets are given up. -/
def settleShard (cfg : SocketConfig) (now : Nat) (order : IterOrder) (st : RecvState)
    (c : StreamRecvComponents) (p : InProgressPacket) (s : StreamSocket) : StreamSocket :=
  let s :=
    if p.receivedShardIndices.card = st.header.shardsCount then s.completePacket st c p
    else
      { s with
        streamRecvComponents := s.streamRecvComponents.insert st.header.streamId
          { c with
            inProgressPackets := c.inProgressPackets.insert st.header.packetIndex p } }
  -- the shard has been filed by now, also if its packet is past the deadline
  let s := s.sweepExpiredDeadlines cfg order now
  let s := if alvrOriginalSocketrxBehavior then s.discardOlder cfg order st else s
  { s with shardRecvState := none }

/-- The part of `recv` after the prefix. A shard of a stream without subscriber is
kept for the next call. -/
def recvShard (cfg : SocketConfig) (now : Nat) (order : IterOrder) (st : RecvState)
    (s : StreamSocket) (r : BufferedReceiver) :
    Option (Except ConnectionError Unit × StreamSocket × BufferedReceiver) :=
  match s.streamRecvComponents.lookup st.header.streamId with
  | none => some (.error .tryAgain, s, r)
  | some c =>
    let (packet, c) := c.openPacket cfg now order st
    (packet.readShard cfg st r).map fun (packet, r) =>
      (.ok (), s.settleShard cfg now order st c packet, r)

/-- `recv`. -/
def recv (cfg : SocketConfig) (now : Nat) (order : IterOrder) (s : StreamSocket)
    (r : BufferedReceiver) :
    Option (Except ConnectionError Unit × StreamSocket × BufferedReceiver) :=
  match s.shardRecvState with
  | some st => s.recvShard cfg now order st r
  | none =>
    match r.peekPrefix shardPrefixSize maxPacketSizeRecv with
    -- `peek_prefix(..).unwrap()`: among others, a message above `maxPacketSizeRecv`
    | (.error _, _) => none
    | (.ok (count, bytes), r) =>
      if count < shardPrefixSize then some (.error .tryAgain, s, r)
      else
        let h := ShardHeader.decode bytes
        -- the payload length of the statistics underflows
        if h.streamId = video ∧ h.shardLength < shardPrefixSize then none
        else
          let s := if h.streamId = video then s.noteVideoShard now h else s
          let st : RecvState := ⟨h, frameDeadline cfg h⟩
          recvShard cfg now order st { s with shardRecvState := some st } r

end StreamSocket

end SiestaVR.Stream
