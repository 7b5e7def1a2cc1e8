import SiestaVR.Stream.Sweep

/-!
# What receiving a shard does

A well-formed shard of a stream subscribed to, arriving at an idle session, is
always read: `step_shard` gives the session afterwards. It goes through a middle
state, `Filed`: the shard's bytes stand in its packet, which has been handed to
the application if it was the last one missing. The sweep follows.

- `InProgressPacket.place` is the effect on the packet: the shard's payload is
  written where it belongs and nothing else in the buffer changes, because the
  bytes under the prefix are put back (`readShard_eq`).
- A packet may be opened with a buffer from anywhere (`opened`), even with that of
  an older packet that is given up for it (`recycledBy`).
-/

namespace SiestaVR.Stream

open Lib

/-! ## Well-formed shards and idle sessions -/

/-- The prefix of a message. -/
def headerOf (message : Bytes) : ShardHeader := .decode (message.take shardPrefixSize)

/-- A message with a prefix that gives its length, and not too long to be read. -/
structure WellFormed (message : Bytes) : Prop where
  lead_le : shardPrefixSize ≤ message.length
  length_le : message.length ≤ maxPacketSizeRecv
  declared : (headerOf message).shardLength = message.length

instance (message : Bytes) : Decidable (WellFormed message) :=
  decidable_of_iff (shardPrefixSize ≤ message.length ∧ message.length ≤ maxPacketSizeRecv ∧
      (headerOf message).shardLength = message.length)
    ⟨fun h => ⟨h.1, h.2.1, h.2.2⟩, fun h => ⟨h.lead_le, h.length_le, h.declared⟩⟩

/-- No message waits, and no shard has been read in part. -/
structure Session.Idle (s : Session) : Prop where
  reading : s.socket.shardRecvState = none
  channel : s.channel = .empty

/-! ## Reading -/

/-- Where the payload of a shard belongs in its packet. -/
def ShardHeader.payloadStart (cfg : SocketConfig) (h : ShardHeader) : Nat :=
  h.shardIndex * maxShardDataSize cfg.maxPacketSize + shardPrefixSize

/-- Where a shard ends in its packet. -/
def ShardHeader.shardEnd (cfg : SocketConfig) (h : ShardHeader) : Nat :=
  h.shardIndex * maxShardDataSize cfg.maxPacketSize + h.shardLength

/-- A packet with a shard's payload in its place. -/
def InProgressPacket.place (cfg : SocketConfig) (message : Bytes) (p : InProgressPacket) :
    InProgressPacket :=
  let h := headerOf message
  let bufferLength := max p.bufferLength (h.shardEnd cfg)
  { p with
    bufferLength := bufferLength
    buffer := splice (grow p.buffer bufferLength 0) (h.payloadStart cfg)
      (message.drop shardPrefixSize)
    receivedShardIndices := insert h.shardIndex p.receivedShardIndices }

variable {message : Bytes} {s : Session}

/-- The loop reads a whole message in one round. -/
theorem readLoop_message (h : 0 < message.length) (sub : Bytes) (fuel : Nat) :
    readLoop message.length (fuel + 2) ⟨[], some message⟩ sub 0 =
      some (splice sub 0 message, .empty) := by
  simp [readLoop, BufferedReceiver.recv, BufferedReceiver.empty, h]

/-- **Save and restore**: reading a shard over its place, prefix included, and
putting the bytes under the prefix back places its payload. -/
theorem readShard_eq (cfg : SocketConfig) (hwf : WellFormed message)
    (p : InProgressPacket) (deadline : Option Nat) :
    p.readShard cfg ⟨headerOf message, deadline⟩ ⟨[], some message⟩ =
      some (p.place cfg message, .empty) := by
  obtain ⟨hlead, -, hlen⟩ := hwf
  have hpos : 0 < message.length := lt_of_lt_of_le (by decide) hlead
  set start := (headerOf message).shardIndex * maxShardDataSize cfg.maxPacketSize with hstart
  set buffer := grow p.buffer (max p.bufferLength (start + message.length)) 0 with hbuffer
  have hroom : start + message.length ≤ buffer.length := by
    rw [hbuffer, length_grow]
    omega
  have hsub : ¬ (buffer.drop start).length < shardPrefixSize := by
    rw [List.length_drop]
    omega
  have hhead : (message.take shardPrefixSize).length = shardPrefixSize := by
    rw [List.length_take]
    omega
  have hrestore : buffer.take start ++
      splice (splice (buffer.drop start) 0 message) 0 ((buffer.drop start).take shardPrefixSize) =
        splice buffer (start + shardPrefixSize) (message.drop shardPrefixSize) := by
    have h := splice_restore (buffer.drop start) (message.take shardPrefixSize)
      (message.drop shardPrefixSize) 0 (by
        rw [List.take_append_drop, List.length_drop]
        omega)
    rw [List.take_append_drop, hhead, slice, List.drop_zero, Nat.zero_add] at h
    rw [h, take_append_splice_drop]
  simp only [InProgressPacket.readShard, hlen, ← hstart, ← hbuffer, if_neg hsub,
    List.length_nil, Nat.zero_add, readLoop_message hpos, Option.map_some, hrestore]
  simp only [InProgressPacket.place, ShardHeader.shardEnd, ShardHeader.payloadStart, hlen,
    ← hstart, ← hbuffer]

/-! ## Opening -/

namespace StreamRecvComponents

/-- The packet that is given up when a shard of packet `index` arrives. -/
def recycled (c : StreamRecvComponents) (order : IterOrder) (index : UInt32) : Option UInt32 :=
  if (c.inProgressPackets.lookup index).isSome then none
  else if c.usedBuffers = [] then c.recyclable order index
  else none

theorem takeBuffer_spec (c : StreamRecvComponents) (order : IterOrder) (index : UInt32)
    (hnew : c.inProgressPackets.lookup index = none) :
    (c.takeBuffer order index).2.packetQueue = c.packetQueue ∧
    ∀ k, (c.takeBuffer order index).2.inProgressPackets.lookup k =
      if c.recycled order index = some k then none else c.inProgressPackets.lookup k := by
  simp only [takeBuffer, recycled, hnew, Option.isSome_none, Bool.false_eq_true, if_false]
  cases c.usedBuffers with
  | cons buffer rest =>
    constructor
    · rfl
    · intro k
      simp
  | nil =>
    cases hold : c.recyclable order index with
    | none =>
      constructor
      · rfl
      · intro k
        simp
    | some idx =>
      constructor
      · rfl
      · intro k
        simp only [if_true, Option.some.injEq]
        rw [Table.lookup_erase_ite]
        by_cases hk : k = idx
        · rw [if_pos hk, if_pos hk.symm]
        · rw [if_neg hk, if_neg (Ne.symm hk)]

/-- The packet of a shard, and what opening it does to the others. -/
theorem openPacket_spec (cfg : SocketConfig) (now : Nat) (order : IterOrder) (st : RecvState)
    (c : StreamRecvComponents) :
    (c.inProgressPackets.lookup st.header.packetIndex = some (c.openPacket cfg now order st).1 ∨
      c.inProgressPackets.lookup st.header.packetIndex = none ∧
        ∃ buffer, (c.openPacket cfg now order st).1 = .fresh cfg now st buffer) ∧
    (c.openPacket cfg now order st).2.packetQueue = c.packetQueue ∧
    ∀ k, k ≠ st.header.packetIndex →
      (c.openPacket cfg now order st).2.inProgressPackets.lookup k =
        if c.recycled order st.header.packetIndex = some k then none
        else c.inProgressPackets.lookup k := by
  cases hp : c.inProgressPackets.lookup st.header.packetIndex with
  | some p =>
    have hopen : c.openPacket cfg now order st = (p, c) := by simp only [openPacket, hp]
    rw [hopen]
    refine ⟨.inl rfl, rfl, fun k _ => ?_⟩
    simp [recycled, hp]
  | none =>
    obtain ⟨hqueue, hlookup⟩ := takeBuffer_spec c order st.header.packetIndex hp
    refine ⟨.inr ⟨rfl, (c.takeBuffer order st.header.packetIndex).1, ?_⟩, ?_, fun k hk => ?_⟩
    · simp only [openPacket, hp]
    · simp only [openPacket, hp]
      exact hqueue
    · simp only [openPacket, hp]
      rw [Table.lookup_insert_ite, if_neg hk, hlookup]

end StreamRecvComponents

/-- The packet that is given up when a shard arrives at a socket. -/
def recycledBy (s : StreamSocket) (order : IterOrder) (h : ShardHeader) : Option UInt32 :=
  (s.streamRecvComponents.lookup h.streamId).bind fun c => c.recycled order h.packetIndex

/-! ## Filing -/

/-- The shard was the last one missing of its packet. -/
def Completes (cfg : SocketConfig) (message : Bytes) (p : InProgressPacket) : Prop :=
  (p.place cfg message).receivedShardIndices.card = (headerOf message).shardsCount

instance (cfg : SocketConfig) (message : Bytes) (p : InProgressPacket) :
    Decidable (Completes cfg message p) :=
  inferInstanceAs (Decidable ((p.place cfg message).receivedShardIndices.card =
    (headerOf message).shardsCount))

/-- `s'` is `s` with a shard read into its packet, which was `p` before, and `r` is
what the application gets if the packet is complete now. -/
structure Filed (cfg : SocketConfig) (now : Nat) (order : IterOrder) (message : Bytes)
    (s s' : StreamSocket) (p : InProgressPacket) (r : ReconstructedPacket) : Prop where
  opened : entryOf s (headerOf message).streamId (headerOf message).packetIndex = some p ∨
    entryOf s (headerOf message).streamId (headerOf message).packetIndex = none ∧
      ∃ buffer, p = .fresh cfg now
        ⟨headerOf message, StreamSocket.frameDeadline cfg (headerOf message)⟩ buffer
  own : entryOf s' (headerOf message).streamId (headerOf message).packetIndex =
    if Completes cfg message p then none else some (p.place cfg message)
  others : ∀ sid idx, ¬ (sid = (headerOf message).streamId ∧ idx = (headerOf message).packetIndex) →
    entryOf s' sid idx =
      if sid = (headerOf message).streamId ∧ recycledBy s order (headerOf message) = some idx
      then none else entryOf s sid idx
  sent : ∀ sid, sentOf s' sid = sentOf s sid ++
    if sid = (headerOf message).streamId ∧ Completes cfg message p then [r] else []
  packet : r.index = (headerOf message).packetIndex ∧ r.buffer = (p.place cfg message).buffer ∧
    r.size = (p.place cfg message).bufferLength
  subscribed : ∀ sid, sid ∈ s'.streamRecvComponents ↔ sid ∈ s.streamRecvComponents
  reading : s'.shardRecvState = none
  lost : s'.lostShardsDeadlineMap = s.lostShardsDeadlineMap
  frame : r.frameIndex = (headerOf message).packetIndex

/-- The statistics of a video shard leave the streams and the loss table alone. -/
theorem noteVideoShard_frame (s : StreamSocket) (now : Nat) (h : ShardHeader) :
    (s.noteVideoShard now h).streamRecvComponents = s.streamRecvComponents ∧
    (s.noteVideoShard now h).lostShardsDeadlineMap = s.lostShardsDeadlineMap := by
  unfold StreamSocket.noteVideoShard
  constructor <;> dsimp only <;> split <;> split <;> (try split) <;> rfl

/-- The socket between filing a shard and the sweep. -/
def fileShard (st : RecvState) (c : StreamRecvComponents) (p : InProgressPacket)
    (s : StreamSocket) : StreamSocket :=
  if p.receivedShardIndices.card = st.header.shardsCount then s.completePacket st c p
  else
    { s with
      streamRecvComponents := s.streamRecvComponents.insert st.header.streamId
        { c with
          inProgressPackets := c.inProgressPackets.insert st.header.packetIndex p } }

/-- `settleShard` files the shard and sweeps. -/
theorem settleShard_eq (cfg : SocketConfig) (now : Nat) (order : IterOrder) (st : RecvState)
    (c : StreamRecvComponents) (p : InProgressPacket) (s : StreamSocket) :
    s.settleShard cfg now order st c p =
      { (fileShard st c p s).sweepExpiredDeadlines cfg order now with shardRecvState := none } :=
  rfl

theorem completePacket_frame (st : RecvState) (c : StreamRecvComponents) (p : InProgressPacket)
    (s : StreamSocket) :
    (s.completePacket st c p).streamRecvComponents =
      s.streamRecvComponents.insert st.header.streamId
        { c with
          packetQueue := c.packetQueue.send (s.reconstruct st p)
          inProgressPackets := c.inProgressPackets.erase st.header.packetIndex
          usedBuffers := c.usedBuffers ++ [[]] } ∧
    (s.completePacket st c p).lostShardsDeadlineMap = s.lostShardsDeadlineMap := by
  unfold StreamSocket.completePacket
  constructor <;> dsimp only <;> split <;> rfl

/-- Filing replaces the components of one stream. -/
theorem fileShard_spec (st : RecvState) (c : StreamRecvComponents) (p : InProgressPacket)
    (s : StreamSocket) : ∃ c' : StreamRecvComponents,
    (fileShard st c p s).streamRecvComponents =
      s.streamRecvComponents.insert st.header.streamId c' ∧
    (fileShard st c p s).lostShardsDeadlineMap = s.lostShardsDeadlineMap ∧
    c'.inProgressPackets.lookup st.header.packetIndex =
      (if p.receivedShardIndices.card = st.header.shardsCount then none else some p) ∧
    (∀ k, k ≠ st.header.packetIndex →
      c'.inProgressPackets.lookup k = c.inProgressPackets.lookup k) ∧
    c'.packetQueue.sent = c.packetQueue.sent ++
      (if p.receivedShardIndices.card = st.header.shardsCount then [s.reconstruct st p]
      else []) := by
  by_cases hdone : p.receivedShardIndices.card = st.header.shardsCount
  · obtain ⟨hstreams, hlost⟩ := completePacket_frame st c p s
    rw [fileShard, if_pos hdone]
    refine ⟨_, hstreams, hlost, ?_, fun k hk => ?_, ?_⟩
    · rw [if_pos hdone, AList.lookup_erase]
    · exact AList.lookup_erase_ne hk
    · rw [if_pos hdone]
      rfl
  · rw [fileShard, if_neg hdone]
    refine ⟨_, rfl, rfl, ?_, fun k hk => ?_, ?_⟩
    · rw [if_neg hdone, AList.lookup_insert]
    · exact AList.lookup_insert_ne hk
    · rw [if_neg hdone, List.append_nil]

/-- Reading a shard into its packet has the effect `Filed`. The socket `s₁` is `s`
with the statistics of the shard. -/
theorem filed_fileShard (cfg : SocketConfig) (now : Nat) (order : IterOrder) (message : Bytes)
    {s s₁ : StreamSocket} {c : StreamRecvComponents}
    (hc : s.streamRecvComponents.lookup (headerOf message).streamId = some c)
    (hstreams : s₁.streamRecvComponents = s.streamRecvComponents)
    (hlost : s₁.lostShardsDeadlineMap = s.lostShardsDeadlineMap) {st : RecvState}
    (hst : st = ⟨headerOf message, StreamSocket.frameDeadline cfg (headerOf message)⟩) :
    Filed cfg now order message s
      { fileShard st (c.openPacket cfg now order st).2
          ((c.openPacket cfg now order st).1.place cfg message) s₁ with shardRecvState := none }
      (c.openPacket cfg now order st).1
      (s₁.reconstruct st ((c.openPacket cfg now order st).1.place cfg message)) := by
  subst hst
  set st : RecvState :=
    ⟨headerOf message, StreamSocket.frameDeadline cfg (headerOf message)⟩ with hst
  set p := (c.openPacket cfg now order st).1 with hp
  obtain ⟨hopened, hqueue, hothers⟩ := StreamRecvComponents.openPacket_spec cfg now order st c
  obtain ⟨c', hstreams', hlost', hown, hrest, hsent⟩ :=
    fileShard_spec st (c.openPacket cfg now order st).2 (p.place cfg message) s₁
  rw [hstreams] at hstreams'
  have hfiled : ({ fileShard st (c.openPacket cfg now order st).2 (p.place cfg message) s₁ with
      shardRecvState := none } : StreamSocket).streamRecvComponents = _ := hstreams'
  have hentry := entryOf_of_lookup hc
  -- One goal for each field of `Filed`: the shard's own packet first, then the others.
  constructor
  · rw [hentry]
    exact hopened
  · refine (entryOf_insert hfiled _ _).trans ?_
    rw [if_pos rfl]
    exact hown
  · intro sid idx hne
    refine (entryOf_insert hfiled sid idx).trans ?_
    by_cases hsid : sid = st.header.streamId
    · have hidx : idx ≠ st.header.packetIndex := fun h => hne ⟨hsid, h⟩
      have hrec : recycledBy s order (headerOf message) =
          c.recycled order (headerOf message).packetIndex := by
        rw [recycledBy, hc, Option.bind_some]
      rw [if_pos hsid, hrest idx hidx, hothers idx hidx, hrec,
        show sid = (headerOf message).streamId from hsid, hentry]
      simp only [true_and]
      rfl
    · rw [if_neg hsid, if_neg fun h => hsid h.1]
  · intro sid
    refine (sentOf_insert hfiled sid).trans ?_
    by_cases hsid : sid = st.header.streamId
    · rw [if_pos hsid, hsent, hqueue, show sid = (headerOf message).streamId from hsid,
        sentOf_of_lookup hc]
      simp only [true_and, Completes]
      rfl
    · rw [if_neg hsid, if_neg fun h => hsid h.1, List.append_nil]
  · exact ⟨rfl, rfl, rfl⟩
  · intro sid
    show sid ∈ (fileShard _ _ _ _).streamRecvComponents ↔ _
    rw [hstreams']
    exact Table.mem_insert_of_lookup hc c' sid
  · rfl
  · exact hlost'.trans hlost
  · rfl

/-! ## The step -/

theorem Swept.clearReading {now : Nat} {s s' : StreamSocket} (h : Swept now s s') :
    Swept now { s with shardRecvState := none } { s' with shardRecvState := none } where
  entry := h.entry
  sent := h.sent
  subscribed := h.subscribed
  reading := rfl
  lost_kept := h.lost_kept
  lost_new := h.lost_new
  recorded := h.recorded

/-- The socket once the prefix of a message has been read: the shard is noted in the
statistics and is the one being read. -/
def announced (cfg : SocketConfig) (now : Nat) (message : Bytes) (s : StreamSocket) :
    StreamSocket :=
  { (if (headerOf message).streamId = video then s.noteVideoShard now (headerOf message)
      else s) with
    shardRecvState :=
      some ⟨headerOf message, StreamSocket.frameDeadline cfg (headerOf message)⟩ }

theorem announced_frame (cfg : SocketConfig) (now : Nat) (message : Bytes) (s : StreamSocket) :
    (announced cfg now message s).streamRecvComponents = s.streamRecvComponents ∧
    (announced cfg now message s).lostShardsDeadlineMap = s.lostShardsDeadlineMap := by
  unfold announced
  dsimp only
  split
  · exact noteVideoShard_frame _ _ _
  · exact ⟨rfl, rfl⟩

theorem peekPrefix_sendShared (h : message.length ≤ maxPacketSizeRecv) :
    (BufferedReceiver.empty.sendShared message).peekPrefix shardPrefixSize maxPacketSizeRecv =
      (.ok (message.length, message.take shardPrefixSize), ⟨[], some message⟩) := by
  simp [BufferedReceiver.sendShared, BufferedReceiver.empty, BufferedReceiver.peekPrefix,
    Nat.not_lt.2 h]

/-- `recv` on a well-formed shard of a stream subscribed to: its packet is opened,
read and settled. -/
theorem recv_shard (cfg : SocketConfig) {s : StreamSocket}
    (hreading : s.shardRecvState = none) (hwf : WellFormed message) {c : StreamRecvComponents}
    (hc : s.streamRecvComponents.lookup (headerOf message).streamId = some c) (now : Nat)
    (order : IterOrder) {st : RecvState}
    (hst : st = ⟨headerOf message, StreamSocket.frameDeadline cfg (headerOf message)⟩) :
    s.recv cfg now order (BufferedReceiver.empty.sendShared message) =
      some (.ok (), (announced cfg now message s).settleShard cfg now order st
        (c.openPacket cfg now order st).2
        ((c.openPacket cfg now order st).1.place cfg message), .empty) := by
  subst hst
  -- the prefix declares the length of the message, so the statistics do not underflow
  have hlen : ¬ ((headerOf message).streamId = video ∧
      (headerOf message).shardLength < shardPrefixSize) := by
    rw [hwf.declared]
    exact fun hlt => absurd hlt.2 (Nat.not_lt.2 hwf.lead_le)
  simp only [StreamSocket.recv, hreading, peekPrefix_sendShared hwf.length_le,
    if_neg (Nat.not_lt.2 hwf.lead_le)]
  rw [show ShardHeader.decode (message.take shardPrefixSize) = headerOf message from rfl,
    if_neg hlen]
  show (announced cfg now message s).recvShard cfg now order _ _ = _
  simp only [StreamSocket.recvShard, (announced_frame cfg now message s).1, hc,
    readShard_eq cfg hwf, Option.map_some]

theorem step_of_recv {cfg : SocketConfig} {now : Nat}
    {order : IterOrder} {d : Except ConnectionError Unit} {socket : StreamSocket} (hidle : s.Idle)
    (h : s.socket.recv cfg now order (BufferedReceiver.empty.sendShared message) =
      some (d, socket, .empty)) :
    step cfg s (.shard message now order) =
      some { s with socket := socket, channel := .empty } := by
  rw [step, hidle.channel, h, Option.map_some]

/-- **Effect of a reception**: a well-formed shard of a stream subscribed to is filed
and a sweep follows. The session is idle again. -/
theorem step_shard (cfg : SocketConfig) (hidle : s.Idle) (hwf : WellFormed message)
    (hsub : (headerOf message).streamId ∈ s.socket.streamRecvComponents) (now : Nat)
    (order : IterOrder) : ∃ s' filed p r,
      step cfg s (.shard message now order) = some s' ∧
      Filed cfg now order message s.socket filed p r ∧
      Swept now filed s'.socket ∧ s'.Idle ∧ s'.reports = s.reports := by
  obtain ⟨c, hc⟩ := Option.isSome_iff_exists.1 (AList.lookup_isSome.2 hsub)
  obtain ⟨hstreams, hlost⟩ := announced_frame cfg now message s.socket
  have hfiled := filed_fileShard cfg now order message hc hstreams hlost rfl
  have hrecv := recv_shard cfg hidle.reading hwf hc now order rfl
  rw [settleShard_eq] at hrecv
  exact ⟨_, _, _, _, step_of_recv hidle hrecv, hfiled,
    (swept_sweepExpiredDeadlines cfg order now _).clearReading, ⟨rfl, rfl⟩, rfl⟩

/-- A message longer than the socket reads makes it panic. -/
theorem step_oversized (cfg : SocketConfig) (hidle : s.Idle)
    (hlong : maxPacketSizeRecv < message.length) (now : Nat) (order : IterOrder) :
    step cfg s (.shard message now order) = none := by
  have hpeek : (s.channel.sendShared message).peekPrefix shardPrefixSize maxPacketSizeRecv =
      (.error (.other "Buffer too small"), ⟨[], some message⟩) := by
    rw [hidle.channel]
    simp [BufferedReceiver.sendShared, BufferedReceiver.empty, BufferedReceiver.peekPrefix, hlong]
  simp only [step, StreamSocket.recv, hidle.reading, hpeek, Option.map_none]

/-! ## The other steps -/

/-- The packets in progress and those handed to the application are the same. -/
structure SamePackets (s s' : Session) : Prop where
  entry : ∀ sid idx, entryOf s'.socket sid idx = entryOf s.socket sid idx
  sent : ∀ sid, sentOf s'.socket sid = sentOf s.socket sid
  subscribed : ∀ sid, sid ∈ s'.socket.streamRecvComponents ↔ sid ∈ s.socket.streamRecvComponents
  idle : s.Idle → s'.Idle

theorem streams_flushLosses (cfg : SocketConfig) (order : Shuffle (UInt32 × Nat)) (s : Session) :
    (flushLosses cfg order s).socket.streamRecvComponents = s.socket.streamRecvComponents := by
  unfold flushLosses
  dsimp only [StreamSocket.flushShardsLostDeadline, reportFrameLost]
  split <;> split <;> rfl

/-- Flushing empties the loss table into a report. -/
theorem samePackets_flush (cfg : SocketConfig) (order : Shuffle (UInt32 × Nat)) (s : Session) :
    SamePackets s (flushLosses cfg order s) := by
  have hstreams := streams_flushLosses cfg order s
  have hreading : (flushLosses cfg order s).socket.shardRecvState = s.socket.shardRecvState := by
    unfold flushLosses
    dsimp only [StreamSocket.flushShardsLostDeadline, reportFrameLost]
    split <;> split <;> rfl
  have hchannel : (flushLosses cfg order s).channel = s.channel := by
    unfold flushLosses
    dsimp only [reportFrameLost]
    split <;> rfl
  constructor
  · intro sid idx
    rw [entryOf, hstreams, entryOf]
  · intro sid
    rw [sentOf, hstreams, sentOf]
  · intro sid
    rw [hstreams]
  · rintro ⟨h₁, h₂⟩
    exact ⟨hreading.trans h₁, hchannel.trans h₂⟩

/-- What `StreamReceiver::recv` changes in the components of its stream. -/
theorem StreamReceiver.recv_frame {reader reader' : StreamReceiver} {c c' : StreamRecvComponents}
    {d : Except ConnectionError ReceiverData} (h : reader.recv c = some (d, reader', c')) :
    c'.inProgressPackets = c.inProgressPackets ∧ c'.packetQueue.sent = c.packetQueue.sent := by
  unfold StreamReceiver.recv at h
  split at h
  · cases h
    exact ⟨rfl, rfl⟩
  · rename_i packet queue hqueue
    have hsent := Channel.sent_of_tryRecv hqueue
    obtain ⟨f, -, hf⟩ := Option.map_eq_some_iff.1 h
    cases f <;> (cases hf; exact ⟨rfl, hsent⟩)

/-- What a read can do to a session: nothing, or replace the components of the stream. -/
theorem read_cases {cfg : SocketConfig} {s' : Session} {streamId : UInt16}
    {reader : StreamReceiver} (h : step cfg s (.read streamId reader) = some s') :
    s' = s ∨ ∃ (c c' : StreamRecvComponents) (d : Except ConnectionError ReceiverData)
      (reader' : StreamReceiver), s.socket.streamRecvComponents.lookup streamId = some c ∧
      reader.recv c = some (d, reader', c') ∧
      s' = { s with socket := { s.socket with
        streamRecvComponents := s.socket.streamRecvComponents.insert streamId c' } } := by
  unfold step at h
  dsimp only at h
  split at h
  · cases h
    exact .inl rfl
  · rename_i c hc
    obtain ⟨⟨d, reader', c'⟩, hrecv, rfl⟩ := Option.map_eq_some_iff.1 h
    exact .inr ⟨c, c', d, reader', hc, hrecv, rfl⟩

/-- A read takes a packet out of the queue, and no more. -/
theorem step_read {cfg : SocketConfig} {s' : Session} {streamId : UInt16}
    {reader : StreamReceiver} (h : step cfg s (.read streamId reader) = some s') :
    SamePackets s s' ∧ s'.reports = s.reports ∧
      s'.socket.lostShardsDeadlineMap = s.socket.lostShardsDeadlineMap := by
  obtain rfl | ⟨c, c', d, reader', hc, hrecv, rfl⟩ := read_cases h
  · exact ⟨⟨fun _ _ => rfl, fun _ => rfl, fun _ => Iff.rfl, id⟩, rfl, rfl⟩
  · obtain ⟨hprogress, hsent⟩ := StreamReceiver.recv_frame hrecv
    refine ⟨⟨fun sid idx => ?_, fun sid => ?_, fun sid => ?_, fun hidle => ⟨hidle.1, hidle.2⟩⟩,
      rfl, rfl⟩
    · rw [entryOf_insert rfl]
      split
      · rename_i hsid
        rw [hsid, entryOf_of_lookup hc, hprogress]
      · rfl
    · rw [sentOf_insert rfl]
      split
      · rename_i hsid
        rw [hsid, sentOf_of_lookup hc, hsent]
      · rfl
    · exact Table.mem_insert_of_lookup hc c' sid

end SiestaVR.Stream
