import SiestaVR.Stream.ClientQueue

/-!
# What the events of a client do

A client in a session reads every reconstructed video packet with a reading end that has
returned nothing yet. So what it pushes to the decoder, and the statistics it sends, are
what such a reader makes of the packets of the queue, one after the other (`Streaming`).

The video packets carry counters that the socket keeps on the way (`shardStatistics`).
Only the reception of a video shard moves them (`step_shard_video`); no other event does.

The lemmas of `Streaming` go handler by handler. `step_quiet` puts together those of the events
that bring no packet, so that proofs about runs split on one question (`network_or_quiet`).
-/

namespace SiestaVR.Stream

open Lib

/-! ## The statistics of the video shards -/

/-- What the socket counts video shards with: the shards of the latest frames, how many
came since a frame was completed, and the highest frame with its highest shard. -/
def shardStatistics (s : StreamSocket) :
    Table UInt32 (Table Nat ShardMapStats) × Nat × Int × Int :=
  (s.mapRx, s.rxShardCounter, s.highestRxFrameIndex, s.highestRxShardIndex)

theorem shardStatistics_sweep (cfg : SocketConfig) (order : IterOrder) (now : Nat)
    (s : StreamSocket) :
    shardStatistics (s.sweepExpiredDeadlines cfg order now) = shardStatistics s := by
  refine foldl_view shardStatistics (fun s sid => ?_) _ s
  unfold StreamSocket.sweepStream
  split <;> rfl

theorem shardStatistics_flush (cfg : SocketConfig) (order : Shuffle (UInt32 × Nat))
    (s : Session) :
    shardStatistics (flushLosses cfg order s).socket = shardStatistics s.socket := by
  unfold flushLosses
  dsimp only [StreamSocket.flushShardsLostDeadline, reportFrameLost]
  split <;> split <;> rfl

theorem shardStatistics_read {cfg : SocketConfig} {s s' : Session} {streamId : UInt16}
    {reader : StreamReceiver} (h : step cfg s (.read streamId reader) = some s') :
    shardStatistics s'.socket = shardStatistics s.socket := by
  obtain rfl | ⟨c, c', d, reader', -, -, rfl⟩ := read_cases h
  · rfl
  · rfl

theorem shardStatistics_fileShard (st : RecvState) (c : StreamRecvComponents)
    (p : InProgressPacket) (s : StreamSocket) :
    shardStatistics (fileShard st c p s) =
      if st.header.streamId = video ∧ p.receivedShardIndices.card = st.header.shardsCount then
        shardStatistics (s.resetVideoCounters st.header.packetIndex)
      else shardStatistics s := by
  unfold fileShard
  by_cases hdone : p.receivedShardIndices.card = st.header.shardsCount
  · by_cases hvideo : st.header.streamId = video
    · simp only [hdone, hvideo, StreamSocket.completePacket, and_self, if_true]
      rfl
    · simp only [hdone, hvideo, StreamSocket.completePacket, false_and, if_true, if_false]
      rfl
  · simp only [hdone, and_false, if_false]
    rfl

section Shards

variable {cfg : SocketConfig} {s s' : Session} {message : Bytes} {now : Nat} {order : IterOrder}

/-- The queue of the video stream and the statistics after a shard. The socket is
`announced` when the packet for the application takes the counters along. -/
theorem step_shard_counters (hidle : s.Idle) (hwf : WellFormed message)
    (hsub : (headerOf message).streamId ∈ s.socket.streamRecvComponents)
    (hs' : step cfg s (.shard message now order) = some s') :
    ∃ (p : InProgressPacket) (r : ReconstructedPacket),
      (r.rxShardCounter, r.highestRxFrameIndex, r.highestRxShardIndex) =
        (shardStatistics (announced cfg now message s.socket)).2 ∧
      sentOf s'.socket video = sentOf s.socket video ++
        (if video = (headerOf message).streamId ∧ Completes cfg message p then [r] else []) ∧
      shardStatistics s'.socket =
        if (headerOf message).streamId = video ∧ Completes cfg message p then
          shardStatistics ((announced cfg now message s.socket).resetVideoCounters
            (headerOf message).packetIndex)
        else shardStatistics (announced cfg now message s.socket) := by
  obtain ⟨c, hc⟩ := Option.isSome_iff_exists.1 (AList.lookup_isSome.2 hsub)
  set st : RecvState := ⟨headerOf message, StreamSocket.frameDeadline cfg (headerOf message)⟩
    with hst
  set s₁ := announced cfg now message s.socket with hs₁
  obtain ⟨hstreams, hlost⟩ := announced_frame cfg now message s.socket
  have hfiled := filed_fileShard cfg now order message hc hstreams hlost hst
  have hrecv := recv_shard cfg hidle.reading hwf hc now order hst
  rw [settleShard_eq] at hrecv
  rw [step_of_recv hidle hrecv] at hs'
  cases hs'
  set p := (c.openPacket cfg now order st).1 with hp
  -- the sweep after the shard changes neither the queue nor the counters
  have hswept := (swept_sweepExpiredDeadlines cfg order now (fileShard st
    (c.openPacket cfg now order st).2 (p.place cfg message) s₁)).clearReading
  refine ⟨p, s₁.reconstruct st (p.place cfg message), rfl,
    (hswept.sent video).trans (hfiled.sent video), ?_⟩
  exact (shardStatistics_sweep cfg order now _).trans (shardStatistics_fileShard st _ _ s₁)

/-- **Effect of a video shard**: it is noted in the statistics. If it completes its frame,
the packet for the application takes the counters along, and they start anew. -/
theorem step_shard_video (hidle : s.Idle) (hwf : WellFormed message)
    (hvideo : (headerOf message).streamId = video)
    (hsub : video ∈ s.socket.streamRecvComponents)
    (hs' : step cfg s (.shard message now order) = some s') :
    (sentOf s'.socket video = sentOf s.socket video ∧
      shardStatistics s'.socket =
        shardStatistics (s.socket.noteVideoShard now (headerOf message))) ∨
    ∃ r : ReconstructedPacket, sentOf s'.socket video = sentOf s.socket video ++ [r] ∧
      (r.rxShardCounter, r.highestRxFrameIndex, r.highestRxShardIndex) =
        (shardStatistics (s.socket.noteVideoShard now (headerOf message))).2 ∧
      shardStatistics s'.socket =
        shardStatistics ((s.socket.noteVideoShard now (headerOf message)).resetVideoCounters
          (headerOf message).packetIndex) := by
  obtain ⟨p, r, hr, hsent, hstats⟩ := step_shard_counters hidle hwf (hvideo ▸ hsub) hs'
  rw [announced, if_pos hvideo] at hr hstats
  by_cases hdone : Completes cfg message p
  · rw [if_pos ⟨hvideo.symm, hdone⟩] at hsent
    rw [if_pos ⟨hvideo, hdone⟩] at hstats
    exact .inr ⟨r, hsent, hr, hstats⟩
  · rw [if_neg fun h => hdone h.2, List.append_nil] at hsent
    rw [if_neg fun h => hdone h.2] at hstats
    exact .inl ⟨hsent, hstats⟩

/-- A shard of another stream leaves the video stream and its statistics alone. -/
theorem step_shard_foreign (hidle : s.Idle) (hwf : WellFormed message)
    (hforeign : (headerOf message).streamId ≠ video)
    (hsub : (headerOf message).streamId ∈ s.socket.streamRecvComponents)
    (hs' : step cfg s (.shard message now order) = some s') :
    sentOf s'.socket video = sentOf s.socket video ∧
      shardStatistics s'.socket = shardStatistics s.socket := by
  obtain ⟨p, r, -, hsent, hstats⟩ := step_shard_counters hidle hwf hsub hs'
  rw [if_neg fun h => hforeign h.1.symm, List.append_nil] at hsent
  rw [if_neg fun h => hforeign h.1, announced, if_neg hforeign] at hstats
  exact ⟨hsent, hstats⟩

end Shards

/-! ## Queues -/

theorem sent_queueOf (s : StreamSocket) (sid : UInt16) : (queueOf s sid).sent = sentOf s sid := by
  unfold queueOf sentOf
  cases s.streamRecvComponents.lookup sid <;> rfl

theorem take_taken_of_requeued {s s' : StreamSocket} (h : Requeued s s') (sid : UInt16) :
    (queueOf s' sid).sent.take (queueOf s' sid).taken =
      (queueOf s sid).sent.take (queueOf s sid).taken := by
  rcases h sid with hq | ⟨r, hq⟩
  · rw [hq]
  · rw [hq]
    exact List.take_append_of_le_length (queueOf s sid).taken_le

/-! ## Clients in a session -/

/-- What a reading end that has returned nothing yet makes of a packet. -/
def ReconstructedPacket.firstRead (r : ReconstructedPacket) : ReceiverData where
  buffer := r.buffer
  size := r.size
  hadPacketLoss := false
  frameIndex := r.frameIndex
  rxBytes := r.rxBytes
  bytesInFrame := r.bytesInFrame
  bytesInFrameApp := r.bytesInFrameApp
  framesSkipped := 0
  rxShardCounter := r.rxShardCounter
  duplicatedShardCounter := r.duplicatedShardCounter
  highestRxFrameIndex := r.highestRxFrameIndex
  highestRxShardIndex := r.highestRxShardIndex
  shardsInFrame := r.shardsInFrame

theorem StreamReceiver.recv_new (comps : StreamRecvComponents) :
    StreamReceiver.new.recv comps =
      match comps.packetQueue.tryRecv with
      | none => some (.error .tryAgain, .new, comps)
      | some (r, queue) =>
        some (.ok r.firstRead, ⟨some r.index, 0, 0, 0⟩, { comps with packetQueue := queue }) := by
  unfold StreamReceiver.recv
  cases comps.packetQueue.tryRecv with
  | none => rfl
  | some x => simp [StreamReceiver.new, freshness, ReconstructedPacket.firstRead]

/-- A statistics packet without the level of the decoder queue. -/
def NetworkStatisticsPacket.forgetLevel (p : NetworkStatisticsPacket) : NetworkStatisticsPacket :=
  { p with bufferLevelDecoder := 0 }

/-- A client in a session: nothing is half read, its readers are new, and for every
packet taken out of the video queue it has pushed the frame and its statistics. -/
structure Streaming (c : Client) : Prop where
  idle : c.session.Idle
  streaming : c.isStreaming = true
  reading : c.inputAppVideo = some .new
  subscribed : video ∈ c.session.socket.streamRecvComponents
  probing : c.inputAppBwProbe.isSome = true →
    fovoptixBwProbe ∈ c.session.socket.streamRecvComponents
  pushed : c.pushed.map (fun x => (x.1, x.2.forgetLevel)) =
    (c.queue.sent.take c.queue.taken).map fun r =>
      (r.frameIndex.toNat, networkStatistics r.firstRead 0)

/-- The video packets for the application and the statistics of shards are the same. -/
structure SameVideo (s s' : Session) : Prop where
  sent : sentOf s'.socket video = sentOf s.socket video
  statistics : shardStatistics s'.socket = shardStatistics s.socket

theorem SameVideo.rfl {s : Session} : SameVideo s s := ⟨Eq.refl _, Eq.refl _⟩

theorem SameVideo.trans {s s₁ s' : Session} (h : SameVideo s s₁) (h' : SameVideo s₁ s') :
    SameVideo s s' :=
  ⟨h'.sent.trans h.sent, h'.statistics.trans h.statistics⟩

/-- The packet is a shard of the stream in its header, if it is for the socket. -/
def Addressed (packet : MpduPacket) : Prop :=
  packet.streamId = video ∨ packet.streamId = fovoptixBwProbe →
    WellFormed packet.dataInner ∧ (headerOf packet.dataInner).streamId = packet.streamId

instance (packet : MpduPacket) : Decidable (Addressed packet) :=
  inferInstanceAs (Decidable (_ → _))

theorem ClientEvent.network_or_quiet (e : ClientEvent) :
    (∃ now packets, e = .network now packets) ∨ ∀ now packets, e ≠ .network now packets := by
  cases e <;> simp

namespace Streaming

variable {cfg : SocketConfig} {c c' : Client}

theorem of_session (h : Streaming c) (hstreaming : c'.isStreaming = c.isStreaming)
    (hreading : c'.inputAppVideo = c.inputAppVideo)
    (hprobing : c'.inputAppBwProbe = c.inputAppBwProbe) (hidle : c'.session.Idle)
    (hsub : ∀ sid, sid ∈ c'.session.socket.streamRecvComponents ↔
      sid ∈ c.session.socket.streamRecvComponents)
    (hpushed : c'.pushed.map (fun x => (x.1, x.2.forgetLevel)) =
      (c'.queue.sent.take c'.queue.taken).map fun r =>
        (r.frameIndex.toNat, networkStatistics r.firstRead 0)) : Streaming c' where
  idle := hidle
  streaming := hstreaming.trans h.streaming
  reading := hreading.trans h.reading
  subscribed := (hsub _).2 h.subscribed
  probing hp := (hsub _).2 (h.probing (hprobing ▸ hp))
  pushed := hpushed

theorem setAgenda (h : Streaming c) (a : Agenda Task) : Streaming { c with agenda := a } :=
  h.of_session rfl rfl rfl h.idle (fun _ => Iff.rfl) h.pushed

theorem receiveShard {order : IterOrder} {data : Bytes} (h : Streaming c) (hwf : WellFormed data)
    (hsub : (headerOf data).streamId ∈ c.session.socket.streamRecvComponents)
    (hc' : c.receiveShard cfg order data = some c') :
    Streaming c' ∧ c'.pushed = c.pushed ∧
      step cfg c.session (.shard data c.agenda.now order) = some c'.session := by
  have hrequeued := (requeued_receiveShard hc').1
  obtain ⟨s', hs', rfl⟩ := Option.map_eq_some_iff.1 hc'
  obtain ⟨s₁, filed, p, r, hstep, hfiled, hswept, hidle, -⟩ :=
    step_shard cfg h.idle hwf hsub c.agenda.now order
  rw [hs'] at hstep
  cases hstep
  refine ⟨h.of_session rfl rfl rfl hidle (fun sid => ?_) ?_, rfl, hs'⟩
  · exact (hswept.subscribed sid).trans (hfiled.subscribed sid)
  · exact h.pushed.trans (congrArg _ (take_taken_of_requeued hrequeued video).symm)

theorem skipMessage (h : Streaming c) (data : Bytes) : c.skipMessage data = c := by
  have hchannel := h.idle.channel
  have hread : ((BufferedReceiver.empty.sendShared data).recv maxPacketSizeRecv).2 = .empty := by
    simp only [BufferedReceiver.sendShared, BufferedReceiver.empty, BufferedReceiver.recv,
      List.nil_append]
    split <;> rfl
  rw [Client.skipMessage, hchannel, hread, ← hchannel]

/-- **A packet from the network**: a video packet is a shard for the socket, and all
others leave the video stream alone. -/
theorem onPacket {packet : MpduPacket × IterOrder} (h : Streaming c)
    (hok : Addressed packet.1) (hc' : c.onPacket cfg packet = some c') :
    Streaming c' ∧ c'.pushed = c.pushed ∧
      if packet.1.streamId = video then
        step cfg c.session (.shard packet.1.dataInner c.agenda.now packet.2) = some c'.session
      else SameVideo c.session c'.session := by
  obtain ⟨c₁, hc₁, rfl⟩ := Option.map_eq_some_iff.1 hc'
  suffices h₁ : Streaming c₁ ∧ c₁.pushed = c.pushed ∧ if packet.1.streamId = video then
      step cfg c.session (.shard packet.1.dataInner c.agenda.now packet.2) = some c₁.session
      else SameVideo c.session c₁.session from ⟨h₁.1.setAgenda _, h₁.2.1, h₁.2.2⟩
  cases filedPacket hc₁ with
  | ignored hnone =>
    have hother : packet.1.streamId ≠ video := fun hvideo => by
      rw [h.reading] at hnone
      exact absurd (hnone hvideo) (by simp)
    rw [if_neg hother]
    exact ⟨h, rfl, .rfl⟩
  | skipped hother =>
    rw [h.skipMessage, if_neg hother]
    exact ⟨h, rfl, .rfl⟩
  | video hvideo hc' =>
    obtain ⟨hwf, hsid⟩ := hok (.inl hvideo)
    rw [if_pos hvideo]
    exact h.receiveShard hwf ((hsid.trans hvideo) ▸ h.subscribed) hc'
  | probe hprobe hprobing hc₂ =>
    -- A probe is filed under its own stream, which moves no video counter.
    obtain ⟨hwf, hsid⟩ := hok (.inr hprobe)
    have hother : packet.1.streamId ≠ Stream.video := by
      rw [hprobe]
      decide
    have hsub := (hsid.trans hprobe) ▸ h.probing hprobing
    obtain ⟨h₂, hpushed, hs⟩ := h.receiveShard hwf hsub hc₂
    obtain ⟨hsent, hstats⟩ := step_shard_foreign h.idle hwf (hsid ▸ hother) hsub hs
    rw [if_neg hother]
    exact ⟨h₂.setAgenda _, hpushed, hsent, hstats⟩

variable (cfg) in
theorem flush (h : Streaming c) (order : Shuffle (UInt32 × Nat)) :
    Streaming { c with session := flushLosses cfg order c.session } ∧
      SameVideo c.session (flushLosses cfg order c.session) := by
  have hsame := samePackets_flush cfg order c.session
  have hqueue : ({ c with session := flushLosses cfg order c.session } : Client).queue = c.queue :=
    queueOf_congr (streams_flushLosses cfg order c.session) video
  refine ⟨h.of_session rfl rfl rfl (hsame.idle h.idle) hsame.subscribed ?_,
    hsame.sent video, shardStatistics_flush cfg order c.session⟩
  rw [hqueue]
  exact h.pushed

/-- A read of the video stream pushes the packet it takes out. -/
theorem read {comps comps' : StreamRecvComponents} {reader' : StreamReceiver}
    {d : Except ConnectionError ReceiverData} (h : Streaming c)
    (hcomps : c.session.socket.streamRecvComponents.lookup video = some comps)
    (hrecv : StreamReceiver.new.recv comps = some (d, reader', comps'))
    (hc' : (match d with
      | .error _ => some (c.setComponents video comps')
      | .ok data => (c.setComponents video comps').pushFrame data) = some c') :
    Streaming c' ∧ SameVideo c.session c'.session := by
  have hqueue : c.queue = comps.packetQueue := queueOf_of_lookup hcomps
  have hqueue' : (c.setComponents video comps').queue = comps'.packetQueue :=
    (queueOf_insert rfl video).trans (if_pos rfl)
  have hidle : (c.setComponents video comps').session.Idle := ⟨h.idle.reading, h.idle.channel⟩
  have hsub := Table.mem_insert_of_lookup hcomps comps'
  have hsame : comps'.packetQueue.sent = comps.packetQueue.sent →
      SameVideo c.session (c.setComponents video comps').session := fun hsent => by
    refine ⟨?_, rfl⟩
    rw [← sent_queueOf, ← sent_queueOf]
    exact (congrArg _ hqueue').trans (hsent.trans (congrArg _ hqueue.symm))
  -- A reading end that has returned nothing yet accepts whatever comes first.
  rw [StreamReceiver.recv_new] at hrecv
  split at hrecv
  · cases hrecv
    cases hc'
    refine ⟨h.of_session rfl rfl rfl hidle hsub ?_, hsame rfl⟩
    rw [hqueue', ← hqueue]
    exact h.pushed
  · rename_i r queue htake
    cases hrecv
    obtain ⟨nal, -, rfl⟩ := Option.map_eq_some_iff.1 hc'
    have hsent := hsame (Channel.sent_of_tryRecv htake)
    refine ⟨h.of_session rfl rfl rfl hidle hsub ?_, hsent.sent, hsent.statistics⟩
    show (c.pushed ++ [_]).map _ = List.map _
      ((c.setComponents video _).queue.sent.take (c.setComponents video _).queue.taken)
    rw [hqueue', Channel.take_of_tryRecv htake, List.map_append, List.map_append, h.pushed,
      ← hqueue]
    rfl

theorem videoReceiveThread {order : Shuffle (UInt32 × Nat)} (h : Streaming c)
    (hc' : c.videoReceiveThread cfg order = some c') :
    Streaming c' ∧ SameVideo c.session c'.session := by
  obtain ⟨hflush, hsame⟩ := h.flush cfg order
  have hstreams := streams_flushLosses cfg order c.session
  cases videoRead hc' with
  | outOfSession hout => exact absurd ⟨h.streaming, by rw [h.reading]; rfl⟩ hout
  | unsubscribed => exact ⟨hflush, hsame⟩
  | nothing hreader hcomps hrecv =>
    cases hreader.symm.trans h.reading
    obtain ⟨hread, hsame'⟩ := hflush.read (hstreams.symm ▸ hcomps) hrecv rfl
    exact ⟨hread, hsame.trans hsame'⟩
  | frame hreader hcomps hrecv hc' =>
    cases hreader.symm.trans h.reading
    obtain ⟨hread, hsame'⟩ := hflush.read (hstreams.symm ▸ hcomps) hrecv hc'
    exact ⟨hread, hsame.trans hsame'⟩

theorem bwProbeReceiveThread (h : Streaming c) (hc' : c.bwProbeReceiveThread cfg = some c') :
    Streaming c' ∧ SameVideo c.session c'.session := by
  obtain rfl | ⟨reader, s', hs', rfl⟩ := bwProbeRead hc'
  · exact ⟨h, .rfl⟩
  · obtain ⟨hsame, -⟩ := step_read hs'
    have hqueue : ({ c with session := s' } : Client).queue = c.queue :=
      queueOf_read hs' (by decide)
    refine ⟨h.of_session rfl rfl rfl (hsame.idle h.idle) hsame.subscribed ?_,
      hsame.sent video, shardStatistics_read hs'⟩
    rw [hqueue]
    exact h.pushed

theorem vsync (h : Streaming c) (order : IterOrder) (flushOrder : Shuffle (UInt32 × Nat)) :
    Streaming (c.vsync cfg order flushOrder) ∧
      SameVideo c.session (c.vsync cfg order flushOrder).session := by
  have hswept := swept_sweepExpiredDeadlines cfg order c.agenda.now c.session.socket
  have hqueue := queueOf_sweep cfg order c.agenda.now c.session.socket video
  set swept : Client := { c with session := { c.session with
    socket := c.session.socket.sweepExpiredDeadlines cfg order c.agenda.now } } with hdef
  have hsweep : Streaming swept := by
    refine h.of_session rfl rfl rfl ⟨hswept.reading.trans h.idle.reading, h.idle.channel⟩
      hswept.subscribed ?_
    show c.pushed.map _ = _
    rw [Client.queue, hqueue]
    exact h.pushed
  have hsame : SameVideo c.session swept.session :=
    ⟨hswept.sent video, shardStatistics_sweep cfg order c.agenda.now c.session.socket⟩
  obtain ⟨hflush, hsame'⟩ := hsweep.flush cfg flushOrder
  obtain ⟨hsent, hstats⟩ := hsame.trans hsame'
  obtain ⟨queue, ready, heq⟩ := vsync_eq cfg order flushOrder c
  rw [heq]
  exact ⟨hflush.of_session rfl rfl rfl hflush.idle (fun _ => Iff.rfl) hflush.pushed,
    hsent, hstats⟩

/-- **Other events**: only packets from the network change the video stream. -/
theorem step_quiet {e : ClientEvent} (h : Streaming c)
    (hquiet : ∀ now packets, e ≠ .network now packets) (hc' : c.step cfg e = some c') :
    Streaming c' ∧ SameVideo c.session c'.session := by
  cases e with
  | network now packets => exact absurd rfl (hquiet now packets)
  | videoReceiveThread now order =>
    obtain ⟨a, ha, hc'⟩ := Option.bind_eq_some_iff.1 hc'
    exact (h.setAgenda a).videoReceiveThread hc'
  | bwProbeReceiveThread now =>
    obtain ⟨a, ha, hc'⟩ := Option.bind_eq_some_iff.1 hc'
    exact (h.setAgenda a).bwProbeReceiveThread hc'
  | vsync now order flushOrder =>
    obtain ⟨a, ha, rfl⟩ := Option.map_eq_some_iff.1 hc'
    exact (h.setAgenda a).vsync order flushOrder

end Streaming

/-- A client keeps what it has pushed. -/
theorem pushed_of_quiet {cfg : SocketConfig} {c c' : Client} {e : ClientEvent}
    (hquiet : ∀ now packets, e ≠ .network now packets) (hc' : c.step cfg e = some c') :
    c.pushed <+: c'.pushed := by
  cases e with
  | network now packets => exact absurd rfl (hquiet now packets)
  | videoReceiveThread now order =>
    obtain ⟨a, -, hc'⟩ := Option.bind_eq_some_iff.1 hc'
    cases videoRead hc' with
    | frame _ _ _ hc' =>
      obtain ⟨nal, -, rfl⟩ := Option.map_eq_some_iff.1 hc'
      exact List.prefix_append _ _
    | _ => exact List.prefix_rfl
  | bwProbeReceiveThread now =>
    obtain ⟨a, -, hc'⟩ := Option.bind_eq_some_iff.1 hc'
    obtain rfl | ⟨reader, s', -, rfl⟩ := bwProbeRead hc'
    · exact List.prefix_rfl
    · exact List.prefix_rfl
  | vsync now order flushOrder =>
    obtain ⟨a, -, rfl⟩ := Option.map_eq_some_iff.1 hc'
    obtain ⟨queue, ready, heq⟩ := vsync_eq cfg order flushOrder { c with agenda := a }
    rw [heq]

/-! ## The start -/

theorem subscribed_start (streams : List UInt16) (n : Nat) {sid : UInt16} (h : sid ∈ streams) :
    sid ∈ (Session.start streams n).socket.streamRecvComponents := by
  suffices hfold : ∀ s : StreamSocket, (sid ∈ streams ∨ sid ∈ s.streamRecvComponents) →
      sid ∈ (streams.foldl (fun s id => s.subscribeToStream id n) s).streamRecvComponents from
    hfold _ (.inl h)
  clear h
  induction streams with
  | nil => exact fun s h => h.resolve_left List.not_mem_nil
  | cons id streams ih =>
    intro s h
    refine ih _ ?_
    rcases h with h | h
    · rcases List.mem_cons.1 h with rfl | h
      · exact .inr (AList.mem_insert _ |>.2 (.inl rfl))
      · exact .inl h
    · exact .inr (AList.mem_insert _ |>.2 (.inr h))

theorem streaming_start (abrMode : Nat) (agenda : Agenda Task) :
    Streaming (Client.configureStreams abrMode agenda) := by
  set streams : List UInt16 :=
    [video, audio, haptics] ++ if abrMode = 6 then [fovoptixBwProbe] else [] with hstreams
  obtain ⟨hreading, -, -, -⟩ := fresh_start streams maxUnreadPackets
  have hqueue : (Client.configureStreams abrMode agenda).queue = .empty := queueOf_start _ _ _
  refine ⟨⟨hreading, rfl⟩, rfl, rfl, ?_, fun hprobe => ?_, ?_⟩
  · exact subscribed_start streams _ (by simp [hstreams])
  · refine subscribed_start streams _ ?_
    simp only [Client.configureStreams] at hprobe
    split at hprobe
    · rename_i hmode
      simp [hstreams, hmode]
    · cases hprobe
  · rw [hqueue]
    rfl

end SiestaVR.Stream
