import SiestaVR.Stream.Client

/-!
# No reconstructed frame is left behind

Every packet that the network delivers completes at most one video frame, and one
`video_receive_thread` event is scheduled for it, which takes one frame out of the
queue. So at no time are there more frames waiting than events outstanding, and as
these are due 10 ns after the packet, no frame waits longer.

- `Requeued` is what a socket operation does to the queue of a stream: nothing, or one
  packet is added. It holds of `recv` on any message in any state.
- `Attended` is the invariant. It speaks of the frames queued up to some point, so that
  the bound on their number and the bound on their delay are one induction.
-/

namespace SiestaVR.Stream

open Lib

/-- The queue of reconstructed packets of a stream. -/
def queueOf (s : StreamSocket) (streamId : UInt16) : Channel ReconstructedPacket :=
  ((s.streamRecvComponents.lookup streamId).map (·.packetQueue)).getD .empty

/-! ## The queues of a socket -/

/-- The queue of every stream is as before, or one packet longer. -/
def Requeued (s s' : StreamSocket) : Prop :=
  ∀ sid, queueOf s' sid = queueOf s sid ∨ ∃ r, queueOf s' sid = (queueOf s sid).send r

section Queues

variable {cfg : SocketConfig} {s s' : StreamSocket} {c : StreamRecvComponents}

theorem Requeued.of_eq {s₁ s₂ : StreamSocket} (h : Requeued s₁ s₂)
    (hbefore : ∀ sid, queueOf s₁ sid = queueOf s sid)
    (hafter : ∀ sid, queueOf s' sid = queueOf s₂ sid) : Requeued s s' := by
  intro sid
  rw [hafter, ← hbefore]
  exact h sid

theorem queueOf_of_lookup {sid : UInt16}
    (h : s.streamRecvComponents.lookup sid = some c) : queueOf s sid = c.packetQueue := by
  rw [queueOf, h, Option.map_some, Option.getD_some]

theorem queueOf_insert {streamId : UInt16}
    (h : s'.streamRecvComponents = s.streamRecvComponents.insert streamId c) (sid : UInt16) :
    queueOf s' sid = if sid = streamId then c.packetQueue else queueOf s sid := by
  rw [queueOf, h, Table.lookup_insert_ite]
  split
  · rfl
  · rw [queueOf]

theorem queueOf_congr (h : s'.streamRecvComponents = s.streamRecvComponents) (sid : UInt16) :
    queueOf s' sid = queueOf s sid := by
  rw [queueOf, h, queueOf]

theorem queueOf_sweepStream (cfg : SocketConfig) (order : IterOrder) (now : Nat)
    (s : StreamSocket) (streamId sid : UInt16) :
    queueOf (s.sweepStream cfg order now streamId) sid = queueOf s sid := by
  cases hc : s.streamRecvComponents.lookup streamId with
  | none => simp only [StreamSocket.sweepStream, hc]
  | some c =>
    rw [queueOf_insert (sweepStream_streams hc cfg order now)]
    split
    · rename_i hsid
      rw [hsid, queueOf_of_lookup hc]
      rfl
    · rfl

theorem queueOf_sweep (cfg : SocketConfig) (order : IterOrder) (now : Nat) (s : StreamSocket)
    (sid : UInt16) : queueOf (s.sweepExpiredDeadlines cfg order now) sid = queueOf s sid :=
  foldl_view (queueOf · sid) (fun s a => queueOf_sweepStream cfg order now s a sid) _ s

/-- Filing a shard adds a packet to the queue of its stream if it completes it. -/
theorem requeued_fileShard (st : RecvState) {c₀ : StreamRecvComponents} (p : InProgressPacket)
    (hc : s.streamRecvComponents.lookup st.header.streamId = some c₀)
    (hqueue : c.packetQueue = c₀.packetQueue) : Requeued s (fileShard st c p s) := by
  have hown := queueOf_of_lookup hc
  intro sid
  by_cases hdone : p.receivedShardIndices.card = st.header.shardsCount
  · rw [fileShard, if_pos hdone, queueOf_insert (completePacket_frame st c p s).1]
    split
    · rename_i hsid
      rw [hsid, hown]
      exact .inr ⟨s.reconstruct st p, by rw [← hqueue]⟩
    · exact .inl rfl
  · rw [fileShard, if_neg hdone, queueOf_insert rfl]
    split
    · rename_i hsid
      rw [hsid, hown]
      exact .inl hqueue
    · exact .inl rfl

theorem requeued_recvShard {now : Nat} {order : IterOrder} {st : RecvState}
    {r r' : BufferedReceiver} {d : Except ConnectionError Unit}
    (h : s.recvShard cfg now order st r = some (d, s', r')) : Requeued s s' := by
  unfold StreamSocket.recvShard at h
  split at h
  · cases h
    exact fun sid => .inl rfl
  · rename_i c hc
    obtain ⟨⟨p, r₁⟩, -, hs'⟩ := Option.map_eq_some_iff.1 h
    cases hs'
    have hqueue := (StreamRecvComponents.openPacket_spec cfg now order st c).2.1
    exact (requeued_fileShard st p hc hqueue).of_eq (fun _ => rfl)
      (queueOf_sweep cfg order now (fileShard st (c.openPacket cfg now order st).2 p s))

/-- **One message, one packet at most**: receiving any message in any state adds at most
one packet to each queue. -/
theorem requeued_recv {now : Nat} {order : IterOrder}
    {r r' : BufferedReceiver} {d : Except ConnectionError Unit}
    (h : s.recv cfg now order r = some (d, s', r')) : Requeued s s' := by
  unfold StreamSocket.recv at h
  split at h
  · exact requeued_recvShard h
  · split at h
    · cases h
    · split at h
      · cases h
        exact fun sid => .inl rfl
      · dsimp only at h
        split at h
        · cases h
        · refine (requeued_recvShard h).of_eq (queueOf_congr ?_) fun _ => rfl
          dsimp only
          split
          · exact (noteVideoShard_frame _ _ _).1
          · rfl

/-- What a read does to the queue of its stream, whatever it makes of the packet. -/
theorem StreamReceiver.recv_queue {reader reader' : StreamReceiver} {c' : StreamRecvComponents}
    {d : Except ConnectionError ReceiverData} (h : reader.recv c = some (d, reader', c')) :
    (c.packetQueue.tryRecv = none ∧ c' = c) ∨
      ∃ packet, c.packetQueue.tryRecv = some (packet, c'.packetQueue) := by
  unfold StreamReceiver.recv at h
  split at h
  · rename_i hnone
    cases h
    exact .inl ⟨hnone, rfl⟩
  · rename_i packet queue hqueue
    obtain ⟨f, -, hf⟩ := Option.map_eq_some_iff.1 h
    cases f <;> (cases hf; exact .inr ⟨packet, hqueue⟩)

end Queues

/-! ## How packets are filed and read -/

variable {cfg : SocketConfig} {c c' : Client}

/-- What filing a packet can do to a client. -/
inductive FiledPacket (cfg : SocketConfig) (c : Client) (packet : MpduPacket) (order : IterOrder) :
    Client → Prop
  | ignored (h : packet.streamId = video → c.inputAppVideo = none) :
      FiledPacket cfg c packet order c
  | skipped (h : packet.streamId ≠ video) :
      FiledPacket cfg c packet order (c.skipMessage packet.dataInner)
  | video {c' : Client} (h : packet.streamId = Stream.video)
      (hc' : c.receiveShard cfg order packet.dataInner = some c') :
      FiledPacket cfg c packet order c'
  | probe {c' : Client} (h : packet.streamId = fovoptixBwProbe)
      (hprobing : c.inputAppBwProbe.isSome = true)
      (hc' : c.receiveShard cfg order packet.dataInner = some c') :
      FiledPacket cfg c packet order (c'.schedule receiveDelay .bwProbeReceiveThread)

theorem filedPacket {packet : MpduPacket} {order : IterOrder}
    (h : c.filePacket cfg packet order = some c') : FiledPacket cfg c packet order c' := by
  -- As in the source: two streams that are skipped, then video, then the probe.
  unfold Client.filePacket at h
  split at h
  · rename_i hstream
    have hother : packet.streamId ≠ video := by rw [hstream]; decide
    cases h
    split
    · exact .skipped hother
    · exact .ignored fun hvideo => absurd hvideo hother
  split at h
  · rename_i hstream
    have hother : packet.streamId ≠ video := by rw [hstream]; decide
    cases h
    split
    · exact .skipped hother
    · exact .ignored fun hvideo => absurd hvideo hother
  split at h
  · rename_i hvideo
    split at h
    · exact .video hvideo h
    · rename_i hnone
      cases h
      exact .ignored fun _ => Option.not_isSome_iff_eq_none.1 hnone
  rename_i hother
  split at h
  · rename_i hprobe
    split at h
    · rename_i hprobing
      obtain ⟨c₁, hc₁, rfl⟩ := Option.map_eq_some_iff.1 h
      exact .probe hprobe hprobing hc₁
    · cases h
      exact .ignored fun hvideo => absurd hvideo hother
  · cases h
    exact .ignored fun hvideo => absurd hvideo hother

/-- What a read of the video stream can do to a client. -/
inductive VideoRead (cfg : SocketConfig) (order : Shuffle (UInt32 × Nat)) (c : Client) :
    Client → Prop
  | outOfSession (h : ¬ (c.isStreaming = true ∧ c.inputAppVideo.isSome = true)) :
      VideoRead cfg order c c
  | unsubscribed (hnone : c.session.socket.streamRecvComponents.lookup video = none) :
      VideoRead cfg order c { c with session := flushLosses cfg order c.session }
  | nothing {reader reader' : StreamReceiver} {comps comps' : StreamRecvComponents}
      {err : ConnectionError} (hreader : c.inputAppVideo = some reader)
      (hcomps : c.session.socket.streamRecvComponents.lookup video = some comps)
      (hrecv : reader.recv comps = some (.error err, reader', comps')) :
      VideoRead cfg order c
        (Client.setComponents { c with session := flushLosses cfg order c.session } video comps')
  | frame {reader reader' : StreamReceiver} {comps comps' : StreamRecvComponents}
      {data : ReceiverData} {c' : Client} (hreader : c.inputAppVideo = some reader)
      (hcomps : c.session.socket.streamRecvComponents.lookup video = some comps)
      (hrecv : reader.recv comps = some (.ok data, reader', comps'))
      (hc' : (Client.setComponents { c with session := flushLosses cfg order c.session } video
        comps').pushFrame data = some c') : VideoRead cfg order c c'

theorem videoRead {order : Shuffle (UInt32 × Nat)}
    (h : c.videoReceiveThread cfg order = some c') : VideoRead cfg order c c' := by
  unfold Client.videoReceiveThread at h
  split at h
  · rename_i reader hstreaming hreader
    dsimp only at h
    rw [streams_flushLosses] at h
    split at h
    · rename_i hnone
      cases h
      exact .unsubscribed hnone
    · rename_i comps hcomps
      obtain ⟨⟨d, reader', comps'⟩, hrecv, hc'⟩ := Option.bind_eq_some_iff.1 h
      cases d with
      | error err =>
        cases hc'
        exact .nothing hreader hcomps hrecv
      | ok data => exact .frame hreader hcomps hrecv hc'
  · rename_i hout
    cases h
    refine .outOfSession fun hin => ?_
    obtain ⟨reader, hreader⟩ := Option.isSome_iff_exists.1 hin.2
    exact hout reader hin.1 hreader

theorem bwProbeRead (h : c.bwProbeReceiveThread cfg = some c') :
    c' = c ∨ ∃ reader s', Stream.step cfg c.session (.read fovoptixBwProbe reader) = some s' ∧
      c' = { c with session := s' } := by
  unfold Client.bwProbeReceiveThread at h
  split at h
  · cases h
    exact .inl rfl
  · rename_i reader _
    obtain ⟨s', hs', rfl⟩ := Option.map_eq_some_iff.1 h
    exact .inr ⟨reader, s', hs', rfl⟩

/-- `vsync` sweeps and flushes, and the rest is between it and the decoder queue. -/
theorem vsync_eq (cfg : SocketConfig) (order : IterOrder) (flushOrder : Shuffle (UInt32 × Nat))
    (c : Client) : ∃ queue ready, c.vsync cfg order flushOrder =
      { c with
        session := flushLosses cfg flushOrder { c.session with
          socket := c.session.socket.sweepExpiredDeadlines cfg order c.agenda.now }
        decoderQueue := queue
        jitterBufferWarmupReady := ready } := by
  unfold Client.vsync
  dsimp only
  split
  · exact ⟨_, _, rfl⟩
  · exact ⟨_, _, rfl⟩

/-! ## The invariant -/

/-- The reconstructed video packets. -/
abbrev Client.queue (c : Client) : Channel ReconstructedPacket := queueOf c.session.socket video

/-- A client in a session, with as many video reads scheduled within the delay as packets
wait, and as many due by `t` as are not yet taken of the first `n` packets. -/
structure Attended (n t : Nat) (c : Client) : Prop where
  streaming : c.isStreaming = true
  reading : c.inputAppVideo.isSome = true
  bound : c.queue.waiting ≤ c.agenda.dueBy .videoReceiveThread (c.agenda.now + receiveDelay)
  issued : n ≤ c.queue.sent.length
  backlog : n - c.queue.taken ≤ c.agenda.dueBy .videoReceiveThread t

section Attended

variable {n t now : Nat} {a : Agenda Task}

/-- The invariant only looks at the queue, the scheduled reads and whether the client is
in a session. -/
theorem Attended.congr (h : Attended n t c) (hstreaming : c'.isStreaming = c.isStreaming)
    (hreading : c'.inputAppVideo = c.inputAppVideo) (hqueue : c'.queue = c.queue)
    (hnow : c.agenda.now ≤ c'.agenda.now)
    (hdue : ∀ t, c'.agenda.dueBy .videoReceiveThread t = c.agenda.dueBy .videoReceiveThread t) :
    Attended n t c' where
  streaming := hstreaming.trans h.streaming
  reading := hreading ▸ h.reading
  bound := by
    rw [hqueue, hdue]
    exact h.bound.trans (Agenda.dueBy_mono _ _ (Nat.add_le_add_right hnow _))
  issued := hqueue ▸ h.issued
  backlog := by
    rw [hqueue, hdue]
    exact h.backlog

theorem Attended.advance (h : Attended n t c) (ha : c.agenda.advance now = some a) :
    Attended n t { c with agenda := a } := by
  obtain ⟨⟨hnow, -⟩, rfl⟩ := Agenda.advance_eq_some.1 ha
  exact h.congr rfl rfl rfl hnow fun _ => rfl

/-- A packet that adds at most one to the queue comes with a read. -/
theorem Attended.file (h : Attended n t c) (hstreaming : c'.isStreaming = c.isStreaming)
    (hreading : c'.inputAppVideo = c.inputAppVideo)
    (hqueue : Requeued c.session.socket c'.session.socket)
    (hnow : c'.agenda.now = c.agenda.now)
    (hdue : ∀ t, c'.agenda.dueBy .videoReceiveThread t = c.agenda.dueBy .videoReceiveThread t) :
    Attended n t (c'.schedule receiveDelay .videoReceiveThread) := by
  have hsched : ∀ t', (c'.schedule receiveDelay .videoReceiveThread).agenda.dueBy
      .videoReceiveThread t' = c.agenda.dueBy .videoReceiveThread t' +
        if c.agenda.now + receiveDelay ≤ t' then 1 else 0 := by
    intro t'
    rw [Client.schedule, Agenda.dueBy_schedule, hdue, hnow]
    simp only [true_and]
  obtain ⟨hs, hr, hbound, hissued, hbacklog⟩ := h
  have hlen : c'.queue.sent.length ≤ c.queue.sent.length + 1 ∧
      c.queue.sent.length ≤ c'.queue.sent.length ∧ c'.queue.taken = c.queue.taken := by
    rcases hqueue video with hq | ⟨r, hq⟩
    · rw [Client.queue, hq]
      exact ⟨Nat.le_add_right _ _, Nat.le_refl _, rfl⟩
    · rw [Client.queue, hq, Channel.send, List.length_append]
      exact ⟨Nat.le_refl _, Nat.le_add_right _ _, rfl⟩
  -- One packet more at most, and one read more that is due after the delay.
  refine ⟨hstreaming.trans hs, hreading ▸ hr, ?_, hissued.trans hlen.2.1, ?_⟩
  · rw [hsched]
    show c'.queue.waiting ≤ c.agenda.dueBy _ (c'.agenda.now + receiveDelay) +
      if c.agenda.now + receiveDelay ≤ c'.agenda.now + receiveDelay then 1 else 0
    rw [hnow, if_pos (Nat.le_refl _)]
    unfold Channel.waiting at hbound ⊢
    omega
  · rw [hsched]
    show n - c'.queue.taken ≤ _
    omega

/-! ## The events -/

theorem requeued_receiveShard {order : IterOrder} {data : Bytes}
    (h : c.receiveShard cfg order data = some c') :
    Requeued c.session.socket c'.session.socket ∧ c'.isStreaming = c.isStreaming ∧
      c'.inputAppVideo = c.inputAppVideo ∧ c'.agenda = c.agenda := by
  obtain ⟨s, hs, rfl⟩ := Option.map_eq_some_iff.1 h
  obtain ⟨⟨d, socket, channel⟩, hrecv, rfl⟩ := Option.map_eq_some_iff.1 hs
  exact ⟨requeued_recv hrecv, rfl, rfl, rfl⟩

theorem requeued_filePacket {packet : MpduPacket} {order : IterOrder}
    (h : c.filePacket cfg packet order = some c') :
    Requeued c.session.socket c'.session.socket ∧ c'.isStreaming = c.isStreaming ∧
      c'.inputAppVideo = c.inputAppVideo ∧
      (c'.agenda = c.agenda ∨
        c'.agenda = c.agenda.schedule receiveDelay .bwProbeReceiveThread) := by
  cases filedPacket h with
  | ignored => exact ⟨fun _ => .inl rfl, rfl, rfl, .inl rfl⟩
  | skipped => exact ⟨fun _ => .inl rfl, rfl, rfl, .inl rfl⟩
  | video _ hc' =>
    obtain ⟨hqueue, hs, hr, ha⟩ := requeued_receiveShard hc'
    exact ⟨hqueue, hs, hr, .inl ha⟩
  | probe _ _ hc' =>
    obtain ⟨hqueue, hs, hr, ha⟩ := requeued_receiveShard hc'
    exact ⟨hqueue, hs, hr, .inr (by rw [← ha]; rfl)⟩

theorem Attended.onPacket {packet : MpduPacket × IterOrder}
    (h : Attended n t c) (hc' : c.onPacket cfg packet = some c') : Attended n t c' := by
  obtain ⟨c₁, h₁, rfl⟩ := Option.map_eq_some_iff.1 hc'
  obtain ⟨hqueue, hs, hr, ha | ha⟩ := requeued_filePacket h₁
  · exact h.file hs hr hqueue (by rw [ha]) fun t => by rw [ha]
  · refine h.file hs hr hqueue (by rw [ha]; rfl) fun t => ?_
    rw [ha, Agenda.dueBy_schedule, if_neg (by simp), Nat.add_zero]

theorem Attended.inFromNetwork {packets : List (MpduPacket × IterOrder)}
    (h : Attended n t c) (hc' : c.inFromNetwork cfg packets = some c') : Attended n t c' :=
  Run.state_invariant (P := Attended n t) h (fun _ _ _ hp _ hs => hp.onPacket hs)
    (.of_runs (allOk_true _ _ _) hc')

/-- Reading takes the oldest packet, if there is one. -/
theorem queue_videoReceiveThread {order : Shuffle (UInt32 × Nat)}
    (hstreaming : c.isStreaming = true) (hreading : c.inputAppVideo.isSome = true)
    (h : c.videoReceiveThread cfg order = some c') :
    (c'.isStreaming = c.isStreaming ∧ c'.inputAppVideo = c.inputAppVideo) ∧
    ((c.queue.tryRecv = none ∧ c'.queue = c.queue) ∨
      ∃ packet, c.queue.tryRecv = some (packet, c'.queue)) := by
  -- the queue is that of the components a read leaves behind
  have hread : ∀ {reader reader' : StreamReceiver} {comps comps' : StreamRecvComponents}
      {d : Except ConnectionError ReceiverData},
      c.session.socket.streamRecvComponents.lookup video = some comps →
      reader.recv comps = some (d, reader', comps') →
      (c.queue.tryRecv = none ∧ comps'.packetQueue = c.queue) ∨
        ∃ packet, c.queue.tryRecv = some (packet, comps'.packetQueue) := by
    intro reader reader' comps comps' d hcomps hrecv
    rw [Client.queue, queueOf_of_lookup hcomps]
    rcases StreamReceiver.recv_queue hrecv with ⟨hnone, rfl⟩ | hsome
    · exact .inl ⟨hnone, rfl⟩
    · exact .inr hsome
  have hqueue : ∀ comps', (Client.setComponents { c with
      session := flushLosses cfg order c.session } video comps').queue = comps'.packetQueue :=
    fun comps' => (queueOf_insert rfl video).trans (if_pos rfl)
  cases videoRead h with
  | outOfSession hout => exact absurd ⟨hstreaming, hreading⟩ hout
  | unsubscribed hnone =>
    have hsame := queueOf_congr (streams_flushLosses cfg order c.session) video
    refine ⟨⟨rfl, rfl⟩, .inl ⟨?_, hsame⟩⟩
    rw [Client.queue, queueOf, hnone]
    rfl
  | nothing _ hcomps hrecv =>
    rw [hqueue]
    exact ⟨⟨rfl, rfl⟩, hread hcomps hrecv⟩
  | frame _ hcomps hrecv hc' =>
    obtain ⟨nal, -, rfl⟩ := Option.map_eq_some_iff.1 hc'
    refine ⟨⟨rfl, rfl⟩, ?_⟩
    rw [show Client.queue _ = _ from hqueue _]
    exact hread hcomps hrecv

theorem agenda_videoReceiveThread {order : Shuffle (UInt32 × Nat)}
    (h : c.videoReceiveThread cfg order = some c') : c'.agenda = c.agenda := by
  cases videoRead h with
  | frame _ _ _ hc' =>
    obtain ⟨nal, -, rfl⟩ := Option.map_eq_some_iff.1 hc'
    rfl
  | _ => rfl

theorem Attended.videoReceiveThread {order : Shuffle (UInt32 × Nat)}
    (h : Attended n t c) (ha : c.agenda.fire now .videoReceiveThread = some a)
    (hc' : Client.videoReceiveThread cfg order { c with agenda := a } = some c') :
    Attended n t c' := by
  obtain ⟨hs, hr, hbound, hissued, hbacklog⟩ := h
  have ha' : c'.agenda = a := agenda_videoReceiveThread hc'
  obtain ⟨⟨hs', hr'⟩, hqueue⟩ := queue_videoReceiveThread (c := { c with agenda := a }) hs hr hc'
  have hdue := Agenda.dueBy_fire ha .videoReceiveThread
  obtain ⟨-, ⟨hnow, -⟩, hnow'⟩ := Agenda.fire_eq_some.1 ha
  have hmono := Agenda.dueBy_mono c.agenda .videoReceiveThread
    (Nat.add_le_add_right hnow receiveDelay)
  -- The event that ran is no longer due, neither within the delay nor by `t`.
  have hhere := hdue (now + receiveDelay)
  have hthere := hdue t
  simp only [true_and] at hhere hthere
  rw [if_pos (Nat.le_add_right _ _)] at hhere
  have hagenda : c'.agenda.now = now := by rw [ha', hnow']
  unfold Channel.waiting at hbound
  rcases hqueue with ⟨hnone, hsame⟩ | ⟨packet, hsome⟩
  · -- nothing waits: every packet has been taken
    have htaken : c.queue.taken = c.queue.sent.length := Channel.tryRecv_eq_none.1 hnone
    have hqueue : c'.queue = c.queue := hsame
    refine ⟨hs'.trans hs, hr' ▸ hr, ?_, hqueue ▸ hissued, ?_⟩
    · rw [hqueue, Channel.waiting]
      omega
    · rw [hqueue]
      omega
  · have htaken : c'.queue.taken = c.queue.taken + 1 := Channel.taken_of_tryRecv hsome
    have hsent : c'.queue.sent = c.queue.sent := Channel.sent_of_tryRecv hsome
    refine ⟨hs'.trans hs, hr' ▸ hr, ?_, hsent ▸ hissued, ?_⟩
    · rw [hagenda, ha', Channel.waiting, hsent, htaken]
      show c.queue.sent.length - (c.queue.taken + 1) ≤ a.dueBy _ _
      omega
    · rw [ha', htaken]
      show n - (c.queue.taken + 1) ≤ a.dueBy _ _
      split at hthere <;> omega

theorem queueOf_read {s s' : Session} {streamId : UInt16}
    {reader : StreamReceiver} (h : Stream.step cfg s (.read streamId reader) = some s')
    {sid : UInt16} (hsid : sid ≠ streamId) : queueOf s'.socket sid = queueOf s.socket sid := by
  obtain rfl | ⟨c, c', d, reader', -, -, rfl⟩ := read_cases h
  · rfl
  · exact (queueOf_insert rfl sid).trans (if_neg hsid)

theorem Attended.bwProbeReceiveThread (h : Attended n t c)
    (ha : c.agenda.fire now .bwProbeReceiveThread = some a)
    (hc' : Client.bwProbeReceiveThread cfg { c with agenda := a } = some c') : Attended n t c' := by
  have hdue := Agenda.dueBy_fire ha .videoReceiveThread
  obtain ⟨-, ⟨hnow, -⟩, hnow'⟩ := Agenda.fire_eq_some.1 ha
  have hle : c.agenda.now ≤ a.now := by rw [hnow']; exact hnow
  have hfire : Attended n t { c with agenda := a } :=
    h.congr rfl rfl rfl hle fun t => by simpa using hdue t
  obtain rfl | ⟨reader, s', hs', rfl⟩ := bwProbeRead hc'
  · exact hfire
  · exact hfire.congr rfl rfl (queueOf_read hs' (by decide)) (Nat.le_refl _) fun _ => rfl

theorem Attended.vsync (cfg : SocketConfig) (order : IterOrder)
    (flushOrder : Shuffle (UInt32 × Nat)) (h : Attended n t c) :
    Attended n t (c.vsync cfg order flushOrder) := by
  obtain ⟨queue, ready, heq⟩ := vsync_eq cfg order flushOrder c
  rw [heq]
  refine h.congr rfl rfl ?_ (Nat.le_refl _) fun _ => rfl
  exact (queueOf_congr (streams_flushLosses cfg flushOrder _) video).trans
    (queueOf_sweep cfg order _ _ video)

/-- **Step**: every event keeps a client attended. -/
theorem Attended.step {e : ClientEvent} (h : Attended n t c)
    (hc' : c.step cfg e = some c') : Attended n t c' := by
  cases e with
  | network now packets =>
    obtain ⟨a, ha, hc'⟩ := Option.bind_eq_some_iff.1 hc'
    exact (h.advance ha).inFromNetwork hc'
  | videoReceiveThread now order =>
    obtain ⟨a, ha, hc'⟩ := Option.bind_eq_some_iff.1 hc'
    exact h.videoReceiveThread ha hc'
  | bwProbeReceiveThread now =>
    obtain ⟨a, ha, hc'⟩ := Option.bind_eq_some_iff.1 hc'
    exact h.bwProbeReceiveThread ha hc'
  | vsync now order flushOrder =>
    obtain ⟨a, ha, rfl⟩ := Option.map_eq_some_iff.1 hc'
    exact (h.advance ha).vsync cfg order flushOrder

end Attended

/-! ## Whole runs -/

/-- When an event happens. -/
def ClientEvent.now : ClientEvent → Nat
  | .network now _ => now
  | .videoReceiveThread now _ => now
  | .bwProbeReceiveThread now => now
  | .vsync now _ _ => now

/-- **The rule for the agenda**: time passes or a task is run, and then reads are scheduled. -/
theorem agenda_step {e : ClientEvent} {P : Agenda Task → Prop}
    (hadvance : ∀ a, c.agenda.advance e.now = some a → P a)
    (hfire : ∀ a x, c.agenda.fire e.now x = some a → P a)
    (hschedule : ∀ a delay x, P a → P (a.schedule delay x)) (h : c.step cfg e = some c') :
    P c'.agenda := by
  cases e with
  | network now packets =>
    obtain ⟨a, ha, hc'⟩ := Option.bind_eq_some_iff.1 h
    refine Run.state_invariant (P := fun c : Client => P c.agenda) (hadvance a ha) ?_
      (.of_runs (allOk_true _ _ _) hc')
    rintro c packet c' hp - hs
    obtain ⟨c₁, h₁, rfl⟩ := Option.map_eq_some_iff.1 hs
    obtain ⟨-, -, -, ha | ha⟩ := requeued_filePacket h₁
    · exact hschedule _ _ _ (ha ▸ hp)
    · exact hschedule _ _ _ (ha ▸ hschedule _ _ _ hp)
  | videoReceiveThread now order =>
    obtain ⟨a, ha, hc'⟩ := Option.bind_eq_some_iff.1 h
    rw [agenda_videoReceiveThread hc']
    exact hfire a _ ha
  | bwProbeReceiveThread now =>
    obtain ⟨a, ha, hc'⟩ := Option.bind_eq_some_iff.1 h
    obtain rfl | ⟨reader, s', -, rfl⟩ := bwProbeRead hc'
    · exact hfire a _ ha
    · exact hfire a _ ha
  | vsync now order flushOrder =>
    obtain ⟨a, ha, rfl⟩ := Option.map_eq_some_iff.1 h
    obtain ⟨queue, ready, heq⟩ := vsync_eq cfg order flushOrder { c with agenda := a }
    rw [heq]
    exact hadvance a ha

/-- No event is overdue after an event. -/
theorem onTime_step {e : ClientEvent} (h : c.step cfg e = some c') :
    c'.agenda.OnTime :=
  agenda_step (fun _ => .of_advance) (fun _ _ => .of_fire) (fun _ _ _ h => h.schedule _ _) h

theorem queueOf_start (streams : List UInt16) (n : Nat) (sid : UInt16) :
    queueOf (Session.start streams n).socket sid = .empty := by
  suffices h : ∀ s : StreamSocket, queueOf s sid = .empty →
      queueOf (streams.foldl (fun s id => s.subscribeToStream id n) s) sid = .empty from
    h .build rfl
  induction streams with
  | nil => exact fun s h => h
  | cons id streams ih =>
    intro s h
    refine ih _ ?_
    rw [queueOf_insert rfl]
    split
    · rfl
    · exact h

theorem attended_start (abrMode : Nat) (agenda : Agenda Task) (t : Nat) :
    Attended 0 t (Client.configureStreams abrMode agenda) := by
  have hqueue : (Client.configureStreams abrMode agenda).queue = .empty := queueOf_start _ _ _
  refine ⟨rfl, rfl, ?_, Nat.zero_le _, ?_⟩
  · rw [hqueue]
    exact Nat.zero_le _
  · rw [Nat.zero_sub]
    exact Nat.zero_le _

/-- **No frame is left behind**: in every state of a session, at most as many reconstructed
video packets wait as `video_receive_thread` events are outstanding, and the packets that
wait are all taken out before the clock has moved on by more than the delay of these
events. -/
theorem no_frame_left_behind (cfg : SocketConfig) (abrMode : Nat) (agenda : Agenda Task)
    {es : List ClientEvent} {c : Client}
    (h : Run (Client.step cfg) (fun _ _ => True) (Client.configureStreams abrMode agenda) es c) :
    c.queue.waiting ≤ c.agenda.outstanding .videoReceiveThread ∧
    ∀ es' c', Run (Client.step cfg) (fun _ _ => True) c es' c' →
      c.agenda.now + receiveDelay < c'.agenda.now → c.queue.sent.length ≤ c'.queue.taken := by
  have hattended : Attended 0 0 c :=
    Run.state_invariant (P := Attended 0 0) (attended_start abrMode agenda 0)
      (fun _ _ _ hp _ hs => hp.step hs) h
  refine ⟨hattended.bound.trans (Agenda.dueBy_le_outstanding _ _ _), fun es' c' h' hlater => ?_⟩
  -- from here on the packets queued so far are followed
  have hfrom : Attended c.queue.sent.length (c.agenda.now + receiveDelay) c :=
    ⟨hattended.streaming, hattended.reading, hattended.bound, Nat.le_refl _, hattended.bound⟩
  obtain ⟨hthen, hontime⟩ := Run.state_invariant
    (P := fun c' => Attended c.queue.sent.length (c.agenda.now + receiveDelay) c' ∧
      (c'.agenda.now ≤ c.agenda.now + receiveDelay ∨ c'.agenda.OnTime))
    ⟨hfrom, .inl (Nat.le_add_right _ _)⟩
    (fun _ _ _ hp _ hs => ⟨hp.1.step hs, .inr (onTime_step hs)⟩) h'
  have hnone := (hontime.resolve_left (Nat.not_le.2 hlater)).dueBy_eq_zero
    .videoReceiveThread hlater
  have hbacklog := hthen.backlog
  omega

/-- Shards of at most ten bytes of data. -/
def clientSocket : SocketConfig := { smallSocket with maxPacketSize := 32 }

/-- Every frame has twenty bytes, in two shards, and is generated at time 0. -/
def clientBroadcast : Broadcast clientSocket where
  sender := { smallSender with maxPacketSize := 32 }
  frame := fun _ => ⟨(List.range 42).map UInt8.ofNat, 22, 20⟩
  stamp := fun _ => 0
  isVideo := rfl
  shardable := fun _ => ⟨rfl, by decide, by decide, by decide, by decide, by
    show shardsNeeded 32 20 < 2 ^ 32
    decide⟩

/-- A shard as a packet of the network. -/
def Broadcast.packet {cfg : SocketConfig} (B : Broadcast cfg) (f : UInt32) (k : Nat) :
    MpduPacket × IterOrder :=
  (⟨video, B.shard f k⟩, .id)

/-- Frames 7 and 8 in one batch. -/
def mixedBatch : ClientEvent :=
  .network 5 [clientBroadcast.packet 7 0, clientBroadcast.packet 8 0, clientBroadcast.packet 7 1,
    clientBroadcast.packet 8 1]

theorem no_frame_left_behind_mixed : ∃ c,
    Run (Client.step clientSocket) (fun _ _ => True) (.configureStreams 0 ⟨0, []⟩) [mixedBatch] c ∧
    c.queue.waiting = 2 ∧ c.agenda.outstanding .videoReceiveThread = 4 ∧
    c.queue.waiting ≤ c.agenda.outstanding .videoReceiveThread := by
  have hruns : (runs (Client.step clientSocket) (.configureStreams 0 ⟨0, []⟩) [mixedBatch]).map
      (fun c => (c.queue.waiting, c.agenda.outstanding .videoReceiveThread)) = some (2, 4) := by
    decide +kernel
  obtain ⟨c, hrun, hview⟩ := exists_run_of_map hruns
  obtain ⟨hwaiting, houtstanding⟩ := Prod.mk.inj hview
  exact ⟨c, hrun, hwaiting, houtstanding, (no_frame_left_behind clientSocket 0 ⟨0, []⟩ hrun).1⟩

end SiestaVR.Stream
