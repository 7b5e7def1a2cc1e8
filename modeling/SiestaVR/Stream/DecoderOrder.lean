import Mathlib.Data.List.Chain
import SiestaVR.Stream.ClientSteps

/-!
# The order of frames at the decoder

`StreamReceiver::recv` returns frames in increasing order, discards one that comes after
a later one, and counts the indices in between as skipped. All of this rests on the
index of the last frame returned, which is kept in the reading end of the stream. But
`video_receive_thread` works on a copy of the reading end that it makes anew for every
event. So every reconstructed frame looks like the first one: it is accepted, and no
frame is ever skipped.

`decoder_order_lost` has a run for both. `decoder_order` is what remains: frames arrive
at the decoder in order, with the right number of skipped frames, as long as each frame
that is completed is the one after the last.
-/

namespace SiestaVR.Stream

open Lib

/-- **Frames in order**: the frames pushed to the decoder queue have increasing indices,
and the statistics of each one after the first count the indices left out. -/
def FramesInOrder (c : Client) : Prop :=
  c.pushed.IsChain fun a b => a.1 < b.1 ∧ b.2.framesSkipped.toNat = b.1 - a.1 - 1

instance (c : Client) : Decidable (FramesInOrder c) :=
  inferInstanceAs (Decidable (List.IsChain _ _))

/-- With the shard, the video frame has all its shards. -/
def CompletesFrame (s : StreamSocket) (message : Bytes) : Prop :=
  (insert (headerOf message).shardIndex (receivedOf s (headerOf message).packetIndex)).card =
    (headerOf message).shardsCount

instance (s : StreamSocket) (message : Bytes) : Decidable (CompletesFrame s message) :=
  inferInstanceAs (Decidable (_ = _))

/-- The packet is a shard of the stream in its header, and if it completes a video frame,
then the one after the frame completed last. -/
def NextFrame (c : Client) (packet : MpduPacket × IterOrder) : Prop :=
  (packet.1.streamId = video ∨ packet.1.streamId = fovoptixBwProbe →
    WellFormed packet.1.dataInner ∧
    (headerOf packet.1.dataInner).streamId = packet.1.streamId) ∧
  (packet.1.streamId = video → CompletesFrame c.session.socket packet.1.dataInner →
    ∀ r ∈ (sentOf c.session.socket video).getLast?,
      (headerOf packet.1.dataInner).packetIndex.toNat = r.index.toNat + 1)

instance (c : Client) (packet : MpduPacket × IterOrder) : Decidable (NextFrame c packet) :=
  inferInstanceAs (Decidable (_ ∧ _))

/-- Every packet of a batch meets `NextFrame` when its turn comes. -/
def FramesFollow (cfg : SocketConfig) (c : Client) : ClientEvent → Prop
  | .network now packets => ∀ a ∈ c.agenda.advance now,
    allOk (Client.onPacket cfg) NextFrame { c with agenda := a } packets
  | _ => True

instance (cfg : SocketConfig) (c : Client) : ∀ e, Decidable (FramesFollow cfg c e)
  | .network now packets => inferInstanceAs (Decidable (∀ a ∈ c.agenda.advance now,
    allOk (Client.onPacket cfg) NextFrame { c with agenda := a } packets))
  | .videoReceiveThread _ _ => inferInstanceAs (Decidable True)
  | .bwProbeReceiveThread _ => inferInstanceAs (Decidable True)
  | .vsync _ _ _ => inferInstanceAs (Decidable True)

/-! ## The invariant -/

/-- The video frames have been completed one after the other, and those taken out were
pushed to the decoder with no frame skipped. -/
structure Ordered (c : Client) : Prop where
  idle : c.session.Idle
  streaming : c.isStreaming = true
  reading : c.inputAppVideo = some .new
  subscribed : video ∈ c.session.socket.streamRecvComponents
  probing : c.inputAppBwProbe.isSome = true →
    fovoptixBwProbe ∈ c.session.socket.streamRecvComponents
  consecutive : (sentOf c.session.socket video).IsChain fun r r' =>
    r'.index.toNat = r.index.toNat + 1
  named : ∀ r ∈ sentOf c.session.socket video, r.frameIndex = r.index
  pushed : c.pushed.map (fun x => (x.1, x.2.framesSkipped)) =
    (c.queue.sent.take c.queue.taken).map fun r => (r.index.toNat, 0)

theorem Ordered.framesInOrder {c : Client} (h : Ordered c) : FramesInOrder c := by
  have hchain : (c.pushed.map fun x => (x.1, x.2.framesSkipped)).IsChain fun a b =>
      a.1 < b.1 ∧ b.2.toNat = b.1 - a.1 - 1 := by
    rw [h.pushed, List.isChain_map]
    have htaken := (sent_queueOf c.session.socket video ▸ h.consecutive).take c.queue.taken
    refine htaken.imp fun r r' hr => ?_
    simp only [hr]
    exact ⟨Nat.lt_succ_self _, by simp⟩
  exact (List.isChain_map _).1 hchain

section Events

variable {cfg : SocketConfig} {c c' : Client}

/-- In a session, the order of the completed frames is that of the frames pushed. -/
theorem Ordered.of_streaming (h : Streaming c)
    (hconsecutive : (sentOf c.session.socket video).IsChain fun r r' =>
      r'.index.toNat = r.index.toNat + 1)
    (hnamed : ∀ r ∈ sentOf c.session.socket video, r.frameIndex = r.index) : Ordered c := by
  refine ⟨h.idle, h.streaming, h.reading, h.subscribed, h.probing, hconsecutive, hnamed, ?_⟩
  have hview := congrArg (List.map fun y => (y.1, y.2.framesSkipped)) h.pushed
  rw [List.map_map, List.map_map] at hview
  refine hview.trans (List.map_congr_left fun r hr => ?_)
  have hmem : r ∈ sentOf c.session.socket video := by
    rw [← sent_queueOf]
    exact List.mem_of_mem_take hr
  show (r.frameIndex.toNat, (0 : UInt32)) = _
  rw [hnamed r hmem]

/-- A packet that completes the next frame at most. -/
theorem Ordered.onPacket {packet : MpduPacket × IterOrder} (hs : Streaming c) (h : Ordered c)
    (hok : NextFrame c packet) (hc' : c.onPacket cfg packet = some c') :
    Streaming c' ∧ Ordered c' := by
  obtain ⟨haddressed, hnext⟩ := hok
  obtain ⟨hs', -, heffect⟩ := hs.onPacket haddressed hc'
  refine ⟨hs', ?_⟩
  split at heffect
  · rename_i hvideo
    obtain ⟨hwf, hsid⟩ := haddressed (.inl hvideo)
    obtain ⟨s', filed, p, r, hstep, hfiled, hswept, -⟩ := step_shard cfg h.idle hwf
      ((hsid.trans hvideo) ▸ h.subscribed) c.agenda.now packet.2
    rw [heffect] at hstep
    cases hstep
    have hsent := (hswept.sent video).trans (hfiled.sent video)
    refine .of_streaming hs' ?_ ?_
    · rw [hsent, List.isChain_append]
      refine ⟨h.consecutive, by split <;> simp, fun r₁ hr₁ r₂ hr₂ => ?_⟩
      split at hr₂
      · rename_i hdone
        cases hr₂
        rw [hfiled.packet.1]
        refine hnext hvideo ?_ r₁ hr₁
        rw [CompletesFrame, ← hfiled.received_eq hdone.1.symm]
        exact hdone.2
      · cases hr₂
    · rw [hsent]
      intro r' hr'
      rcases List.mem_append.1 hr' with hr' | hr'
      · exact h.named r' hr'
      · split at hr'
        · rw [List.mem_singleton.1 hr', hfiled.frame, hfiled.packet.1]
        · exact absurd hr' List.not_mem_nil
  · exact .of_streaming hs' (heffect.sent ▸ h.consecutive) (heffect.sent ▸ h.named)

/-- **Step**: an event whose packets complete the next frame at most keeps the order. -/
theorem Ordered.step {e : ClientEvent} (hs : Streaming c) (h : Ordered c)
    (hok : FramesFollow cfg c e) (hc' : c.step cfg e = some c') : Streaming c' ∧ Ordered c' := by
  rcases e.network_or_quiet with ⟨now, packets, rfl⟩ | hquiet
  · obtain ⟨a, ha, hc'⟩ := Option.bind_eq_some_iff.1 hc'
    have h₀ : Ordered { c with agenda := a } :=
      .of_streaming (hs.setAgenda a) h.consecutive h.named
    exact Run.state_invariant (P := fun c => Streaming c ∧ Ordered c) ⟨hs.setAgenda a, h₀⟩
      (fun _ _ _ hp hok hs => hp.2.onPacket hp.1 hok hs) (.of_runs (hok a ha) hc')
  · obtain ⟨hs', hsame⟩ := hs.step_quiet hquiet hc'
    exact ⟨hs', .of_streaming hs' (hsame.sent ▸ h.consecutive) (hsame.sent ▸ h.named)⟩

end Events

/-! ## Whole runs -/

theorem ordered_start (abrMode : Nat) (agenda : Agenda Task) :
    Ordered (Client.configureStreams abrMode agenda) := by
  obtain ⟨-, -, -, hsent⟩ := fresh_start
    ([video, audio, haptics] ++ if abrMode = 6 then [fovoptixBwProbe] else []) maxUnreadPackets
  have hnone : sentOf (Client.configureStreams abrMode agenda).session.socket video = [] :=
    hsent video
  refine .of_streaming (streaming_start abrMode agenda) ?_ ?_
  · rw [hnone]
    exact .nil
  · rw [hnone]
    exact fun r hr => absurd hr List.not_mem_nil

/-- **Frames reach the decoder in order when they are completed in order**: in every state
of a session in which each completed video frame was the one after the frame completed
before, the frames pushed to the decoder have increasing indices and the right number of
skipped frames. -/
theorem decoder_order (cfg : SocketConfig) (abrMode : Nat) (agenda : Agenda Task)
    {es : List ClientEvent} {c : Client}
    (h : Run (Client.step cfg) (FramesFollow cfg) (Client.configureStreams abrMode agenda) es c) :
    FramesInOrder c :=
  (Run.state_invariant (P := fun c => Streaming c ∧ Ordered c)
    ⟨streaming_start abrMode agenda, ordered_start abrMode agenda⟩
    (fun _ _ _ hp hok hs => hp.2.step hp.1 hok hs) h).2.framesInOrder

/-- Frames 7 and 8 in one batch, and the reads for it. -/
def orderedFrames : List ClientEvent :=
  [mixedBatch] ++ List.replicate 4 (.videoReceiveThread 15 .id)

theorem decoder_order_mixed : ∃ c,
    Run (Client.step clientSocket) (FramesFollow clientSocket) (.configureStreams 0 ⟨0, []⟩)
      orderedFrames c ∧
    c.pushed.map (fun x => (x.1, x.2.framesSkipped)) = [(7, 0), (8, 0)] ∧ FramesInOrder c := by
  have hruns : (runs (Client.step clientSocket) (.configureStreams 0 ⟨0, []⟩) orderedFrames).map
      (fun c => c.pushed.map fun x => (x.1, x.2.framesSkipped)) = some [(7, 0), (8, 0)] := by
    decide +kernel
  obtain ⟨c, hc, hview⟩ := Option.map_eq_some_iff.1 hruns
  have hrun : Run (Client.step clientSocket) (FramesFollow clientSocket)
      (.configureStreams 0 ⟨0, []⟩) orderedFrames c := .of_runs (by decide +kernel) hc
  exact ⟨c, hrun, hview, decoder_order clientSocket 0 ⟨0, []⟩ hrun⟩

/-! ## Frames out of order -/

/-- Frame 9 is complete before frame 7, and frame 8 never arrives. -/
def overtakenFrames : List ClientEvent :=
  [.network 5 [clientBroadcast.packet 7 0, clientBroadcast.packet 9 0,
      clientBroadcast.packet 9 1, clientBroadcast.packet 7 1, clientBroadcast.packet 11 0,
      clientBroadcast.packet 11 1]] ++ List.replicate 6 (.videoReceiveThread 15 .id)

/-- **An old frame is decoded after a later one, and gaps are not counted**: frames 9, 7
and 11 are pushed in this order, each with no frame skipped. -/
theorem decoder_order_lost : ∃ c,
    Run (Client.step clientSocket) (fun _ _ => True) (.configureStreams 0 ⟨0, []⟩)
      overtakenFrames c ∧
    c.pushed.map (fun x => (x.1, x.2.framesSkipped)) = [(9, 0), (7, 0), (11, 0)] ∧
    ¬ FramesInOrder c := by
  have hruns : (runs (Client.step clientSocket) (.configureStreams 0 ⟨0, []⟩) overtakenFrames).map
      (fun c => (c.pushed.map (fun x => (x.1, x.2.framesSkipped)), decide (FramesInOrder c))) =
        some ([(9, 0), (7, 0), (11, 0)], false) := by
    decide +kernel
  obtain ⟨c, hrun, hview⟩ := exists_run_of_map hruns
  obtain ⟨hpushed, horder⟩ := Prod.mk.inj hview
  exact ⟨c, hrun, hpushed, of_decide_eq_false horder⟩

end SiestaVR.Stream
