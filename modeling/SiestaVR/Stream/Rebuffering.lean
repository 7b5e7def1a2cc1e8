import SiestaVR.Emu.Shaping
import SiestaVR.Lib.TimedWindow
import SiestaVR.Stream.NadaStall

/-!
# Rebuffering events (lib/models_XR.rs:5147–5179, 5709–5768, 6541–6569, 6765–6868)

Once the decoder queue has been full, a `vsync` that finds it empty is a rebuffering event.
The client notes the events in a `TimedRebufferCounter`, and every statistics packet carries
how many there were in a period of `t_update_abr` seconds (`rebuffering_events_last_s`).

The counter drops old events when it notes a new one, and at no other time. So a packet
counts the events of the period that ends with the last event, and not of the period that
ends when the packet is built. `rebuffering_count_iff` says when that is the same: if no event
has left the period since the last one came (and the count fits a byte). When a burst is over,
its events are counted until the next one: `old_rebuffering_counted` is a packet that reports
an event of two seconds ago as one of the last second.

- The client is followed over any number of sessions. A client out of a session has no
  socket; here its socket has no streams.
- Sessions start and end from outside, at any time.
- Times are in exact seconds. The observer notes the times of the events in `rebuffers`.
-/

namespace SiestaVR.Stream

open Lib Emu

/-! ## The counter -/

/-- `TimedRebufferCounter`. -/
structure TimedRebufferCounter where
  vecBuflevel : List (ℚ × Nat)
  period : ℚ

namespace TimedRebufferCounter

def new (period : ℚ) : TimedRebufferCounter := ⟨[], period⟩

/-- `add_one`. -/
def addOne (c : TimedRebufferCounter) (now : Nat) : TimedRebufferCounter :=
  let cutoff := secs now - c.period
  { c with vecBuflevel := (c.vecBuflevel ++ [(secs now, 1)]).dropWhile fun x => x.1 < cutoff }

/-- `sum_in_period`. -/
def sumInPeriod (c : TimedRebufferCounter) : Nat := (c.vecBuflevel.map (·.2)).sum

/-- The counter has noted the events at these times, and dropped those it drops. -/
def Notes (c : TimedRebufferCounter) (times : List ℚ) : Prop :=
  c.vecBuflevel = (times.foldl (record c.period) []).map (·, 1)

theorem notes_new (period : ℚ) : (new period).Notes [] := rfl

theorem Notes.addOne {c : TimedRebufferCounter} {times : List ℚ} (h : c.Notes times) (now : Nat) :
    (c.addOne now).Notes (times ++ [secs now]) := by
  show (c.vecBuflevel ++ [(secs now, 1)]).dropWhile _ =
    ((times ++ [secs now]).foldl (record c.period) []).map (·, 1)
  rw [h, List.foldl_append]
  set kept := times.foldl (record c.period) []
  have hpush : kept.map (·, 1) ++ [(secs now, 1)] = (kept ++ [secs now]).map (·, 1) := by
    rw [List.map_append]
    rfl
  rw [hpush, List.dropWhile_map]
  rfl

/-- **The sum** is over the period that ends with the last event. -/
theorem Notes.sumInPeriod {c : TimedRebufferCounter} {times : List ℚ} (h : c.Notes times)
    (hsorted : times.Pairwise (· ≤ ·)) :
    c.sumInPeriod = times.getLast?.elim 0 fun last => (inPeriod c.period last times).length := by
  have hlength : c.sumInPeriod = (times.foldl (record c.period) []).length := by
    rw [TimedRebufferCounter.sumInPeriod, h, List.map_map]
    simp [Function.comp_def]
  rw [hlength, foldl_record c.period hsorted]
  cases times.getLast? <;> rfl

/-- The counter has noted the events up to now, which came in the order of their times. -/
structure Logs (c : TimedRebufferCounter) (times : List ℚ) (now : Nat) : Prop where
  notes : c.Notes times
  sorted : times.Pairwise (· ≤ ·)
  past : ∀ t ∈ times, t ≤ secs now

variable {c : TimedRebufferCounter} {times : List ℚ} {now now' : Nat}

theorem logs_new (period : ℚ) (now : Nat) : (new period).Logs [] now :=
  ⟨notes_new period, .nil, by rintro t ⟨⟩⟩

theorem Logs.later (h : c.Logs times now) (hle : now ≤ now') : c.Logs times now' :=
  ⟨h.notes, h.sorted, fun t ht => (h.past t ht).trans (secs_le_secs.2 hle)⟩

theorem Logs.addOne (h : c.Logs times now) : (c.addOne now).Logs (times ++ [secs now]) now := by
  refine ⟨h.notes.addOne now, ?_, ?_⟩
  · rw [List.pairwise_append]
    refine ⟨h.sorted, List.pairwise_singleton _ _, ?_⟩
    rintro t ht _ ht'
    rw [List.mem_singleton.1 ht']
    exact h.past t ht
  · intro t ht
    rcases List.mem_append.1 ht with ht | ht
    · exact h.past t ht
    · exact (List.mem_singleton.1 ht).le

end TimedRebufferCounter

/-! ## Sessions of a client -/

namespace Client

/-- `XRClient::new`: no session yet. -/
def new (agenda : Agenda Task) : Client where
  session := .start [] maxUnreadPackets
  isStreaming := false
  inputAppVideo := none
  inputAppAudio := none
  inputAppHaptics := none
  inputAppBwProbe := none
  decoderQueue := .new decoderBufferingFrames
  jitterBufferWarmupReady := false
  agenda := agenda
  pushed := []

/-- `configure_streams` of a client that has been in use. -/
def reconfigure (abrMode : Nat) (c : Client) : Client :=
  { configureStreams abrMode c.agenda with
    decoderQueue := c.decoderQueue
    jitterBufferWarmupReady := c.jitterBufferWarmupReady
    pushed := c.pushed }

/-- `session_end`, without the reboot it schedules. -/
def sessionEnd (c : Client) : Client :=
  { c with
    isStreaming := false
    inputAppVideo := none
    inputAppAudio := none
    inputAppHaptics := none
    -- the reading end of the probes stays, but without a socket nothing comes in
    inputAppBwProbe := none
    session := .start [] maxUnreadPackets
    decoderQueue := .new c.decoderQueue.capacity
    jitterBufferWarmupReady := false }

/-- `session_reboot`. -/
def sessionReboot (abrMode : Nat) (c : Client) : Client :=
  let c := { c with decoderQueue := .new c.decoderQueue.capacity }
  (c.reconfigure abrMode).schedule 10000000 .videoReceiveThread

/-- A rebuffering event: `vsync` finds the decoder queue empty that has been full. -/
def rebuffers (c : Client) : ClientEvent → Bool
  | .vsync _ _ _ => c.jitterBufferWarmupReady && c.decoderQueue.deque.isEmpty
  | _ => false

/-- The statistics packet that an event builds. -/
def statisticsBuilt (c : Client) (e : ClientEvent) : Option NetworkStatisticsPacket :=
  (c.frameRead e).map (networkStatistics · c.decoderQueue.deque.length)

end Client

/-- A client with its counter, the statistics packets built, each with the
`rebuffering_events_last_s` it carries, and the times of the rebuffering events so far. -/
structure RebufferClient where
  client : Client
  rebufferEventCounter : TimedRebufferCounter
  statistics : List (NetworkStatisticsPacket × Nat)
  rebuffers : List ℚ

/-- What happens to the client. -/
inductive RebufferEvent
  | client (e : ClientEvent)
  | configureStreams (now : Nat)
  | sessionEnd (now : Nat)
  | sessionReboot (now : Nat)

namespace RebufferClient

def new (tUpdateAbr : ℚ) (agenda : Agenda Task) : RebufferClient :=
  ⟨.new agenda, .new tUpdateAbr, [], []⟩

/-- An event of a session. -/
def onEvent (s : RebufferClient) (e : ClientEvent) (client : Client) : RebufferClient where
  client := client
  rebufferEventCounter :=
    if s.client.rebuffers e then s.rebufferEventCounter.addOne e.now else s.rebufferEventCounter
  statistics := s.statistics ++
    ((s.client.statisticsBuilt e).map (·, s.rebufferEventCounter.sumInPeriod % 256)).toList
  rebuffers := if s.client.rebuffers e then s.rebuffers ++ [secs e.now] else s.rebuffers

/-- The clock moves on, and the client is changed. -/
def onSession (s : RebufferClient) (now : Nat) (change : Client → Client) :
    Option RebufferClient :=
  (s.client.agenda.advance now).map fun a =>
    { s with client := change { s.client with agenda := a } }

/-- One event. The counter is the same in all sessions. -/
def step (cfg : SocketConfig) (abrMode : Nat) (s : RebufferClient) :
    RebufferEvent → Option RebufferClient
  | .client e => (s.client.step cfg e).map (s.onEvent e)
  | .configureStreams now => s.onSession now (Client.reconfigure abrMode)
  | .sessionEnd now => s.onSession now Client.sessionEnd
  | .sessionReboot now => s.onSession now (Client.sessionReboot abrMode)

end RebufferClient

/-! ## What an event does -/

section Client

variable {cfg : SocketConfig} {c c' : Client} {e : ClientEvent}

theorem pushed_onPacket {packet : MpduPacket × IterOrder} (h : c.onPacket cfg packet = some c') :
    c'.pushed = c.pushed := by
  obtain ⟨c₁, h₁, rfl⟩ := Option.map_eq_some_iff.1 h
  have hreceive : ∀ {c₂ : Client}, c.receiveShard cfg packet.2 packet.1.dataInner = some c₂ →
      c₂.pushed = c.pushed := by
    intro c₂ h₂
    obtain ⟨s, -, rfl⟩ := Option.map_eq_some_iff.1 h₂
    rfl
  show c₁.pushed = c.pushed
  cases filedPacket h₁ with
  | ignored => rfl
  | skipped => rfl
  | video _ h₂ => exact hreceive h₂
  | probe _ _ h₂ =>
    have hpushed := hreceive h₂
    exact hpushed

/-- **The clock**: an event happens at its time, not before the last one. -/
theorem now_step (h : c.step cfg e = some c') :
    c.agenda.now ≤ e.now ∧ c'.agenda.now = e.now := by
  refine agenda_step (P := fun a => c.agenda.now ≤ e.now ∧ a.now = e.now) (fun a ha => ?_)
    (fun a x ha => ?_) (fun _ _ _ h => h) h
  · obtain ⟨⟨hle, -⟩, rfl⟩ := Agenda.advance_eq_some.1 ha
    exact ⟨hle, rfl⟩
  · obtain ⟨-, ⟨hle, -⟩, rfl⟩ := Agenda.fire_eq_some.1 ha
    exact ⟨hle, rfl⟩

/-- A read of the video stream builds statistics for the frame it reads. -/
theorem statistics_videoReceiveThread (now : Nat) {order : Shuffle (UInt32 × Nat)}
    (h : c.videoReceiveThread cfg order = some c') :
    c'.pushed.map (·.2) =
      c.pushed.map (·.2) ++ (c.statisticsBuilt (.videoReceiveThread now order)).toList := by
  cases hstreaming : c.isStreaming with
  | false =>
    simp only [Client.videoReceiveThread, hstreaming, Option.some.injEq] at h
    subst h
    simp [Client.statisticsBuilt, Client.frameRead, hstreaming]
  | true =>
    cases hreader : c.inputAppVideo with
    | none =>
      simp only [Client.videoReceiveThread, hstreaming, hreader, Option.some.injEq] at h
      subst h
      simp [Client.statisticsBuilt, Client.frameRead, hstreaming, hreader]
    | some reader =>
      have hread : c.frameRead (.videoReceiveThread now order) =
          (c.session.socket.streamRecvComponents.lookup video).bind fun comps =>
            (reader.recv comps).bind fun x => x.1.toOption := by
        simp only [Client.frameRead, hstreaming, hreader]
      rw [Client.statisticsBuilt, hread]
      cases videoRead h with
      | outOfSession hout => exact absurd ⟨hstreaming, by rw [hreader]; rfl⟩ hout
      | unsubscribed hnone =>
        rw [hnone]
        exact (List.append_nil _).symm
      | nothing hreader' hcomps hrecv =>
        cases hreader'.symm.trans hreader
        rw [hcomps, Option.bind_some, hrecv]
        exact (List.append_nil _).symm
      | frame hreader' hcomps hrecv hc' =>
        cases hreader'.symm.trans hreader
        obtain ⟨nal, -, rfl⟩ := Option.map_eq_some_iff.1 hc'
        rw [hcomps, Option.bind_some, hrecv]
        exact List.map_append

/-- **The statistics**: one packet for every frame that is read. -/
theorem statistics_step (h : c.step cfg e = some c') :
    c'.pushed.map (·.2) = c.pushed.map (·.2) ++ (c.statisticsBuilt e).toList := by
  have hnone : ∀ {c' : Client}, c'.pushed = c.pushed →
      c'.pushed.map (·.2) = c.pushed.map (·.2) ++ [] := by
    intro c' hpushed
    rw [hpushed, List.append_nil]
  -- Only a read of the video stream builds statistics.
  cases e with
  | network now packets =>
    obtain ⟨a, -, hc'⟩ := Option.bind_eq_some_iff.1 h
    have h₀ : ({ c with agenda := a } : Client).pushed = c.pushed := rfl
    refine hnone (Run.state_invariant (P := fun c' : Client => c'.pushed = c.pushed) h₀ ?_
      (.of_runs (allOk_true _ _ _) hc'))
    rintro c packet c' hp - hs
    exact (pushed_onPacket hs).trans hp
  | videoReceiveThread now order =>
    obtain ⟨a, -, hc'⟩ := Option.bind_eq_some_iff.1 h
    exact statistics_videoReceiveThread (c := { c with agenda := a }) now hc'
  | bwProbeReceiveThread now =>
    obtain ⟨a, -, hc'⟩ := Option.bind_eq_some_iff.1 h
    obtain rfl | ⟨reader, s', -, rfl⟩ := bwProbeRead hc'
    · exact hnone rfl
    · exact hnone rfl
  | vsync now order flushOrder =>
    obtain ⟨a, -, rfl⟩ := Option.map_eq_some_iff.1 h
    obtain ⟨queue, ready, heq⟩ := vsync_eq cfg order flushOrder { c with agenda := a }
    rw [heq]
    exact hnone rfl

end Client

/-! ## Runs -/

namespace RebufferClient

/-- How many rebuffering events there are in the period that ends now. -/
def recent (s : RebufferClient) (now : Nat) : Nat :=
  (inPeriod s.rebufferEventCounter.period (secs now) s.rebuffers).length

/-- How many events have left the period since the last one. -/
def stale (s : RebufferClient) (now : Nat) : Nat :=
  s.rebuffers.getLast?.elim 0 fun last =>
    outdated s.rebufferEventCounter.period last (secs now) s.rebuffers

/-- The counter has noted the events, and every packet pushed has its statistics. -/
structure Noted (s : RebufferClient) : Prop where
  log : s.rebufferEventCounter.Logs s.rebuffers s.client.agenda.now
  built : s.statistics.map (·.1) = s.client.pushed.map (·.2)

variable {cfg : SocketConfig} {abrMode : Nat} {s s' : RebufferClient}

theorem noted_new (tUpdateAbr : ℚ) (agenda : Agenda Task) : (new tUpdateAbr agenda).Noted :=
  ⟨TimedRebufferCounter.logs_new tUpdateAbr agenda.now, rfl⟩

/-- **The sum and the period**: what the counter sums up and the period no longer has. -/
theorem Noted.sumInPeriod (h : s.Noted) {now : Nat} (hnow : s.client.agenda.now ≤ now) :
    s.rebufferEventCounter.sumInPeriod = s.recent now + s.stale now := by
  rw [h.log.notes.sumInPeriod h.log.sorted, recent, stale]
  cases hlast : s.rebuffers.getLast? with
  | none =>
    rw [List.getLast?_eq_none_iff.1 hlast]
    rfl
  | some last =>
    have hpast := (h.log.later hnow).past last (List.mem_of_getLast? hlast)
    exact length_inPeriod _ hpast s.rebuffers

theorem Noted.onEvent (h : s.Noted) {e : ClientEvent} {client : Client}
    (hc : s.client.step cfg e = some client) : (s.onEvent e client).Noted := by
  obtain ⟨hle, hnow⟩ := now_step hc
  have hlog := h.log.later hle
  constructor
  · show TimedRebufferCounter.Logs (if s.client.rebuffers e then _ else _)
      (if s.client.rebuffers e then _ else _) client.agenda.now
    rw [hnow]
    split
    · exact hlog.addOne
    · exact hlog
  · show (s.statistics ++ _).map (·.1) = client.pushed.map (·.2)
    rw [statistics_step hc, List.map_append, h.built]
    cases s.client.statisticsBuilt e <;> rfl

theorem Noted.onSession (h : s.Noted) (now : Nat) (change : Client → Client)
    (hagenda : ∀ c, (change c).agenda.now = c.agenda.now)
    (hpushed : ∀ c, (change c).pushed = c.pushed) (hs : s.onSession now change = some s') :
    s'.Noted := by
  obtain ⟨a, ha, rfl⟩ := Option.map_eq_some_iff.1 hs
  obtain ⟨⟨hle, -⟩, rfl⟩ := Agenda.advance_eq_some.1 ha
  constructor
  · show s.rebufferEventCounter.Logs s.rebuffers (change _).agenda.now
    rw [hagenda]
    exact h.log.later hle
  · show _ = (change _).pushed.map (·.2)
    rw [hpushed]
    exact h.built

/-- **Step**. -/
theorem Noted.step (h : s.Noted) {e : RebufferEvent} (hs : s.step cfg abrMode e = some s') :
    s'.Noted := by
  cases e with
  | client e =>
    obtain ⟨client, hc, rfl⟩ := Option.map_eq_some_iff.1 hs
    exact h.onEvent hc
  | configureStreams now =>
    exact h.onSession now (Client.reconfigure abrMode) (fun _ => rfl) (fun _ => rfl) hs
  | sessionEnd now => exact h.onSession now Client.sessionEnd (fun _ => rfl) (fun _ => rfl) hs
  | sessionReboot now =>
    exact h.onSession now (Client.sessionReboot abrMode) (fun _ => rfl) (fun _ => rfl) hs

/-- **Run**: in every state of a client, through any number of sessions. -/
theorem noted_of_run {tUpdateAbr : ℚ} {agenda : Agenda Task} {es : List RebufferEvent}
    (h : Run (step cfg abrMode) (fun _ _ => True) (new tUpdateAbr agenda) es s) : s.Noted :=
  Run.state_invariant (P := Noted) (noted_new tUpdateAbr agenda) (fun _ _ _ hp _ hs => hp.step hs) h

end RebufferClient

/-- A count in a byte is right if it is small enough, and what is too much is lost with the
overflow. -/
theorem mod_256_eq_iff {recent stale : Nat} :
    (recent + stale) % 256 = recent ↔ recent < 256 ∧ 256 ∣ stale := by
  omega

/-- **When the count is right**: a statistics packet that is built in any state of a run carries
the number of rebuffering events in the period that ends at that moment if and only if that
number fits a byte, and the events that have left the period since the last event are none,
or a multiple of 256. -/
theorem rebuffering_count_iff {cfg : SocketConfig} {abrMode : Nat} {tUpdateAbr : ℚ}
    {agenda : Agenda Task} {es : List RebufferEvent} {s s' : RebufferClient}
    (h : Run (RebufferClient.step cfg abrMode) (fun _ _ => True) (.new tUpdateAbr agenda) es s)
    {e : ClientEvent} {packet : NetworkStatisticsPacket}
    (hbuilt : s.client.statisticsBuilt e = some packet)
    (hs : s.step cfg abrMode (.client e) = some s') :
    ∃ count, s'.statistics = s.statistics ++ [(packet, count)] ∧
      (count = s.recent e.now ↔ s.recent e.now < 256 ∧ 256 ∣ s.stale e.now) := by
  have hnoted := RebufferClient.noted_of_run h
  obtain ⟨client, hc, rfl⟩ := Option.map_eq_some_iff.1 hs
  refine ⟨s.rebufferEventCounter.sumInPeriod % 256, ?_, ?_⟩
  · show s.statistics ++ ((s.client.statisticsBuilt e).map _).toList = _
    rw [hbuilt]
    rfl
  · rw [hnoted.sumInPeriod (now_step hc).1]
    exact mod_256_eq_iff

/-- The client of the examples, with deadlines from the first shard of a frame on. -/
def rebufferSocket : SocketConfig := { clientSocket with anchorFirst := true }

/-- Three frames fill the decoder queue. Five times `vsync` comes, and the last time it finds
the queue empty. -/
def drained : List RebufferEvent :=
  [.configureStreams 0, .client (.network 5 [clientBroadcast.packet 0 0,
    clientBroadcast.packet 0 1, clientBroadcast.packet 1 0, clientBroadcast.packet 1 1,
    clientBroadcast.packet 2 0, clientBroadcast.packet 2 1])] ++
  List.replicate 6 (.client (.videoReceiveThread 15 .id)) ++
  [20, 30, 40, 50, 60].map fun now => .client (.vsync now .id .id)

/-- Then another frame comes. -/
def drainedUntil (now : Nat) : List RebufferEvent := drained ++
  [.client (.network now [clientBroadcast.packet 3 0, clientBroadcast.packet 3 1])]

/-- A packet shortly after the event counts it. -/
theorem rebuffering_counted : ∃ s s' packet count,
    Run (RebufferClient.step rebufferSocket 0) (fun _ _ => True) (.new 1 ⟨0, []⟩)
      (drainedUntil 100) s ∧
    s.client.statisticsBuilt (.videoReceiveThread 110 .id) = some packet ∧
    s.step rebufferSocket 0 (.client (.videoReceiveThread 110 .id)) = some s' ∧
    s'.statistics = s.statistics ++ [(packet, count)] ∧ s.recent 110 = 1 ∧ count = 1 := by
  have hruns : (runs (RebufferClient.step rebufferSocket 0) (.new 1 ⟨0, []⟩)
      (drainedUntil 100)).map (fun s => (s.recent 110, s.stale 110,
        (s.client.statisticsBuilt (.videoReceiveThread 110 .id)).isSome,
        (s.step rebufferSocket 0 (.client (.videoReceiveThread 110 .id))).isSome)) =
      some (1, 0, true, true) := by
    decide +kernel
  obtain ⟨s, hrun, hview⟩ := exists_run_of_map hruns
  simp only [Prod.mk.injEq] at hview
  obtain ⟨hrecent, hstale, hbuilt, hs⟩ := hview
  obtain ⟨packet, hpacket⟩ := Option.isSome_iff_exists.1 hbuilt
  obtain ⟨s', hs'⟩ := Option.isSome_iff_exists.1 hs
  obtain ⟨count, hstats, hiff⟩ := rebuffering_count_iff hrun hpacket hs'
  refine ⟨s, s', packet, count, hrun, hpacket, hs', hstats, hrecent, ?_⟩
  have hcount : count = s.recent 110 := by
    refine hiff.2 ?_
    show s.recent 110 < 256 ∧ 256 ∣ s.stale 110
    rw [hrecent, hstale]
    decide
  rw [hcount, hrecent]

/-- **An old event is counted**: two seconds later it is not one of the last second, but the
packet still carries it. -/
theorem old_rebuffering_counted : ∃ s s' packet,
    Run (RebufferClient.step rebufferSocket 0) (fun _ _ => True) (.new 1 ⟨0, []⟩)
      (drainedUntil 2000000000) s ∧
    s.client.statisticsBuilt (.videoReceiveThread 2000000010 .id) = some packet ∧
    s.step rebufferSocket 0 (.client (.videoReceiveThread 2000000010 .id)) = some s' ∧
    (s'.statistics.map (·.2)).getLast? = some 1 ∧ s.recent 2000000010 = 0 := by
  have hruns : (runs (RebufferClient.step rebufferSocket 0) (.new 1 ⟨0, []⟩)
      (drainedUntil 2000000000)).map (fun s => (s.recent 2000000010,
        (s.client.statisticsBuilt (.videoReceiveThread 2000000010 .id)).isSome,
        (s.step rebufferSocket 0 (.client (.videoReceiveThread 2000000010 .id))).map
          fun s' => (s'.statistics.map (·.2)).getLast?)) = some (0, true, some (some 1)) := by
    decide +kernel
  obtain ⟨s, hrun, hview⟩ := exists_run_of_map hruns
  simp only [Prod.mk.injEq] at hview
  obtain ⟨hrecent, hbuilt, hs⟩ := hview
  obtain ⟨packet, hpacket⟩ := Option.isSome_iff_exists.1 hbuilt
  obtain ⟨s', hs', hlast⟩ := Option.map_eq_some_iff.1 hs
  exact ⟨s, s', packet, hrun, hpacket, hs', hlast, hrecent⟩

end SiestaVR.Stream
