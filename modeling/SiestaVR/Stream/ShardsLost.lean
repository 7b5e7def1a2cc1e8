import Mathlib.Algebra.BigOperators.Intervals
import Mathlib.Data.Prod.Lex
import SiestaVR.Stream.ClientSteps

/-!
# The shards lost between the frames (lib/alvr_statistics.rs:594–641, lib/models_XR.rs:3892–3960)

With every frame the client sends how many distinct video shards it has received since
the frame before, and the highest position, a frame and a shard of it, of those received
at all. The server takes the number of shards it sent between the last highest position
and the new one, and subtracts. The sum of these differences should be the number of shards
sent up to the highest position minus that of the shards received.

How many shards a frame has, the server looks up in `map_frames_spf`. But nothing is ever
entered there. So when the highest position moves to a later frame, the rest of the last
frame and all the frames in between count as no shards: `shards_lost_missed` has a run in
which a whole frame is lost and the server records no loss. `shards_lost_exact` is what
remains: the sum is right as long as the highest position never leaves a shard out.

The proof has an invariant for each side. `Tally` relates the counters of the socket and of the
packets it has handed on to the set of shards received; `Balanced` relates what the server has
recorded to the statistics it has handled. Positions are ordered by their frame, then by the shard,
as the code compares them.
-/

namespace SiestaVR.Stream

open Lib

/-! ## The server -/

/-- `StatisticsManager`, as far as it counts shards. -/
structure StatisticsManager where
  prevHighestFrame : Int
  prevHighestShard : Int
  mapFramesSpf : Table UInt32 Nat

/-- A new manager. -/
def StatisticsManager.new : StatisticsManager := ⟨0, -1, ∅⟩

/-- The cast of an `i32` to `usize`: a negative one wraps. -/
def asUsize (i : Int) : Nat := if 0 ≤ i then i.toNat else (i + 2 ^ 64).toNat

namespace StatisticsManager

/-- `shards_sent`: the shards from the last highest position to the one given. No result:
an addition or a subtraction overflows. -/
def shardsSent (m : StatisticsManager) (frame shard : Int) : Option Nat :=
  if m.prevHighestFrame = frame then
    if m.prevHighestShard < shard then
      if 2 ^ 31 ≤ shard - m.prevHighestShard then none
      else some (asUsize (shard - m.prevHighestShard))
    else some 0
  else if m.prevHighestFrame < frame then
    let shardsFromPrev :=
      match m.mapFramesSpf.lookup (UInt32.ofInt m.prevHighestFrame) with
      | some shardsCountPrev => shardsCountPrev - asUsize (m.prevHighestShard + 1)
      | none => 0
    let inbetween := m.mapFramesSpf.entries.filter fun e =>
      decide (UInt32.ofInt m.prevHighestFrame < e.1 ∧ e.1 < UInt32.ofInt frame)
    let shardsFromInbetween := (inbetween.map (·.2)).sum
    if asUsize shard + 1 = 2 ^ 64 then none
    else some (shardsFromPrev + shardsFromInbetween + (asUsize shard + 1))
  else some 0

/-- `report_network_statistics`: the shards lost, and the position for the next packet. -/
def reportNetworkStatistics (m : StatisticsManager) (p : NetworkStatisticsPacket) :
    Option (Int × StatisticsManager) :=
  (m.shardsSent p.highestRxFrameIndex p.highestRxShardIndex).map fun (sent : Nat) =>
    ((sent : Int) - p.rxShardCounter,
      { prevHighestFrame := p.highestRxFrameIndex
        prevHighestShard := p.highestRxShardIndex
        mapFramesSpf := Table.eraseAll
          (m.mapFramesSpf.keys.filter (· < UInt32.ofInt p.highestRxFrameIndex)) m.mapFramesSpf })

end StatisticsManager

/-- `XRServer`, as far as it handles the statistics of frames, with the values of
`shards_lost` it has recorded. -/
structure XrServer where
  statisticsManager : StatisticsManager
  mapRtt : Table UInt32 Nat
  shardsLost : List Int

/-- The server at the start of a session. -/
def XrServer.new : XrServer := ⟨.new, ∅, []⟩

/-- `generate_video_frame`: when a frame was sent is kept for its round trip time. -/
def XrServer.generateVideoFrame (s : XrServer) (frame : UInt32) (now : Nat) : XrServer :=
  { s with mapRtt := s.mapRtt.insert frame now }

/-- `handle_control_packet` with the statistics of a frame. Those of a frame that was not
sent, or was reported before, are ignored. -/
def XrServer.handleControlPacket (s : XrServer) (p : NetworkStatisticsPacket) : Option XrServer :=
  let frameId := UInt32.ofInt p.frameIndex
  match s.mapRtt.lookup frameId with
  | none => some s
  | some _ => (s.statisticsManager.reportNetworkStatistics p).map fun (lost, m) =>
    { statisticsManager := m
      mapRtt := s.mapRtt.erase frameId
      shardsLost := s.shardsLost ++ [lost] }

/-- A report for a frame that is waited for counts the shards sent up to its position. -/
theorem XrServer.report_of_awaited {s s' : XrServer} {p : NetworkStatisticsPacket}
    (hawaited : UInt32.ofInt p.frameIndex ∈ s.mapRtt) (h : s.handleControlPacket p = some s') :
    ∃ sent : Nat,
      s.statisticsManager.shardsSent p.highestRxFrameIndex p.highestRxShardIndex = some sent ∧
      s'.shardsLost = s.shardsLost ++ [(sent : Int) - p.rxShardCounter] ∧
      s'.statisticsManager.prevHighestFrame = p.highestRxFrameIndex ∧
      s'.statisticsManager.prevHighestShard = p.highestRxShardIndex ∧
      (s.statisticsManager.mapFramesSpf = ∅ → s'.statisticsManager.mapFramesSpf = ∅) := by
  obtain ⟨sentAt, hsentAt⟩ := Option.isSome_iff_exists.1 (AList.lookup_isSome.2 hawaited)
  simp only [XrServer.handleControlPacket, hsentAt] at h
  obtain ⟨⟨lost, m⟩, hreport, rfl⟩ := Option.map_eq_some_iff.1 h
  obtain ⟨sent, hsent, hlost⟩ := Option.map_eq_some_iff.1 hreport
  obtain ⟨rfl, rfl⟩ := Prod.mk.inj hlost
  refine ⟨sent, hsent, rfl, rfl, rfl, fun hempty => ?_⟩
  show Table.eraseAll _ s.statisticsManager.mapFramesSpf = ∅
  rw [hempty]
  rfl

/-! ## Client and server -/

/-- What an observer of the network notes: the distinct video shards received, each with
its frame, and those received when each of the video frames was completed. -/
structure ShardLedger where
  received : Finset ((_ : ℕ) × ℕ)
  atCompletion : List (Finset ((_ : ℕ) × ℕ))

/-- The position of a shard, from its prefix. -/
def positionOf (message : Bytes) : (_ : ℕ) × ℕ :=
  ⟨(headerOf message).packetIndex.toNat, (headerOf message).shardIndex⟩

/-- A packet that takes the client from `c` to `c'`. -/
def ShardLedger.note (l : ShardLedger) (c : Client) (packet : MpduPacket) (c' : Client) :
    ShardLedger :=
  if packet.streamId = video then
    let received := insert (positionOf packet.dataInner) l.received
    { received := received
      atCompletion :=
        if (sentOf c.session.socket video).length < (sentOf c'.session.socket video).length then
          l.atCompletion ++ [received]
        else l.atCompletion }
  else l

/-- A packet of a batch, with the observer. -/
def countPacket (cfg : SocketConfig) (s : ShardLedger × Client) (packet : MpduPacket × IterOrder) :
    Option (ShardLedger × Client) :=
  (s.2.onPacket cfg packet).map fun c' => (s.1.note s.2 packet.1 c', c')

/-- A client and its server. The statistics packets of the client reach the server in the
order they were sent in, at any time later. -/
structure Accounting where
  client : Client
  ledger : ShardLedger
  server : XrServer
  /-- How many statistics packets the server has received. -/
  handled : Nat

/-- The start of a session. -/
def Accounting.start (abrMode : Nat) (agenda : Agenda Task) : Accounting :=
  ⟨.configureStreams abrMode agenda, ⟨∅, []⟩, .new, 0⟩

/-- What happens to the two. -/
inductive AccountingEvent
  | client (e : ClientEvent)
  | generateVideoFrame (frame : UInt32) (now : Nat)
  | handleControlPacket

/-- One event. -/
def Accounting.step (cfg : SocketConfig) (s : Accounting) : AccountingEvent → Option Accounting
  | .client (.network now packets) => (s.client.agenda.advance now).bind fun a =>
    (runs (countPacket cfg) (s.ledger, { s.client with agenda := a }) packets).map
      fun (ledger, client) => { s with client := client, ledger := ledger }
  | .client e => (s.client.step cfg e).map fun client => { s with client := client }
  | .generateVideoFrame frame now =>
    some { s with server := s.server.generateVideoFrame frame now }
  | .handleControlPacket => s.client.pushed[s.handled]?.bind fun x =>
    (s.server.handleControlPacket x.2).map fun server =>
      { s with server := server, handled := s.handled + 1 }

/-! ## The property -/

/-- The highest position in a statistics packet: a frame, and then a shard of it. -/
def NetworkStatisticsPacket.highestRx (p : NetworkStatisticsPacket) : ℤ ×ₗ ℤ :=
  toLex (p.highestRxFrameIndex, p.highestRxShardIndex)

/-- The highest position reported so far. -/
def Accounting.highestReported (s : Accounting) : ℤ ×ₗ ℤ :=
  ((s.client.pushed.take s.handled).map (·.2.highestRx)).foldl max (toLex (0, -1))

/-- The distinct shards received up to the frame that was reported last. -/
def Accounting.receivedThen (s : Accounting) : Finset ((_ : ℕ) × ℕ) :=
  (s.ledger.atCompletion.take s.handled).getLastD ∅

namespace Broadcast

variable {cfg : SocketConfig} (B : Broadcast cfg)

/-- The shards sent up to a position: those of the frames before, and those of the frame
up to the shard. -/
def shardsUpTo (p : ℤ ×ₗ ℤ) : Finset ((_ : ℕ) × ℕ) :=
  (Finset.range ((ofLex p).1.toNat + 1)).sigma fun f =>
    Finset.range (if f < (ofLex p).1.toNat then B.expected (.ofNat f) else
      ((ofLex p).2 + 1).toNat)

/-- **Losses are exact**: the values the server has recorded add up to the number of shards
sent up to the highest position reported minus that of the shards received. -/
def LossesExact (s : Accounting) : Prop :=
  s.server.shardsLost.sum = ((B.shardsUpTo s.highestReported).card : Int) - s.receivedThen.card

instance (s : Accounting) : Decidable (B.LossesExact s) := inferInstanceAs (Decidable (_ = _))

/-- A video packet is a shard of a frame that was sent, a probe is well formed. -/
def Sends (packet : MpduPacket) : Prop :=
  (packet.streamId = video → ∃ k < B.expected (headerOf packet.dataInner).packetIndex,
    packet.dataInner = B.shard (headerOf packet.dataInner).packetIndex k) ∧
  (packet.streamId = fovoptixBwProbe →
    WellFormed packet.dataInner ∧ (headerOf packet.dataInner).streamId = fovoptixBwProbe)

instance (packet : MpduPacket) : Decidable (B.Sends packet) := inferInstanceAs (Decidable (_ ∧ _))

theorem Sends.addressed {B : Broadcast cfg} {packet : MpduPacket} (h : B.Sends packet) :
    Addressed packet := by
  rintro (hvideo | hprobe)
  · obtain ⟨k, hk, hdata⟩ := h.1 hvideo
    refine ⟨hdata ▸ (B.shardable _).wellFormed_shard _ hk, ?_⟩
    rw [hvideo, hdata]
    exact (B.headerOf_shard hk).1
  · rw [hprobe]
    exact h.2 hprobe

/-- The events of a session in which `B` is sent. Shards may get lost or overtake one
another, and may arrive more than once. -/
def InSession : AccountingEvent → Prop
  | .client (.network _ packets) => ∀ packet ∈ packets, B.Sends packet.1
  | _ => True

instance : ∀ e, Decidable (B.InSession e)
  | .client (.network _ packets) =>
    inferInstanceAs (Decidable (∀ packet ∈ packets, B.Sends packet.1))
  | .client (.videoReceiveThread _ _) => inferInstanceAs (Decidable True)
  | .client (.bwProbeReceiveThread _) => inferInstanceAs (Decidable True)
  | .client (.vsync _ _ _) => inferInstanceAs (Decidable True)
  | .generateVideoFrame _ _ => inferInstanceAs (Decidable True)
  | .handleControlPacket => inferInstanceAs (Decidable True)

/-- Between the last highest position and the one reported lies no shard but those of the
frame reported. -/
def Continues (m : StatisticsManager) (p : NetworkStatisticsPacket) : Prop :=
  0 ≤ p.highestRxShardIndex ∧
  (p.highestRxFrameIndex = m.prevHighestFrame ∨
    p.highestRxFrameIndex = m.prevHighestFrame + 1 ∧
      m.prevHighestShard + 1 = B.expected (UInt32.ofInt m.prevHighestFrame))

instance (m : StatisticsManager) (p : NetworkStatisticsPacket) : Decidable (B.Continues m p) :=
  inferInstanceAs (Decidable (_ ∧ _))

end Broadcast

/-- A copy of a video shard comes while the socket still knows the first one. -/
def Remembered (s : ShardLedger × Client) (packet : MpduPacket × IterOrder) : Prop :=
  packet.1.streamId = video → positionOf packet.1.dataInner ∈ s.1.received →
    (headerOf packet.1.dataInner).shardIndex ∈
      (s.2.session.socket.mapRx.lookup (headerOf packet.1.dataInner).packetIndex).getD ∅

instance (s : ShardLedger × Client) (packet : MpduPacket × IterOrder) :
    Decidable (Remembered s packet) :=
  inferInstanceAs (Decidable (_ → _ → _))

namespace Broadcast

variable {cfg : SocketConfig} (B : Broadcast cfg)

/-- No copy of a shard comes when its frame is forgotten, and the highest position moves
without a gap, with every frame reported once. -/
def Gapless (s : Accounting) : AccountingEvent → Prop
  | .client (.network now packets) => ∀ a ∈ s.client.agenda.advance now,
    allOk (countPacket cfg) Remembered (s.ledger, { s.client with agenda := a }) packets
  | .handleControlPacket => ∀ x ∈ s.client.pushed[s.handled]?,
    UInt32.ofInt x.2.frameIndex ∈ s.server.mapRtt ∧ B.Continues s.server.statisticsManager x.2
  | _ => True

instance (s : Accounting) : ∀ e, Decidable (B.Gapless s e)
  | .client (.network now packets) => inferInstanceAs (Decidable (∀ a ∈ s.client.agenda.advance now,
    allOk (countPacket cfg) Remembered (s.ledger, { s.client with agenda := a }) packets))
  | .handleControlPacket => inferInstanceAs (Decidable (∀ x ∈ s.client.pushed[s.handled]?,
    UInt32.ofInt x.2.frameIndex ∈ s.server.mapRtt ∧ B.Continues s.server.statisticsManager x.2))
  | .client (.videoReceiveThread _ _) => inferInstanceAs (Decidable True)
  | .client (.bwProbeReceiveThread _) => inferInstanceAs (Decidable True)
  | .client (.vsync _ _ _) => inferInstanceAs (Decidable True)
  | .generateVideoFrame _ _ => inferInstanceAs (Decidable True)

end Broadcast

/-! ## What the client counts -/

/-- The counters of the socket and of the packets it has completed agree with what was
received. -/
structure Tally (l : ShardLedger) (sent : List ReconstructedPacket)
    (st : Table UInt32 (Table Nat ShardMapStats) × Nat × Int × Int) : Prop where
  noted : ∀ f k, k ∈ (st.1.lookup f).getD ∅ → ⟨f.toNat, k⟩ ∈ l.received
  total : l.received.card = (sent.map (·.rxShardCounter)).sum + st.2.1
  completions : l.atCompletion.length = sent.length
  counts : ∀ n ≤ sent.length,
    ((l.atCompletion.take n).getLastD ∅).card = ((sent.take n).map (·.rxShardCounter)).sum
  ascending : sent.Pairwise fun r r' =>
    toLex (r.highestRxFrameIndex, r.highestRxShardIndex) ≤
      toLex (r'.highestRxFrameIndex, r'.highestRxShardIndex)
  below : ∀ r ∈ sent, toLex (r.highestRxFrameIndex, r.highestRxShardIndex) ≤ toLex st.2.2

/-- Noting a shard never lowers the highest position. -/
theorem highest_le_noteVideoShard (s : StreamSocket) (now : Nat) (h : ShardHeader) :
    toLex (shardStatistics s).2.2 ≤ toLex (shardStatistics (s.noteVideoShard now h)).2.2 := by
  set frame := h.packetIndex.toInt32.toInt with hframe
  set shard := (Int32.ofNat h.shardIndex).toInt with hshard
  have hposition : (shardStatistics (s.noteVideoShard now h)).2.2 =
      if s.highestRxFrameIndex = frame then
        if s.highestRxShardIndex < shard then (s.highestRxFrameIndex, shard)
        else (s.highestRxFrameIndex, s.highestRxShardIndex)
      else if s.highestRxFrameIndex < frame then (frame, shard)
      else (s.highestRxFrameIndex, s.highestRxShardIndex) := by
    unfold StreamSocket.noteVideoShard shardStatistics
    dsimp only
    split_ifs <;> rfl
  rw [hposition, Prod.Lex.toLex_le_toLex]
  show s.highestRxFrameIndex < _ ∨ s.highestRxFrameIndex = _ ∧ s.highestRxShardIndex ≤ _
  split_ifs with hsame hhigher hlater
  · exact .inr ⟨rfl, hhigher.le⟩
  · exact .inr ⟨rfl, le_rfl⟩
  · exact .inl hlater
  · exact .inr ⟨rfl, le_rfl⟩

/-- A shard that the socket knows is not counted, any other is entered and counted. -/
theorem counts_noteVideoShard (s : StreamSocket) (now : Nat) (h : ShardHeader) :
    ∃ packet, ((s.noteVideoShard now h).mapRx, (s.noteVideoShard now h).rxShardCounter) =
      if h.shardIndex ∈ (s.mapRx.lookup h.packetIndex).getD ∅ then (s.mapRx, s.rxShardCounter)
      else (s.mapRx.insert h.packetIndex
          (((s.mapRx.lookup h.packetIndex).getD ∅).insert h.shardIndex packet),
        s.rxShardCounter + 1) := by
  refine ⟨⟨h.txInstant, now, h.shardLength % 2 ^ 32,
    (h.shardLength - shardPrefixSize) % 2 ^ 32⟩, ?_⟩
  unfold StreamSocket.noteVideoShard
  dsimp only
  split_ifs <;> rfl

section Tally

variable {l : ShardLedger} {sent : List ReconstructedPacket}

/-- A video shard arrives. -/
theorem Tally.note {s : StreamSocket} (h : Tally l sent (shardStatistics s)) (now : Nat)
    {message : Bytes} (hremembered : positionOf message ∈ l.received →
      (headerOf message).shardIndex ∈
        (s.mapRx.lookup (headerOf message).packetIndex).getD ∅) :
    Tally { l with received := insert (positionOf message) l.received } sent
      (shardStatistics (s.noteVideoShard now (headerOf message))) := by
  set f := (headerOf message).packetIndex with hf
  set k := (headerOf message).shardIndex with hk
  have hle := highest_le_noteVideoShard s now (headerOf message)
  obtain ⟨packet, hcounts⟩ := counts_noteVideoShard s now (headerOf message)
  by_cases hknown : k ∈ (s.mapRx.lookup f).getD ∅
  · -- a copy: it was received before, and nothing changes
    rw [if_pos hknown] at hcounts
    obtain ⟨hmap, hcounter⟩ := Prod.mk.inj hcounts
    have hreceived : insert (positionOf message) l.received = l.received :=
      Finset.insert_eq_of_mem (h.noted f k hknown)
    refine ⟨?_, ?_, h.completions, h.counts, h.ascending, fun r hr => (h.below r hr).trans hle⟩
    · show ∀ f' k', k' ∈ ((s.noteVideoShard now (headerOf message)).mapRx.lookup f').getD ∅ → _
      rw [hmap, hreceived]
      exact h.noted
    · show _ = _ + (s.noteVideoShard now (headerOf message)).rxShardCounter
      rw [hcounter, hreceived]
      exact h.total
  -- A shard that the socket does not remember is a new one, and is counted once.
  · rw [if_neg hknown] at hcounts
    obtain ⟨hmap, hcounter⟩ := Prod.mk.inj hcounts
    have hnew : positionOf message ∉ l.received := fun hmem => hknown (hremembered hmem)
    refine ⟨?_, ?_, h.completions, h.counts, h.ascending, fun r hr => (h.below r hr).trans hle⟩
    · show ∀ f' k', k' ∈ ((s.noteVideoShard now (headerOf message)).mapRx.lookup f').getD ∅ → _
      intro f' k' hk'
      rw [hmap, Table.lookup_insert_ite] at hk'
      split at hk'
      · rename_i hsame
        rw [Option.getD_some, AList.mem_insert] at hk'
        rcases hk' with rfl | hk'
        · rw [hsame]
          exact Finset.mem_insert_self _ _
        · exact Finset.mem_insert_of_mem (h.noted f' k' (hsame ▸ hk'))
      · exact Finset.mem_insert_of_mem (h.noted f' k' hk')
    · show _ = _ + (s.noteVideoShard now (headerOf message)).rxShardCounter
      rw [hcounter, Finset.card_insert_of_notMem hnew, h.total]
      rfl

/-- A frame is complete: its packet takes the counter along. -/
theorem Tally.complete {s : StreamSocket} (h : Tally l sent (shardStatistics s))
    {r : ReconstructedPacket}
    (hr : (r.rxShardCounter, r.highestRxFrameIndex, r.highestRxShardIndex) =
      (shardStatistics s).2) (f : UInt32) :
    Tally { l with atCompletion := l.atCompletion ++ [l.received] } (sent ++ [r])
      (shardStatistics (s.resetVideoCounters f)) := by
  obtain ⟨hcounter, hhighest⟩ := Prod.mk.inj hr
  -- The counter goes to the packet and starts again from 0, so the sum stays.
  have htotal : l.received.card = ((sent ++ [r]).map (·.rxShardCounter)).sum := by
    rw [List.map_append, List.sum_append, h.total]
    show _ + s.rxShardCounter = _
    rw [← hcounter]
    simp
  refine ⟨?_, ?_, ?_, ?_, ?_, ?_⟩
  · intro f' k' hk'
    refine h.noted f' k' ?_
    simp only [shardStatistics, StreamSocket.resetVideoCounters, Table.lookup_eraseAll] at hk'
    split at hk'
    · exact absurd hk' (AList.notMem_empty k')
    · exact hk'
  · rw [htotal]
    rfl
  · simp [h.completions]
  · intro n hn
    rw [List.length_append, List.length_singleton] at hn
    -- Up to the frame just completed, or to an earlier one as before.
    rcases Nat.lt_or_ge sent.length n with hlast | hbefore
    · obtain rfl : n = sent.length + 1 := by omega
      rw [List.take_of_length_le (by simp [h.completions]),
        List.take_of_length_le (by simp), ← htotal]
      simp
    · rw [List.take_append_of_le_length (h.completions ▸ hbefore),
        List.take_append_of_le_length hbefore]
      exact h.counts n hbefore
  · rw [List.pairwise_append]
    refine ⟨h.ascending, List.pairwise_singleton _ _, fun r' hr' r'' hr'' => ?_⟩
    rw [List.mem_singleton.1 hr'', hhighest]
    exact h.below r' hr'
  · intro r' hr'
    rcases List.mem_append.1 hr' with hr' | hr'
    · exact h.below r' hr'
    · rw [List.mem_singleton.1 hr', hhighest]
      rfl

end Tally

/-- A client in a session whose counters agree with the ledger. -/
structure Counted (l : ShardLedger) (c : Client) : Prop where
  streaming : Streaming c
  tally : Tally l (sentOf c.session.socket video) (shardStatistics c.session.socket)

namespace Counted

variable {cfg : SocketConfig} {B : Broadcast cfg} {l : ShardLedger} {c c' : Client}

/-- A packet of the session. -/
theorem countPacket {packet : MpduPacket × IterOrder} {s' : ShardLedger × Client}
    (h : Counted l c) (hsends : B.Sends packet.1) (hremembered : Remembered (l, c) packet)
    (hs' : countPacket cfg (l, c) packet = some s') :
    Counted s'.1 s'.2 ∧ s'.2.pushed = c.pushed := by
  obtain ⟨c', hc', rfl⟩ := Option.map_eq_some_iff.1 hs'
  obtain ⟨hs', hpushed, heffect⟩ := h.streaming.onPacket hsends.addressed hc'
  refine ⟨⟨hs', ?_⟩, hpushed⟩
  show Tally (l.note c packet.1 c') (sentOf c'.session.socket video) _
  unfold ShardLedger.note
  by_cases hvideo : packet.1.streamId = video
  · rw [if_pos hvideo] at heffect ⊢
    obtain ⟨hwf, hsid⟩ := hsends.addressed (.inl hvideo)
    have hnoted := h.tally.note c.agenda.now (hremembered hvideo)
    rcases step_shard_video h.streaming.idle hwf (hsid.trans hvideo) h.streaming.subscribed
      heffect with ⟨hsent, hstats⟩ | ⟨r, hsent, hr, hstats⟩
    · simp only [hsent, hstats, if_neg (lt_irrefl _)]
      exact hnoted
    · simp only [hsent, hstats, List.length_append, List.length_singleton, Nat.lt_add_one, if_true]
      exact hnoted.complete hr _
  · rw [if_neg hvideo] at heffect ⊢
    rw [heffect.sent, heffect.statistics]
    exact h.tally

theorem setAgenda (h : Counted l c) (a : Agenda Task) : Counted l { c with agenda := a } :=
  ⟨h.streaming.setAgenda a, h.tally⟩

theorem pushed_map (h : Counted l c) :
    c.pushed.map (fun x => (x.2.rxShardCounter, x.2.highestRx)) =
      ((sentOf c.session.socket video).take c.queue.taken).map fun r =>
        (r.rxShardCounter, toLex (r.highestRxFrameIndex, r.highestRxShardIndex)) := by
  have hview := congrArg (List.map fun y => (y.2.rxShardCounter, y.2.highestRx))
    h.streaming.pushed
  rw [List.map_map, List.map_map, sent_queueOf] at hview
  exact hview

theorem ascending (h : Counted l c) :
    (c.pushed.map (·.2.highestRx)).Pairwise (· ≤ ·) := by
  have hview := congrArg (List.map Prod.snd) h.pushed_map
  rw [List.map_map, List.map_map] at hview
  refine (congrArg _ hview).mpr (List.pairwise_map.2 ?_)
  exact h.tally.ascending.sublist (List.take_sublist _ _)

theorem sum_pushed (h : Counted l c) {n : Nat} (hn : n ≤ c.pushed.length) :
    ((c.pushed.take n).map (·.2.rxShardCounter)).sum =
      ((l.atCompletion.take n).getLastD ∅).card := by
  have hview := congrArg (List.map Prod.fst) h.pushed_map
  rw [List.map_map, List.map_map] at hview
  have hlength := congrArg List.length h.pushed_map
  simp only [List.length_map, List.length_take] at hlength
  have hfirst := congrArg (fun l => (l.take n).sum) hview
  simp only [← List.map_take, List.take_take] at hfirst
  rw [Nat.min_eq_left (by omega)] at hfirst
  exact hfirst.trans (h.tally.counts n (by omega)).symm

end Counted

/-! ## What the server adds up -/

namespace Broadcast

variable {cfg : SocketConfig} (B : Broadcast cfg)

theorem card_shardsUpTo (frame shard : Int) :
    (B.shardsUpTo (toLex (frame, shard))).card =
      ∑ f ∈ Finset.range frame.toNat, B.expected (.ofNat f) + (shard + 1).toNat := by
  rw [shardsUpTo, Finset.card_sigma, Finset.sum_range_succ]
  simp only [Finset.card_range, ofLex_toLex, lt_irrefl, if_false]
  congr 1
  exact Finset.sum_congr rfl fun f hf => if_pos (Finset.mem_range.1 hf)

end Broadcast

theorem asUsize_of_nonneg {i : Int} (h : 0 ≤ i) : asUsize i = i.toNat := if_pos h

theorem ofInt_of_nonneg {i : Int} (h : 0 ≤ i) : UInt32.ofInt i = UInt32.ofNat i.toNat := by
  obtain ⟨n, rfl⟩ := Int.eq_ofNat_of_zero_le h
  rw [UInt32.ofInt, show ((n : Int) % 2 ^ 32) = ((n % 2 ^ 32 : Nat) : Int) by omega,
    Int.toNat_natCast, Int.toNat_natCast, UInt32.ofNat_mod_size]

/-- **What the server takes for the shards sent**, when the position moves without a gap. -/
theorem shardsSent_of_continues {cfg : SocketConfig} {B : Broadcast cfg} {m : StatisticsManager}
    {p : NetworkStatisticsPacket} {sent : Nat} (hcontinues : B.Continues m p)
    (hempty : m.mapFramesSpf = ∅) (hframe : 0 ≤ m.prevHighestFrame)
    (hshard : -1 ≤ m.prevHighestShard)
    (hle : toLex (m.prevHighestFrame, m.prevHighestShard) ≤ p.highestRx)
    (hsent : m.shardsSent p.highestRxFrameIndex p.highestRxShardIndex = some sent) :
    (B.shardsUpTo p.highestRx).card =
      (B.shardsUpTo (toLex (m.prevHighestFrame, m.prevHighestShard))).card + sent := by
  rw [NetworkStatisticsPacket.highestRx] at hle ⊢
  rw [Prod.Lex.toLex_le_toLex] at hle
  dsimp only at hle
  rw [B.card_shardsUpTo, B.card_shardsUpTo]
  unfold StatisticsManager.shardsSent at hsent
  obtain ⟨hnonneg, hsame | ⟨hnext, hwhole⟩⟩ := hcontinues
  · rw [if_pos hsame.symm] at hsent
    rw [hsame]
    split at hsent
    · split at hsent
      · cases hsent
      · cases hsent
        rw [asUsize_of_nonneg (by omega)]
        omega
    · cases hsent
      omega
  · rw [if_neg (by omega), if_pos (by omega)] at hsent
    simp only [hempty] at hsent
    split at hsent
    · cases hsent
    · cases hsent
      have hframes : p.highestRxFrameIndex.toNat = m.prevHighestFrame.toNat + 1 := by omega
      have hwhole' : (m.prevHighestShard + 1).toNat =
          B.expected (UInt32.ofNat m.prevHighestFrame.toNat) := by
        rw [hwhole, ofInt_of_nonneg hframe, Int.toNat_natCast]
      rw [hframes, Finset.sum_range_succ, hwhole', asUsize_of_nonneg hnonneg]
      -- nothing is known of the frames before
      show _ = _ + (0 + 0 + (p.highestRxShardIndex.toNat + 1))
      omega

/-- The server's sum agrees with the highest position and the counters reported. -/
structure Balanced {cfg : SocketConfig} (B : Broadcast cfg) (s : Accounting) : Prop where
  counted : Counted s.ledger s.client
  handled_le : s.handled ≤ s.client.pushed.length
  unfilled : s.server.statisticsManager.mapFramesSpf = ∅
  position : toLex (s.server.statisticsManager.prevHighestFrame,
    s.server.statisticsManager.prevHighestShard) = s.highestReported
  frame_nonneg : 0 ≤ s.server.statisticsManager.prevHighestFrame
  shard_le : -1 ≤ s.server.statisticsManager.prevHighestShard
  balance : s.server.shardsLost.sum = ((B.shardsUpTo s.highestReported).card : Int) -
    ((s.client.pushed.take s.handled).map (·.2.rxShardCounter)).sum

namespace Balanced

variable {cfg : SocketConfig} {B : Broadcast cfg} {s s' : Accounting}

theorem lossesExact (h : Balanced B s) : B.LossesExact s := by
  rw [Broadcast.LossesExact, h.balance, h.counted.sum_pushed h.handled_le]
  rfl

theorem setClient (h : Balanced B s) {l : ShardLedger} {c : Client} (hcounted : Counted l c)
    (hpushed : s.client.pushed <+: c.pushed) :
    Balanced B { s with client := c, ledger := l } := by
  have htake : c.pushed.take s.handled = s.client.pushed.take s.handled := by
    obtain ⟨new, hnew⟩ := hpushed
    rw [← hnew, List.take_append_of_le_length h.handled_le]
  have hhighest : ({ s with client := c, ledger := l } : Accounting).highestReported =
      s.highestReported := by
    rw [Accounting.highestReported, Accounting.highestReported, htake]
  refine ⟨hcounted, h.handled_le.trans hpushed.length_le, h.unfilled, ?_, h.frame_nonneg,
    h.shard_le, ?_⟩
  · rw [hhighest]
    exact h.position
  · rw [hhighest, htake]
    exact h.balance

theorem network {now : Nat} {packets : List (MpduPacket × IterOrder)} (h : Balanced B s)
    (hsends : B.InSession (.client (.network now packets)))
    (hgapless : B.Gapless s (.client (.network now packets)))
    (hs' : s.step cfg (.client (.network now packets)) = some s') : Balanced B s' := by
  obtain ⟨a, ha, hs'⟩ := Option.bind_eq_some_iff.1 hs'
  obtain ⟨⟨l, c⟩, hruns, rfl⟩ := Option.map_eq_some_iff.1 hs'
  have hsent : allOk (countPacket cfg) (fun _ packet => B.Sends packet.1)
      (s.ledger, { s.client with agenda := a }) packets :=
    allOk_of_forall (fun packet hp _ => hsends packet hp) _
  obtain ⟨hcounted, hpushed⟩ := Run.state_invariant
    (P := fun t : ShardLedger × Client => Counted t.1 t.2 ∧ t.2.pushed = s.client.pushed)
    ⟨h.counted.setAgenda a, rfl⟩ (fun t packet t' hp hok ht => by
      obtain ⟨hcounted, hpushed⟩ := hp.1.countPacket hok.2 hok.1 ht
      exact ⟨hcounted, hpushed.trans hp.2⟩) (.of_runs ((hgapless a ha).and hsent) hruns)
  exact h.setClient hcounted (by rw [hpushed])

/-- The next position is not below the highest one so far. -/
theorem highestReported_le (h : Balanced B s) {x : Nat × NetworkStatisticsPacket}
    (hx : s.client.pushed[s.handled]? = some x)
    (hcontinues : B.Continues s.server.statisticsManager x.2) :
    s.highestReported ≤ x.2.highestRx := by
  have hascending : ((s.client.pushed.take (s.handled + 1)).map (·.2.highestRx)).Pairwise
      (· ≤ ·) := h.counted.ascending.sublist ((List.take_sublist _ _).map _)
  rw [List.take_add_one, hx, Option.toList_some, List.map_append,
    List.pairwise_append] at hascending
  refine List.foldlRecOn (motive := (· ≤ x.2.highestRx)) _ max ?_ fun p hp q hq => ?_
  · rw [NetworkStatisticsPacket.highestRx, Prod.Lex.toLex_le_toLex]
    have hframe := h.frame_nonneg
    obtain ⟨hshard, hnext⟩ := hcontinues
    dsimp only
    omega
  · exact max_le hp (hascending.2.2 q hq _ (List.mem_singleton_self _))

/-- The server receives the statistics of a frame. -/
theorem handleControlPacket (h : Balanced B s) (hgapless : B.Gapless s .handleControlPacket)
    (hs' : s.step cfg .handleControlPacket = some s') : Balanced B s' := by
  obtain ⟨x, hx, hs'⟩ := Option.bind_eq_some_iff.1 hs'
  obtain ⟨hawaited, hcontinues⟩ := hgapless x hx
  obtain ⟨server, hserver, rfl⟩ := Option.map_eq_some_iff.1 hs'
  obtain ⟨sent, hsent, hlost, hprevFrame, hprevShard, hunfilled⟩ :=
    XrServer.report_of_awaited hawaited hserver
  -- The highest position of the statistics is not below any that was handled before.
  have hle := h.highestReported_le hx hcontinues
  have htake : s.client.pushed.take (s.handled + 1) = s.client.pushed.take s.handled ++ [x] := by
    rw [List.take_add_one, hx, Option.toList_some]
  set s' : Accounting := { s with server := server, handled := s.handled + 1 }
  have hhighest : s'.highestReported = x.2.highestRx := by
    show ((s.client.pushed.take (s.handled + 1)).map _).foldl max _ = _
    rw [htake, List.map_append, List.foldl_append]
    exact max_eq_right hle
  -- As it leaves no shard out, the server's count is the number of shards sent in between.
  have hcard := shardsSent_of_continues hcontinues h.unfilled h.frame_nonneg h.shard_le
    (h.position ▸ hle) hsent
  rw [h.position] at hcard
  obtain ⟨hshard, hframe⟩ := hcontinues
  have hnonneg := h.frame_nonneg
  refine ⟨h.counted, (List.getElem?_eq_some_iff.1 hx).1, hunfilled h.unfilled, ?_, ?_, ?_, ?_⟩
  · show toLex (server.statisticsManager.prevHighestFrame, _) = _
    rw [hhighest, hprevFrame, hprevShard]
    rfl
  · show 0 ≤ server.statisticsManager.prevHighestFrame
    omega
  · show -1 ≤ server.statisticsManager.prevHighestShard
    omega
  -- The balance: both sides grow by what was sent in between minus what was received.
  · show server.shardsLost.sum =
      _ - ((((s.client.pushed.take (s.handled + 1)).map _).sum : Nat) : Int)
    rw [hhighest, hcard, hlost, htake, List.map_append, List.sum_append, List.sum_append, h.balance]
    simp only [List.map_cons, List.map_nil, List.sum_singleton]
    push_cast
    ring

/-- **Step**: the invariant survives every event that meets the condition. -/
theorem step {e : AccountingEvent} (h : Balanced B s) (hsession : B.InSession e)
    (hgapless : B.Gapless s e) (hs' : s.step cfg e = some s') : Balanced B s' := by
  cases e with
  | client e =>
    rcases e.network_or_quiet with ⟨now, packets, rfl⟩ | hquiet
    · exact h.network hsession hgapless hs'
    · have hstep : s.step cfg (.client e) =
          (s.client.step cfg e).map fun client => { s with client := client } := by
        cases e with
        | network now packets => exact absurd rfl (hquiet now packets)
        | _ => rfl
      obtain ⟨c, hc, rfl⟩ := Option.map_eq_some_iff.1 (hstep ▸ hs')
      obtain ⟨hstreaming, hsame⟩ := h.counted.streaming.step_quiet hquiet hc
      refine h.setClient ⟨hstreaming, ?_⟩ (pushed_of_quiet hquiet hc)
      rw [hsame.sent, hsame.statistics]
      exact h.counted.tally
  | generateVideoFrame frame now =>
    cases hs'
    exact ⟨h.counted, h.handled_le, h.unfilled, h.position, h.frame_nonneg, h.shard_le, h.balance⟩
  | handleControlPacket => exact h.handleControlPacket hgapless hs'

end Balanced

/-! ## Whole runs -/

theorem tally_start (streams : List UInt16) (n : Nat) :
    Tally ⟨∅, []⟩ (sentOf (Session.start streams n).socket video)
      (shardStatistics (Session.start streams n).socket) := by
  have hstats : shardStatistics (Session.start streams n).socket = (∅, 0, -1, -1) :=
    foldl_view (f := fun s id => s.subscribeToStream id n) shardStatistics (fun _ _ => rfl)
      streams .build
  rw [(fresh_start streams n).2.2.2 video, hstats]
  refine ⟨fun f k hk => ?_, rfl, rfl, fun n hn => ?_, .nil, fun r hr => ?_⟩
  · exact absurd hk (AList.notMem_empty k)
  · obtain rfl : n = 0 := Nat.le_zero.1 hn
    rfl
  · exact absurd hr List.not_mem_nil

theorem balanced_start {cfg : SocketConfig} (B : Broadcast cfg) (abrMode : Nat)
    (agenda : Agenda Task) : Balanced B (.start abrMode agenda) where
  counted := ⟨streaming_start abrMode agenda, tally_start _ _⟩
  handled_le := Nat.le_refl 0
  unfilled := rfl
  position := rfl
  frame_nonneg := le_rfl
  shard_le := le_rfl
  balance := by
    show (0 : Int) = ((B.shardsUpTo (toLex (0, -1))).card : Int) - 0
    rw [B.card_shardsUpTo]
    rfl

/-- **The recorded losses are exact without gaps**: in every state of a session whose events
all meet the condition, the values recorded add up to the shards sent up to the highest
position reported minus the distinct shards received by then. If these are all the shards
sent up to there, the sum is zero. -/
theorem shards_lost_exact {cfg : SocketConfig} (B : Broadcast cfg) (abrMode : Nat)
    (agenda : Agenda Task) {es : List AccountingEvent} {s : Accounting}
    (h : Run (Accounting.step cfg) (fun s e => B.InSession e ∧ B.Gapless s e)
      (.start abrMode agenda) es s) :
    B.LossesExact s ∧
      (s.receivedThen = B.shardsUpTo s.highestReported → s.server.shardsLost.sum = 0) := by
  have hexact := (Run.state_invariant (P := Balanced B) (balanced_start B abrMode agenda)
    (fun _ _ _ hp hok hs => hp.step hok.1 hok.2 hs) h).lossesExact
  refine ⟨hexact, fun hall => ?_⟩
  rw [hexact, hall, sub_self]

/-- Frames 0 and 1 arrive one after the other, with their shards in any order. -/
def wholeFrames : List AccountingEvent :=
  [.generateVideoFrame 0 0, .generateVideoFrame 1 0,
    .client (.network 5 [clientBroadcast.packet 0 1, clientBroadcast.packet 0 0,
      clientBroadcast.packet 1 0, clientBroadcast.packet 1 1])] ++
  List.replicate 4 (.client (.videoReceiveThread 15 .id)) ++
  [.handleControlPacket, .handleControlPacket]

theorem shards_lost_exact_whole : ∃ s,
    Run (Accounting.step clientSocket)
      (fun s e => clientBroadcast.InSession e ∧ clientBroadcast.Gapless s e)
      (.start 0 ⟨0, []⟩) wholeFrames s ∧
    s.server.shardsLost = [0, 0] ∧ s.receivedThen.card = 4 ∧ clientBroadcast.LossesExact s := by
  have hruns : (runs (Accounting.step clientSocket) (.start 0 ⟨0, []⟩) wholeFrames).map
      (fun s => (s.server.shardsLost, s.receivedThen.card)) = some ([0, 0], 4) := by
    decide +kernel
  obtain ⟨s, hs, hview⟩ := Option.map_eq_some_iff.1 hruns
  obtain ⟨hlost, hreceived⟩ := Prod.mk.inj hview
  have hrun : Run (Accounting.step clientSocket)
      (fun s e => clientBroadcast.InSession e ∧ clientBroadcast.Gapless s e)
      (.start 0 ⟨0, []⟩) wholeFrames s := .of_runs (by decide +kernel) hs
  exact ⟨s, hrun, hlost, hreceived, (shards_lost_exact clientBroadcast 0 ⟨0, []⟩ hrun).1⟩

/-! ## A lost frame -/

/-- Frames 0 and 2 arrive, and no shard of frame 1 does. -/
def lostFrame : List AccountingEvent :=
  [.generateVideoFrame 0 0, .client (.network 5 [clientBroadcast.packet 0 0,
      clientBroadcast.packet 0 1])] ++
  List.replicate 2 (.client (.videoReceiveThread 15 .id)) ++
  [.handleControlPacket, .generateVideoFrame 1 16, .generateVideoFrame 2 17,
    .client (.network 20 [clientBroadcast.packet 2 0, clientBroadcast.packet 2 1])] ++
  List.replicate 2 (.client (.videoReceiveThread 30 .id)) ++ [.handleControlPacket]

/-- **The server misses a lost frame**: it has sent six shards up to the highest position,
the client has received four, and the losses recorded add up to zero. -/
theorem shards_lost_missed : ∃ s,
    Run (Accounting.step clientSocket) (fun _ e => clientBroadcast.InSession e)
      (.start 0 ⟨0, []⟩) lostFrame s ∧
    s.server.shardsLost = [0, 0] ∧ (clientBroadcast.shardsUpTo s.highestReported).card = 6 ∧
    s.receivedThen.card = 4 ∧ ¬ clientBroadcast.LossesExact s := by
  have hruns : (runs (Accounting.step clientSocket) (.start 0 ⟨0, []⟩) lostFrame).map
      (fun s => (s.server.shardsLost, (clientBroadcast.shardsUpTo s.highestReported).card,
        s.receivedThen.card)) = some ([0, 0], 6, 4) := by
    decide +kernel
  obtain ⟨s, hs, hview⟩ := Option.map_eq_some_iff.1 hruns
  simp only [Prod.mk.injEq] at hview
  obtain ⟨hlost, hsent, hreceived⟩ := hview
  have hsession : ∀ e ∈ lostFrame, clientBroadcast.InSession e := by decide +kernel
  have hrun : Run (Accounting.step clientSocket) (fun _ e => clientBroadcast.InSession e)
      (.start 0 ⟨0, []⟩) lostFrame s :=
    .of_runs (allOk_of_forall (fun e he _ => hsession e he) _) hs
  refine ⟨s, hrun, hlost, hsent, hreceived, ?_⟩
  rw [Broadcast.LossesExact, hlost, hsent, hreceived]
  decide

end SiestaVR.Stream
