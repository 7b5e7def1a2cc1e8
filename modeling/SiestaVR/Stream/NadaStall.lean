import SiestaVR.Abr.NadaReceiver
import SiestaVR.Stream.ClientSteps

/-!
# The stall rule of NADA (lib/models_XR.rs:5901–5910, 6312–6323, 6484–6507, 6689–6705)

At level 2 the client keeps a `NadaReceiver`. Every read of the video stream and every
`vsync` records the shards that were given up since the last one, a frame that is read is
accumulated, and the tracking data carry a report when one is due. If the stream stalls
after the first frame, a report should count the frames due since the last report as lost,
so that the loss ratio rises.

The rule asks whether losses have been recorded in the interval. But it asks how many times
`record_lost_shards` was called, and every read and every `vsync` calls it, most often with
no loss at all. `stall_counted_iff` says when the rule works: if neither has happened since
the last report, or if it has nothing to count. As `vsync` runs with every frame of the
display, it never works: `stall_not_counted` is a stall of 110 ms with a single `vsync`.
-/

namespace SiestaVR.Stream

open Lib Abr

/-! ## The client with its receiver -/

/-- The sum that `flush_shards_expected_deadline` returns. -/
def StreamSocket.shardsExpected (s : StreamSocket) : Nat :=
  (s.lostShardsExpectedMap.entries.map (·.2)).sum

/-- What is passed to `record_lost_shards`: the shards lost, of those expected. -/
def StreamSocket.lossesToRecord (order : Shuffle (UInt32 × Nat)) (s : StreamSocket) : Nat × Nat :=
  ((s.flushShardsLostDeadline order).1.2.sum, s.shardsExpected)

/-- What an event records. -/
def Client.lossesRecorded (cfg : SocketConfig) (c : Client) : ClientEvent → Option (Nat × Nat)
  | .videoReceiveThread _ order =>
    if cfg.nadaFix ∧ c.isStreaming ∧ c.inputAppVideo.isSome then
      some (c.session.socket.lossesToRecord order)
    else none
  | .vsync now order flushOrder =>
    if cfg.nadaFix then
      some ((c.session.socket.sweepExpiredDeadlines cfg order now).lossesToRecord flushOrder)
    else none
  | _ => none

/-- The frame that an event reads. -/
def Client.frameRead (c : Client) : ClientEvent → Option ReceiverData
  | .videoReceiveThread _ _ =>
    match c.isStreaming, c.inputAppVideo with
    | true, some receiver =>
      (c.session.socket.streamRecvComponents.lookup video).bind fun comps =>
        (receiver.recv comps).bind fun x => x.1.toOption
    | _, _ => none
  | _ => none

/-- The receiver after an event. The one-way delay of a frame, if there is one, is measured
elsewhere. -/
def nadaAfter (n : NadaReceiver) (nowUs : Int) (losses : Option (Nat × Nat))
    (frame : Option ReceiverData) (owdUs : Option Int) : NadaReceiver :=
  let n :=
    match losses with
    | some (lost, expected) => n.recordLostShards lost expected nowUs
    | none => n
  match frame with
  | some data =>
    let n :=
      match owdUs with
      | some owd => n.computeOnewayDelay 0 owd
      | none => n
    n.accumulateFrame data.bytesInFrame data.shardsInFrame
  | none => n

/-- What an observer notes between two reports: when the last one was, how many frames were
completed and how many times losses were recorded since, with how many shards in all, and
the shards of the last frame completed at all. -/
structure ReportInterval where
  start : Int
  frames : Nat
  records : Nat
  lost : Nat
  expected : Nat
  lastShards : Option Nat
deriving DecidableEq, Repr

/-- The interval after an event. -/
def ReportInterval.after (i : ReportInterval) (losses : Option (Nat × Nat))
    (frame : Option ReceiverData) : ReportInterval where
  start := i.start
  frames := i.frames + frame.toList.length
  records := i.records + losses.toList.length
  lost := i.lost + (losses.map (·.1)).getD 0
  expected := i.expected + (losses.map (·.2)).getD 0
  lastShards := (frame.map (·.shardsInFrame)).or i.lastShards

/-- A client with its receiver, and the observer. -/
structure NadaClient where
  client : Client
  nada : NadaReceiver
  interval : ReportInterval

/-- The start of a session. Mode 5 is NADA. -/
def NadaClient.start (agenda : Agenda Task) : NadaClient :=
  ⟨.configureStreams 5 agenda, .new, ⟨0, 0, 0, 0, 0, none⟩⟩

/-- What happens to the client. -/
inductive NadaEvent
  | client (e : ClientEvent) (owdUs : Option Int)
  | generateTrackingData (now : Nat)

/-- A time in microseconds. -/
def micros (now : Nat) : Int := (now / 1000 : Nat)

/-- One event. -/
def NadaClient.step (cfg : SocketConfig) (fps : ℚ) (s : NadaClient) :
    NadaEvent → Option NadaClient
  | .client e owdUs => (s.client.step cfg e).map fun client =>
    let losses := s.client.lossesRecorded cfg e
    let frame := s.client.frameRead e
    { client := client
      nada := nadaAfter s.nada (micros e.now) losses frame owdUs
      interval := s.interval.after losses frame }
  | .generateTrackingData now => (s.client.agenda.advance now).map fun a =>
    let (report, nada) := s.nada.timerReport (micros now) fps
    { client := { s.client with agenda := a }
      nada := nada
      interval :=
        if report.isSome then { s.interval with
          start := micros now, frames := 0, records := 0, lost := 0, expected := 0 }
        else s.interval }

/-! ## The property -/

namespace ReportInterval

/-- A frame was completed before, but none in the interval, and no loss was recorded. -/
def Stalled (i : ReportInterval) : Prop :=
  i.frames = 0 ∧ i.lost = 0 ∧ i.lastShards.isSome = true

instance (i : ReportInterval) : Decidable i.Stalled := inferInstanceAs (Decidable (_ ∧ _))

/-- The shards of the frames due in the interval, at the size of the last frame. -/
def shardsDue (i : ReportInterval) (nowUs : Int) (fps : ℚ) : Nat :=
  framesDue (nowUs - i.start) fps * i.lastShards.getD 0

end ReportInterval

/-- **The stall is counted**: a report that is due at the end of a stalled interval counts the
shards of the frames due as lost, and if there are some and nothing else was recorded, the
loss ratio rises. -/
def NadaClient.StallCounted (s : NadaClient) (nowUs : Int) (fps : ℚ) : Prop :=
  s.nada.ReportDue nowUs → s.interval.Stalled →
    let due := s.interval.shardsDue nowUs fps
    (s.nada.timerReport nowUs fps).1.map (·.plr) =
      some (smoothLoss (lossRatio due (s.interval.expected + due)) s.nada.pLoss) ∧
    (0 < due → s.interval.expected = 0 →
      ∀ r ∈ (s.nada.timerReport nowUs fps).1, s.nada.pLoss < r.plr)

instance (s : NadaClient) (nowUs : Int) (fps : ℚ) : Decidable (s.StallCounted nowUs fps) := by
  unfold NadaClient.StallCounted
  infer_instance

/-- Neither a read of the video stream nor `vsync` has recorded losses since the last report,
or there is nothing to count. -/
def NadaClient.Unrecorded (s : NadaClient) (nowUs : Int) (fps : ℚ) : Prop :=
  s.nada.ReportDue nowUs → s.interval.Stalled →
    s.interval.records = 0 ∨ s.interval.shardsDue nowUs fps = 0

/-! ## The loss tables -/

/-- The tables of lost and of expected shards have the same frames, and no frame has lost
more shards than it has. -/
def Paired (s : StreamSocket) : Prop :=
  Table.Matched (· ≤ ·) s.lostShardsDeadlineMap s.lostShardsExpectedMap

section Paired

variable {cfg : SocketConfig} {s s' : StreamSocket}

theorem Paired.congr (h : Paired s) (hlost : s'.lostShardsDeadlineMap = s.lostShardsDeadlineMap)
    (hexpected : s'.lostShardsExpectedMap = s.lostShardsExpectedMap) : Paired s' := by
  rw [Paired, hlost, hexpected]
  exact h

theorem Paired.sweep (h : Paired s) (hfix : cfg.nadaFix = true) (order : IterOrder) (now : Nat) :
    Paired (s.sweepExpiredDeadlines cfg order now) := by
  refine List.foldlRecOn (motive := Paired) _ _ h fun s h sid _ => ?_
  unfold StreamSocket.sweepStream
  split
  · exact h
  · simp only [StreamSocket.recordLost, hfix, if_true, Paired]
    exact h.insertAll fun x _ => Nat.sub_le _ _

theorem Paired.fileShard (h : Paired s) (st : RecvState) (c : StreamRecvComponents)
    (p : InProgressPacket) : Paired (fileShard st c p s) := by
  unfold Stream.fileShard StreamSocket.completePacket
  dsimp only
  split
  · split <;> exact h.congr rfl rfl
  · exact h.congr rfl rfl

theorem Paired.noteVideoShard (h : Paired s) (now : Nat) (header : ShardHeader) :
    Paired (s.noteVideoShard now header) := by
  refine h.congr (noteVideoShard_frame s now header).2 ?_
  unfold StreamSocket.noteVideoShard
  dsimp only
  split <;> split <;> (try split) <;> rfl

theorem Paired.recvShard (h : Paired s) (hfix : cfg.nadaFix = true) {now : Nat}
    {order : IterOrder} {st : RecvState} {r r' : BufferedReceiver}
    {d : Except ConnectionError Unit}
    (hs' : s.recvShard cfg now order st r = some (d, s', r')) : Paired s' := by
  unfold StreamSocket.recvShard at hs'
  split at hs'
  · cases hs'
    exact h
  · obtain ⟨⟨p, r₁⟩, -, hs'⟩ := Option.map_eq_some_iff.1 hs'
    cases hs'
    exact ((h.fileShard _ _ p).sweep hfix order now).congr rfl rfl

theorem Paired.recv (h : Paired s) (hfix : cfg.nadaFix = true) {now : Nat} {order : IterOrder}
    {r r' : BufferedReceiver} {d : Except ConnectionError Unit}
    (hs' : s.recv cfg now order r = some (d, s', r')) : Paired s' := by
  unfold StreamSocket.recv at hs'
  split at hs'
  · exact h.recvShard hfix hs'
  · split at hs'
    · cases hs'
    · split at hs'
      · cases hs'
        exact h
      · dsimp only at hs'
        split at hs'
        · cases hs'
        · refine Paired.recvShard (Paired.congr ?_ rfl rfl) hfix hs'
          split
          · exact h.noteVideoShard _ _
          · exact h

theorem paired_flushLosses (hfix : cfg.nadaFix = true) (order : Shuffle (UInt32 × Nat))
    (s : Session) : Paired (flushLosses cfg order s).socket := by
  have hempty : (flushLosses cfg order s).socket.lostShardsDeadlineMap = ∅ ∧
      (flushLosses cfg order s).socket.lostShardsExpectedMap = ∅ := by
    simp only [flushLosses, hfix, if_true]
    split <;> exact ⟨rfl, rfl⟩
  rw [Paired, hempty.1, hempty.2]
  exact Table.matched_empty _

theorem Paired.lossesToRecord_le (h : Paired s) (order : Shuffle (UInt32 × Nat)) :
    (s.lossesToRecord order).1 ≤ (s.lossesToRecord order).2 := by
  have hperm := (order.perm (s.lostShardsDeadlineMap.entries.map fun e => (e.1, e.2))).map Prod.snd
  have hlost : (s.lossesToRecord order).1 = (s.lostShardsDeadlineMap.entries.map (·.2)).sum := by
    rw [List.map_map] at hperm
    exact hperm.sum_eq
  rw [hlost]
  refine List.Forall₂.sum_le_sum ?_
  rw [List.forall₂_map_left_iff, List.forall₂_map_right_iff]
  exact h.imp fun e e' he => he.2

end Paired

section Client

variable {cfg : SocketConfig} {c c' : Client}

theorem paired_onPacket (hfix : cfg.nadaFix = true) {packet : MpduPacket × IterOrder}
    (h : Paired c.session.socket) (hc' : c.onPacket cfg packet = some c') :
    Paired c'.session.socket := by
  have hreceive : ∀ {c₁ : Client}, c.receiveShard cfg packet.2 packet.1.dataInner = some c₁ →
      Paired c₁.session.socket := fun hc₁ => by
    obtain ⟨s', hs', rfl⟩ := Option.map_eq_some_iff.1 hc₁
    obtain ⟨⟨d, socket, channel⟩, hrecv, rfl⟩ := Option.map_eq_some_iff.1 hs'
    exact h.recv hfix hrecv
  obtain ⟨c₁, hc₁, rfl⟩ := Option.map_eq_some_iff.1 hc'
  show Paired c₁.session.socket
  cases filedPacket hc₁ with
  | ignored => exact h
  | skipped => exact h
  | video _ hc' => exact hreceive hc'
  | @probe c₂ _ _ hc₂ =>
    show Paired c₂.session.socket
    exact hreceive hc₂

theorem paired_videoReceiveThread (hfix : cfg.nadaFix = true) {order : Shuffle (UInt32 × Nat)}
    (h : Paired c.session.socket) (hc' : c.videoReceiveThread cfg order = some c') :
    Paired c'.session.socket := by
  cases videoRead hc' with
  | outOfSession => exact h
  | unsubscribed => exact paired_flushLosses hfix order c.session
  | nothing => exact paired_flushLosses hfix order c.session
  | frame _ _ _ hc' =>
    obtain ⟨nal, -, rfl⟩ := Option.map_eq_some_iff.1 hc'
    exact paired_flushLosses hfix order c.session

/-- The loss tables of a client correspond at any time. -/
theorem paired_step (hfix : cfg.nadaFix = true) {e : ClientEvent} (h : Paired c.session.socket)
    (hc' : c.step cfg e = some c') : Paired c'.session.socket := by
  -- Filing and sweeping enter a frame in both tables; a flush, by a read or `vsync`, empties both.
  cases e with
  | network now packets =>
    obtain ⟨a, -, hc'⟩ := Option.bind_eq_some_iff.1 hc'
    have h₀ : Paired ({ c with agenda := a } : Client).session.socket := h
    exact Run.state_invariant (P := fun c : Client => Paired c.session.socket) h₀
      (fun _ _ _ hp _ hs => paired_onPacket hfix hp hs) (.of_runs (allOk_true _ _ _) hc')
  | videoReceiveThread now order =>
    obtain ⟨a, -, hc'⟩ := Option.bind_eq_some_iff.1 hc'
    exact paired_videoReceiveThread (c := { c with agenda := a }) hfix h hc'
  | bwProbeReceiveThread now =>
    obtain ⟨a, -, hc'⟩ := Option.bind_eq_some_iff.1 hc'
    obtain rfl | ⟨reader, s', hs', rfl⟩ := bwProbeRead hc'
    · exact h
    · obtain rfl | ⟨comps, comps', d, reader', -, -, rfl⟩ := read_cases hs'
      · exact h
      · exact h
  | vsync now order flushOrder =>
    obtain ⟨a, -, rfl⟩ := Option.map_eq_some_iff.1 hc'
    obtain ⟨queue, ready, heq⟩ := vsync_eq cfg order flushOrder { c with agenda := a }
    rw [heq]
    exact paired_flushLosses hfix flushOrder _

theorem lossesRecorded_le (hfix : cfg.nadaFix = true) {e : ClientEvent}
    (h : Paired c.session.socket) : ∀ x ∈ c.lossesRecorded cfg e, x.1 ≤ x.2 := by
  intro x hx
  unfold Client.lossesRecorded at hx
  split at hx
  · split at hx
    · cases hx
      exact h.lossesToRecord_le _
    · cases hx
  · rw [if_pos hfix] at hx
    cases hx
    exact (h.sweep hfix _ _).lossesToRecord_le _
  · cases hx

end Client

/-! ## The counters of the receiver -/

/-- The receiver and the observer agree on the interval. -/
structure Agrees (n : NadaReceiver) (i : ReportInterval) : Prop where
  frames : n.ivFrames = i.frames
  records : n.ivLosses = i.records
  lost : n.totalPacketsLost = i.lost
  expected : i.frames = 0 → n.totalNumPackets = i.expected
  silent : i.records = 0 → i.lost = 0 ∧ i.expected = 0
  seen : n.seenFrame = i.lastShards.isSome
  shards : ∀ k ∈ i.lastShards, n.lastShards = k
  start : n.tLast = i.start
  lost_le : n.totalPacketsLost ≤ n.totalNumPackets
  ratio : 0 ≤ n.pLoss ∧ n.pLoss < 1

section Agrees

variable {n n' : NadaReceiver} {i : ReportInterval} {nowUs : Int} {fps : ℚ}

theorem nadaAfter_counters (n : NadaReceiver) (nowUs : Int) (losses : Option (Nat × Nat))
    (frame : Option ReceiverData) (owdUs : Option Int) :
    let n' := nadaAfter n nowUs losses frame owdUs
    n'.ivFrames = n.ivFrames + frame.toList.length ∧
    n'.ivLosses = n.ivLosses + losses.toList.length ∧
    n'.totalPacketsLost = n.totalPacketsLost + (losses.map (·.1)).getD 0 ∧
    n'.totalNumPackets = n.totalNumPackets + (losses.map (·.2)).getD 0 +
      (frame.map (·.shardsInFrame)).getD 0 ∧
    n'.seenFrame = (frame.isSome || n.seenFrame) ∧
    n'.lastShards = (frame.map (·.shardsInFrame)).getD n.lastShards ∧
    n'.tLast = n.tLast ∧ n'.pLoss = n.pLoss := by
  rcases losses with _ | ⟨lost, expected⟩ <;> rcases frame with _ | data <;>
    rcases owdUs with _ | owd <;> exact ⟨rfl, rfl, rfl, rfl, rfl, rfl, rfl, rfl⟩

/-- An event of the client. -/
theorem Agrees.after (h : Agrees n i) {losses : Option (Nat × Nat)}
    (hle : ∀ x ∈ losses, x.1 ≤ x.2) (frame : Option ReceiverData) (owdUs : Option Int) :
    Agrees (nadaAfter n nowUs losses frame owdUs) (i.after losses frame) := by
  obtain ⟨hframes, hrecords, hlost, hnum, hseen, hshards, hlast, hloss⟩ :=
    nadaAfter_counters n nowUs losses frame owdUs
  refine ⟨?_, ?_, ?_, fun hnone => ?_, fun hnone => ?_, ?_, ?_, ?_, ?_, ?_⟩
  · rw [hframes, h.frames]
    rfl
  · rw [hrecords, h.records]
    rfl
  · rw [hlost, h.lost]
    rfl
  · -- no frame before and none now
    obtain ⟨hbefore, hframe⟩ := Nat.add_eq_zero_iff.1 hnone
    obtain rfl : frame = none := by simpa using hframe
    rw [hnum, h.expected hbefore]
    rfl
  · obtain ⟨hbefore, hlosses⟩ := Nat.add_eq_zero_iff.1 hnone
    obtain rfl : losses = none := by simpa using hlosses
    exact h.silent hbefore
  · rw [hseen, h.seen]
    cases frame <;> simp [ReportInterval.after]
  · intro k hk
    rw [hshards]
    cases frame with
    | none => exact h.shards k (by simpa [ReportInterval.after] using hk)
    | some data => simpa [ReportInterval.after] using hk
  · exact hlast.trans h.start
  · have := h.lost_le
    rw [hlost, hnum]
    cases losses with
    | none =>
      simp only [Option.map_none, Option.getD_none]
      omega
    | some x =>
      have := hle x rfl
      simp only [Option.map_some, Option.getD_some]
      omega
  · rw [hloss]
    exact h.ratio

theorem countStall_lost_le (h : n.totalPacketsLost ≤ n.totalNumPackets) :
    (n.countStall nowUs fps).totalPacketsLost ≤ (n.countStall nowUs fps).totalNumPackets := by
  unfold NadaReceiver.countStall
  dsimp only
  split
  · split
    · exact Nat.add_le_add_right h _
    · exact h
  · exact h

theorem Agrees.report (h : Agrees n i) (hreported : n.Reported n' nowUs fps) :
    Agrees n' { i with start := nowUs, frames := 0, records := 0, lost := 0, expected := 0 } where
  frames := hreported.interval.1
  records := hreported.interval.2
  lost := hreported.totals.1
  expected _ := hreported.totals.2
  silent _ := ⟨rfl, rfl⟩
  seen := hreported.frame.1.trans h.seen
  shards k hk := hreported.frame.2.trans (h.shards k hk)
  start := hreported.tLast
  lost_le := by rw [hreported.totals.1, hreported.totals.2]
  ratio := by
    rw [hreported.pLoss]
    exact smoothLoss_mem ⟨lossRatio_nonneg _ _, lossRatio_le_one (countStall_lost_le h.lost_le)⟩
      h.ratio

end Agrees

/-! ## The rule -/

section Rule

variable {n : NadaReceiver} {i : ReportInterval} (nowUs : Int) (fps : ℚ)

theorem countStall_of_unrecorded (h : Agrees n i) (hstalled : i.Stalled) (hnone : i.records = 0) :
    (n.countStall nowUs fps).totalPacketsLost = i.shardsDue nowUs fps ∧
    (n.countStall nowUs fps).totalNumPackets = i.expected + i.shardsDue nowUs fps := by
  obtain ⟨hframes, hlost, hseen⟩ := hstalled
  obtain ⟨k, hk⟩ := Option.isSome_iff_exists.1 hseen
  have hactive : n.ivFrames = 0 ∧ n.ivLosses = 0 ∧ n.seenFrame = true :=
    ⟨h.frames.trans hframes, h.records.trans hnone, h.seen.trans hseen⟩
  rw [NadaReceiver.countStall, if_pos hactive, ReportInterval.shardsDue, h.start,
    h.shards k hk, hk, Option.getD_some]
  dsimp only
  split
  · exact ⟨by rw [h.lost, hlost, zero_add], by rw [h.expected hframes]⟩
  · rename_i hdue
    rw [Nat.eq_zero_of_not_pos hdue, zero_mul]
    exact ⟨h.lost.trans hlost, h.expected hframes⟩

theorem countStall_of_recorded (h : Agrees n i) (hsome : i.records ≠ 0) :
    n.countStall nowUs fps = n :=
  if_neg fun hactive => hsome (h.records.symm.trans hactive.2.1)

theorem lossRatio_zero (numPackets : Nat) : lossRatio 0 numPackets = 0 := by
  simp [lossRatio]

theorem lossRatio_add_eq_zero {due expected : Nat} :
    lossRatio due (expected + due) = 0 ↔ due = 0 := by
  constructor
  · intro h
    by_contra hdue
    have hpos : 0 < expected + due := by omega
    rw [lossRatio, if_pos hpos, div_eq_zero_iff] at h
    have hnum : ((expected + due : Nat) : ℚ) ≠ 0 := Nat.cast_ne_zero.2 hpos.ne'
    exact h.elim (Nat.cast_ne_zero.2 hdue) hnum
  · rintro rfl
    exact lossRatio_zero _

theorem lossRatio_self {due : Nat} (h : 0 < due) : lossRatio due due = 1 := by
  rw [lossRatio, if_pos h, div_self (Nat.cast_ne_zero.2 h.ne')]

theorem smoothLoss_inj {p q pLoss : ℚ} : smoothLoss p pLoss = smoothLoss q pLoss ↔ p = q := by
  unfold smoothLoss nadaParamAlpha
  constructor
  · intro h
    linarith
  · rintro rfl
    rfl

/-- **The stall rule**: it works if nothing has been recorded in the interval, or if there is
nothing to count. -/
theorem NadaClient.stallCounted_of_agrees {s : NadaClient} (h : Agrees s.nada s.interval) :
    s.StallCounted nowUs fps ↔ s.Unrecorded nowUs fps := by
  unfold NadaClient.StallCounted NadaClient.Unrecorded
  refine forall₂_congr fun hdue hstalled => ?_
  obtain ⟨r, n', hreport, hplr, hreported⟩ := NadaReceiver.timerReport_of_due fps hdue
  dsimp only
  set due := s.interval.shardsDue nowUs fps with hdef
  rw [hreport, Option.map_some, Option.some.injEq, hplr, hreported.pLoss]
  by_cases hnone : s.interval.records = 0
  · obtain ⟨hlost, hnum⟩ := countStall_of_unrecorded nowUs fps h hstalled hnone
    refine iff_of_true ⟨by rw [hlost, hnum], fun hpos hexpected r' hr' => ?_⟩ (.inl hnone)
    cases hr'
    rw [hplr, hreported.pLoss, hlost, hnum, hexpected, zero_add, lossRatio_self hpos]
    exact lt_smoothLoss_one h.ratio.2
  · rw [countStall_of_recorded nowUs fps h hnone, h.lost, hstalled.2.1, lossRatio_zero,
      smoothLoss_inj]
    refine ⟨fun hcounted => .inr (lossRatio_add_eq_zero.1 hcounted.1.symm), fun hor => ?_⟩
    have hzero : due = 0 := hor.resolve_left hnone
    refine ⟨(lossRatio_add_eq_zero.2 hzero).symm, fun hpos => ?_⟩
    exact absurd hzero hpos.ne'

end Rule

/-! ## Whole runs -/

/-- The invariant of a client with its receiver. -/
structure Consistent (s : NadaClient) : Prop where
  agrees : Agrees s.nada s.interval
  paired : Paired s.client.session.socket

theorem Consistent.step {cfg : SocketConfig} (hfix : cfg.nadaFix = true) {fps : ℚ}
    {s s' : NadaClient} {e : NadaEvent} (h : Consistent s) (hs' : s.step cfg fps e = some s') :
    Consistent s' := by
  cases e with
  | client e owdUs =>
    obtain ⟨c, hc, rfl⟩ := Option.map_eq_some_iff.1 hs'
    exact ⟨h.agrees.after (lossesRecorded_le hfix h.paired) _ owdUs, paired_step hfix h.paired hc⟩
  | generateTrackingData now =>
    obtain ⟨a, -, rfl⟩ := Option.map_eq_some_iff.1 hs'
    refine ⟨?_, h.paired⟩
    by_cases hdue : s.nada.ReportDue (micros now)
    · obtain ⟨r, n', hreport, -, hreported⟩ := NadaReceiver.timerReport_of_due fps hdue
      simp only [hreport, Option.isSome_some, if_true]
      exact h.agrees.report hreported
    · simp only [NadaReceiver.timerReport_of_not_due fps hdue, Option.isSome_none, if_neg,
        Bool.false_eq_true, not_false_eq_true]
      exact h.agrees

theorem consistent_start (agenda : Agenda Task) : Consistent (.start agenda) := by
  refine ⟨⟨rfl, rfl, rfl, fun _ => rfl, fun _ => ⟨rfl, rfl⟩, rfl, fun k hk => ?_, rfl, le_rfl,
    le_rfl, zero_lt_one⟩, ?_⟩
  · cases hk
  · obtain ⟨-, hlost, -⟩ := fresh_start [video, audio, haptics] maxUnreadPackets
    have hexpected : (Session.start [video, audio, haptics]
        maxUnreadPackets).socket.lostShardsExpectedMap = ∅ :=
      foldl_view (f := fun s id => StreamSocket.subscribeToStream s id maxUnreadPackets)
        (·.lostShardsExpectedMap) (fun _ _ => rfl) [video, audio, haptics] .build
    show Paired (Session.start [video, audio, haptics] maxUnreadPackets).socket
    rw [Paired, hlost, hexpected]
    exact Table.matched_empty _

/-- **When a stall is counted**: in every state that a client with NADA at level 2 reaches, a
report at any time counts a stall that is due if and only if no read of the video stream and
no `vsync` has recorded losses since the last report, or no shards are due. -/
theorem stall_counted_iff {cfg : SocketConfig} (hfix : cfg.nadaFix = true) (fps : ℚ)
    (agenda : Agenda Task) {es : List NadaEvent} {s : NadaClient}
    (h : Run (NadaClient.step cfg fps) (fun _ _ => True) (.start agenda) es s) (nowUs : Int) :
    s.StallCounted nowUs fps ↔ s.Unrecorded nowUs fps :=
  NadaClient.stallCounted_of_agrees nowUs fps (Run.state_invariant (P := Consistent)
    (consistent_start agenda) (fun _ _ _ hp _ hs => hp.step hfix hs) h).agrees

/-- The client of the examples, with the level of NADA. -/
def nadaSocket : SocketConfig := { clientSocket with nadaFix := true }

/-- A frame of two shards is completed and reported, at 110 ms. -/
def firstFrame : List NadaEvent :=
  [.client (.network 5 [clientBroadcast.packet 0 0, clientBroadcast.packet 0 1]) none] ++
  List.replicate 2 (.client (.videoReceiveThread 15 .id) (some 10)) ++
  [.generateTrackingData 110000000]

/-- With no event at all until 220 ms, the nine frames due at 90 Hz are counted. -/
theorem stall_counted_without_events : ∃ s,
    Run (NadaClient.step nadaSocket 90) (fun _ _ => True) (.start ⟨0, []⟩) firstFrame s ∧
    s.nada.ReportDue 220000 ∧ s.interval.Stalled ∧ s.interval.shardsDue 220000 90 = 18 ∧
    s.StallCounted 220000 90 := by
  have hruns : (runs (NadaClient.step nadaSocket 90) (.start ⟨0, []⟩) firstFrame).map
      (fun s => (s.interval, decide (s.nada.ReportDue 220000))) =
        some (⟨110000, 0, 0, 0, 0, some 2⟩, true) := by
    decide +kernel
  obtain ⟨s, hrun, hview⟩ := exists_run_of_map hruns
  obtain ⟨hinterval, hdue⟩ := Prod.mk.inj hview
  refine ⟨s, hrun, of_decide_eq_true hdue, ?_, ?_, ?_⟩
  · rw [hinterval]
    decide
  · rw [hinterval]
    decide +kernel
  · refine (stall_counted_iff rfl 90 ⟨0, []⟩ hrun 220000).2 fun _ _ => .inl ?_
    rw [hinterval]

/-- The same with a `vsync` in between. -/
def vsyncInStall : List NadaEvent := firstFrame ++ [.client (.vsync 120000000 .id .id) none]

/-- **A single `vsync` hides a stall**: it finds no loss, and at 220 ms the report says that
nothing was lost, although nine frames were due and none has come. -/
theorem stall_not_counted : ∃ s,
    Run (NadaClient.step nadaSocket 90) (fun _ _ => True) (.start ⟨0, []⟩) vsyncInStall s ∧
    s.nada.ReportDue 220000 ∧ s.interval.Stalled ∧ s.interval.shardsDue 220000 90 = 18 ∧
    (s.nada.timerReport 220000 90).1.map (·.plr) = some 0 ∧ ¬ s.StallCounted 220000 90 := by
  have hruns : (runs (NadaClient.step nadaSocket 90) (.start ⟨0, []⟩) vsyncInStall).map
      (fun s => (s.interval, decide (s.nada.ReportDue 220000),
        (s.nada.timerReport 220000 90).1.map (·.plr), decide (s.StallCounted 220000 90))) =
        some (⟨110000, 0, 1, 0, 0, some 2⟩, true, some 0, false) := by
    decide +kernel
  obtain ⟨s, hrun, hview⟩ := exists_run_of_map hruns
  simp only [Prod.mk.injEq, decide_eq_true_eq, decide_eq_false_iff_not] at hview
  obtain ⟨hinterval, hdue, hplr, hcounted⟩ := hview
  refine ⟨s, hrun, hdue, ?_, ?_, hplr, hcounted⟩
  · rw [hinterval]
    decide
  · rw [hinterval]
    decide +kernel

end SiestaVR.Stream
