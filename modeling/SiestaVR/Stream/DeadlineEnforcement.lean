import SiestaVR.Stream.LossReporting

/-!
# Enforcement of the client deadline

A video frame has a deadline, counted from when it was generated. `recv` looks at
deadlines in the sweep at its end, when the shard it has read is filed and a complete
packet handed on. So a shard that comes too late still completes its frame if it is the
last one missing and no sweep has come in between, and a frame of a single shard is
handed on whenever it comes.

`delivery_in_time_iff` says that this is all that goes wrong: the frames of a run are
handed on in time exactly when no shard at or after the deadline of its frame is the
last one missing.
-/

namespace SiestaVR.Stream

open Lib

namespace Broadcast

variable {cfg : SocketConfig} (B : Broadcast cfg)

/-- The deadline of a frame: its generation time and the configured delay. -/
def frameDeadline (f : UInt32) : Option Nat :=
  (cfg.genInstant (B.stamp f)).map (· + cfg.deadline)

/-- What can arrive: video shards that were sent, and well-formed shards of other streams
subscribed to. -/
def Arrives (s : Session) : Event → Prop
  | .shard message _ _ =>
    (headerOf message).streamId ∈ s.socket.streamRecvComponents ∧
    ((headerOf message).streamId = video →
      ∃ k < B.expected (headerOf message).packetIndex,
        message = B.shard (headerOf message).packetIndex k) ∧
    ((headerOf message).streamId ≠ video → WellFormed message)
  | _ => True

instance (s : Session) : ∀ e, Decidable (B.Arrives s e)
  | .shard _ _ _ => inferInstanceAs (Decidable (_ ∧ _ ∧ _))
  | .sweep _ _ => inferInstanceAs (Decidable True)
  | .flush _ => inferInstanceAs (Decidable True)
  | .read _ _ => inferInstanceAs (Decidable True)

end Broadcast

/-- When the event brings a shard. -/
def Event.shardTime : Event → Option Nat
  | .shard _ now _ => some now
  | _ => none

/-- The video packets handed to the application between two states of a session. -/
def deliveredBetween (s s' : Session) : List ReconstructedPacket :=
  (sentOf s'.socket video).drop (sentOf s.socket video).length

/-- The distinct shards a video frame in progress has received. -/
def receivedOf (s : StreamSocket) (f : UInt32) : Finset Nat :=
  (entryOf s video f).elim ∅ (·.receivedShardIndices)

namespace Broadcast

variable {cfg : SocketConfig} (B : Broadcast cfg)

/-- Every video frame the event hands to the application is complete strictly before its
deadline: the shard that completes it arrives before. -/
def DeliversInTime (s : Session) (e : Event) : Prop :=
  ∀ s' ∈ step cfg s e, ∀ r ∈ deliveredBetween s s',
    ∃ now ∈ e.shardTime, ∀ d ∈ B.frameDeadline r.index, now < d

instance (s : Session) (e : Event) : Decidable (B.DeliversInTime s e) :=
  inferInstanceAs (Decidable (∀ s' ∈ step cfg s e, ∀ r ∈ deliveredBetween s s',
    ∃ now ∈ e.shardTime, ∀ d ∈ B.frameDeadline r.index, now < d))

/-- The event is a video shard at or after the deadline of its frame, and the only one
that its frame still misses. -/
def LateLast (s : Session) : Event → Prop
  | .shard message now _ =>
    (headerOf message).streamId = video ∧
    (∃ d ∈ B.frameDeadline (headerOf message).packetIndex, d ≤ now) ∧
    insert (headerOf message).shardIndex
      (receivedOf s.socket (headerOf message).packetIndex) =
        Finset.range (B.expected (headerOf message).packetIndex)
  | _ => False

end Broadcast

/-! ## One event -/

/-- A packet in progress holds shards of its frame. -/
def WithinFrame {cfg : SocketConfig} (B : Broadcast cfg) (s : StreamSocket) : Prop :=
  ∀ f p, entryOf s video f = some p → p.receivedShardIndices ⊆ Finset.range (B.expected f)

variable {cfg : SocketConfig} {B : Broadcast cfg}

theorem WithinFrame.receivedOf_subset {s : StreamSocket}
    (h : WithinFrame B s) (f : UInt32) : receivedOf s f ⊆ Finset.range (B.expected f) := by
  unfold receivedOf
  cases hp : entryOf s video f with
  | none => exact Finset.empty_subset _
  | some p => exact h f p hp

theorem Broadcast.Arrives.wellFormed {s : Session} {message : Bytes} {now : Nat} {order : IterOrder}
    (h : B.Arrives s (.shard message now order)) : WellFormed message := by
  obtain ⟨-, hvideo, hforeign⟩ := h
  by_cases hsid : (headerOf message).streamId = video
  · obtain ⟨k, hk, hmsg⟩ := hvideo hsid
    exact (congrArg WellFormed hmsg).mpr ((B.shardable _).wellFormed_shard _ hk)
  · exact hforeign hsid

section Filed

variable {cfg : SocketConfig} {B : Broadcast cfg} {now : Nat} {order : IterOrder} {message : Bytes}
  {s filed : StreamSocket} {p : InProgressPacket} {r : ReconstructedPacket}

/-- The packet a video shard is filed in has received what its frame had. -/
theorem Filed.received_eq (hfiled : Filed cfg now order message s filed p r)
    (hsid : (headerOf message).streamId = video) :
    p.receivedShardIndices = receivedOf s (headerOf message).packetIndex := by
  have hopened := hfiled.opened
  rw [hsid] at hopened
  rcases hopened with hp | ⟨hnone, buffer, rfl⟩
  · rw [receivedOf, hp]
    rfl
  · rw [receivedOf, hnone]
    rfl

/-- A video shard completes its frame if it is the only one the frame misses. -/
theorem completes_iff (h : WithinFrame B s) (hfiled : Filed cfg now order message s filed p r)
    (hsid : (headerOf message).streamId = video)
    (hsent : ∃ k < B.expected (headerOf message).packetIndex,
      message = B.shard (headerOf message).packetIndex k) :
    Completes cfg message p ↔
      insert (headerOf message).shardIndex (receivedOf s (headerOf message).packetIndex) =
        Finset.range (B.expected (headerOf message).packetIndex) := by
  obtain ⟨k, hk, hmsg⟩ := hsent
  obtain ⟨-, -, hcount, hindex, -⟩ := B.headerOf_shard hk
  rw [← hmsg] at hcount hindex
  have hsub : insert k (receivedOf s (headerOf message).packetIndex) ⊆
      Finset.range (B.expected (headerOf message).packetIndex) :=
    Finset.insert_subset (Finset.mem_range.2 hk) (h.receivedOf_subset _)
  rw [Completes, InProgressPacket.place, hcount, hfiled.received_eq hsid, hindex]
  constructor
  · intro hcard
    refine Finset.eq_of_subset_of_card_le hsub ?_
    rw [Finset.card_range]
    exact hcard.ge
  · intro heq
    show (insert k (receivedOf s (headerOf message).packetIndex)).card = _
    rw [heq, Finset.card_range]

theorem WithinFrame.file (h : WithinFrame B s) (hfiled : Filed cfg now order message s filed p r)
    (hsent : (headerOf message).streamId = video →
      ∃ k < B.expected (headerOf message).packetIndex,
        message = B.shard (headerOf message).packetIndex k) : WithinFrame B filed := by
  intro f q hq
  by_cases hmine : video = (headerOf message).streamId ∧ f = (headerOf message).packetIndex
  · obtain ⟨hsid, rfl⟩ := hmine
    rw [hsid, hfiled.own] at hq
    split at hq
    · cases hq
    · cases hq
      obtain ⟨k, hk, hmsg⟩ := hsent hsid.symm
      have hindex := (B.headerOf_shard hk).2.2.2.1
      rw [← hmsg] at hindex
      show insert (headerOf message).shardIndex p.receivedShardIndices ⊆ _
      rw [hindex, hfiled.received_eq hsid.symm]
      exact Finset.insert_subset (Finset.mem_range.2 hk) (h.receivedOf_subset _)
  · rw [hfiled.others video f hmine] at hq
    split at hq
    · cases hq
    · exact h f q hq

end Filed

theorem WithinFrame.swept {now : Nat}
    {s s' : StreamSocket} (h : WithinFrame B s) (hswept : Swept now s s') : WithinFrame B s' := by
  intro f p hp
  rw [hswept.entry] at hp
  exact h f p (Option.filter_eq_some_iff.1 hp).1

/-- Every event keeps the session idle and its packets within their frames. -/
theorem withinFrame_step {s s' : Session} {e : Event}
    (h : s.Idle ∧ WithinFrame B s.socket) (hok : B.Arrives s e) (hs : step cfg s e = some s') :
    s'.Idle ∧ WithinFrame B s'.socket := by
  obtain ⟨hidle, hwithin⟩ := h
  cases e with
  | shard message now order =>
    obtain ⟨s₁, filed, p, r, hstep, hfiled, hswept, hidle', -⟩ :=
      step_shard cfg hidle hok.wellFormed hok.1 now order
    rw [hs] at hstep
    cases hstep
    -- Shards are filed within their frame, and a sweep only removes packets.
    exact ⟨hidle', (hwithin.file hfiled hok.2.1).swept hswept⟩
  | sweep now order =>
    cases hs
    have hswept := swept_sweepExpiredDeadlines cfg order now s.socket
    exact ⟨⟨hswept.reading.trans hidle.reading, hidle.channel⟩, hwithin.swept hswept⟩
  | flush order =>
    cases hs
    have hsame := samePackets_flush cfg order s
    exact ⟨hsame.idle hidle, fun f p hp => hwithin f p ((hsame.entry video f).symm.trans hp)⟩
  | read streamId reader =>
    obtain ⟨hsame, -⟩ := step_read hs
    exact ⟨hsame.idle hidle, fun f p hp => hwithin f p ((hsame.entry video f).symm.trans hp)⟩

/-- Nothing is handed on by an event that leaves the packets handed on as they are. -/
theorem deliveredBetween_of_sent_eq {s s' : Session}
    (h : sentOf s'.socket video = sentOf s.socket video) : deliveredBetween s s' = [] := by
  rw [deliveredBetween, h, List.drop_length]

section Step

variable {cfg : SocketConfig} {B : Broadcast cfg} {s s' : Session} {e : Event}

theorem deliversInTime_of_sent_eq
    (h : ∀ s' ∈ step cfg s e, sentOf s'.socket video = sentOf s.socket video) :
    B.DeliversInTime s e := by
  intro s' hs' r hr
  rw [deliveredBetween_of_sent_eq (h s' hs')] at hr
  exact absurd hr List.not_mem_nil

/-- A shard that completes a frame hands it on in time if it comes before the deadline. -/
theorem deliversInTime_shard_iff {message : Bytes} {now : Nat} {order : IterOrder}
    {r : ReconstructedPacket} (hstep : step cfg s (.shard message now order) = some s')
    (hsent : sentOf s'.socket video = sentOf s.socket video ++ [r]) :
    B.DeliversInTime s (.shard message now order) ↔ ∀ d ∈ B.frameDeadline r.index, now < d := by
  have hdelivered : deliveredBetween s s' = [r] := by
    rw [deliveredBetween, hsent, List.drop_left]
  constructor
  · intro hin
    obtain ⟨_, htime, hlt⟩ := hin s' hstep r (hdelivered ▸ List.mem_cons_self)
    cases htime
    exact hlt
  · intro hlt s₁ hs₁ r' hr'
    rw [hstep] at hs₁
    cases hs₁
    rw [hdelivered, List.mem_singleton] at hr'
    exact ⟨now, rfl, hr' ▸ hlt⟩

/-- **Step**: an event hands its frame on in time, unless it is a late shard that
completes it. -/
theorem deliversInTime_iff (h : s.Idle ∧ WithinFrame B s.socket) (hok : B.Arrives s e) :
    B.DeliversInTime s e ↔ ¬ B.LateLast s e := by
  obtain ⟨hidle, hwithin⟩ := h
  cases e with
  | shard message now order =>
    obtain ⟨s', filed, p, r, hstep, hfiled, hswept, -⟩ :=
      step_shard cfg hidle hok.wellFormed hok.1 now order
    have hsent : sentOf s'.socket video = sentOf s.socket video ++
        if video = (headerOf message).streamId ∧ Completes cfg message p then [r] else [] :=
      (hswept.sent video).trans (hfiled.sent video)
    -- Only the shard that completes a frame hands one on, and no later step of `recv` checks it.
    by_cases hdone : video = (headerOf message).streamId ∧ Completes cfg message p
    · rw [if_pos hdone] at hsent
      have hlast := (completes_iff hwithin hfiled hdone.1.symm (hok.2.1 hdone.1.symm)).1 hdone.2
      rw [deliversInTime_shard_iff hstep hsent, hfiled.packet.1]
      constructor
      · rintro hlt ⟨-, ⟨d, hd, hle⟩, -⟩
        exact absurd (hlt d hd) (Nat.not_lt.2 hle)
      · intro hlate d hd
        by_contra hle
        exact hlate ⟨hdone.1.symm, ⟨d, hd, Nat.not_lt.1 hle⟩, hlast⟩
    · rw [if_neg hdone, List.append_nil] at hsent
      refine iff_of_true (deliversInTime_of_sent_eq fun s₁ hs₁ => ?_) ?_
      · rw [hstep] at hs₁
        cases hs₁
        exact hsent
      · rintro ⟨hsid, -, hlast⟩
        exact hdone ⟨hsid.symm, (completes_iff hwithin hfiled hsid (hok.2.1 hsid)).2 hlast⟩
  | sweep now order =>
    refine iff_of_true (deliversInTime_of_sent_eq fun s' hs' => ?_) not_false
    cases hs'
    exact (swept_sweepExpiredDeadlines cfg order now s.socket).sent video
  | flush order =>
    refine iff_of_true (deliversInTime_of_sent_eq fun s' hs' => ?_) not_false
    cases hs'
    exact (samePackets_flush cfg order s).sent video
  | read streamId reader =>
    exact iff_of_true (deliversInTime_of_sent_eq fun s' hs' => (step_read hs').1.sent video)
      not_false

end Step

/-! ## Whole runs -/

/-- **The deadline is enforced exactly when no late shard is the last one missing**: in
every session and for every sequence of shards, sweeps, flushes and reads at any times,
each video frame handed to the application was complete before its deadline if and only
if no shard at or after the deadline of its frame found all the others received. -/
theorem delivery_in_time_iff {cfg : SocketConfig} (B : Broadcast cfg) (streams : List UInt16)
    (n : Nat) {es : List Event}
    (h : allOk (step cfg) B.Arrives (Session.start streams n) es) :
    allOk (step cfg) B.DeliversInTime (Session.start streams n) es ↔
      allOk (step cfg) (fun s e => ¬ B.LateLast s e) (Session.start streams n) es := by
  obtain ⟨hreading, -, hentry, -⟩ := fresh_start streams n
  refine allOk_congr (P := fun s => s.Idle ∧ WithinFrame B s.socket)
    (fun _ _ _ hp hok hs => withinFrame_step hp hok hs)
    (fun _ _ hp hok => deliversInTime_iff hp hok) ⟨⟨hreading, rfl⟩, fun f p hp => ?_⟩ h
  rw [hentry] at hp
  cases hp

/-- The punctual arrivals hand frame 8 on in time, and no shard of them is late. -/
theorem delivery_in_time_small :
    allOk (step smallSocket) smallBroadcast.Arrives (Session.start [video] 5) punctualArrivals ∧
    allOk (step smallSocket) (fun s e => ¬ smallBroadcast.LateLast s e) (Session.start [video] 5)
        punctualArrivals := by
  have h : allOk (step smallSocket) smallBroadcast.Arrives (Session.start [video] 5)
      punctualArrivals := by decide +kernel
  exact ⟨h, (delivery_in_time_iff smallBroadcast [video] 5 h).1 (by decide +kernel)⟩

/-! ## Late frames -/

/-- The last shard of frame 7 comes after its deadline, and no sweep before it. -/
def lateCompletion : List Event :=
  let shard := smallBroadcast.shard 7
  [.shard (shard 0) 5 .id, .shard (shard 1) 6 .id, .shard (shard 2) (deadlinePackets + 1) .id]

/-- **A late frame is handed on**: frame 7 is delivered by a shard that arrives after
its deadline. -/
theorem late_frame_delivered :
    smallBroadcast.frameDeadline 7 = some deadlinePackets ∧
    allOk (step smallSocket) smallBroadcast.Arrives (Session.start [video] 5) lateCompletion ∧
    (runs (step smallSocket) (Session.start [video] 5) lateCompletion).map (fun s =>
        (sentOf s.socket video).map (·.index)) = some [7] ∧
    ¬ allOk (step smallSocket) smallBroadcast.DeliversInTime (Session.start [video] 5)
        lateCompletion := by
  refine ⟨?_, ?_, ?_, ?_⟩ <;> decide +kernel

end SiestaVR.Stream
