import SiestaVR.Lib.Chunks
import SiestaVR.Stream.Reception

/-!
# Sharding followed by reassembly

A packet is sent as shards (`StreamSender.send`) and put together again by the
receiver's `StreamSocket.recv`. Both ends lay the prefix of a shard over the end of
the payload before it. The argument is by position (`Lib.Layout`): the payloads of
the shards are chunks of the packet, a reception writes one chunk and nothing else
(`readShard_eq`), so whatever has been received is in place (`Partial`), and a
packet of which all shards have been received is the one that was sent.

The run theorem follows the packet through every session in which it is not
disturbed (`Undisturbed`): its shards come in any order, with duplicates until it is
complete, among shards of other packets, sweeps, flushes and reads.
-/

namespace SiestaVR.Stream

open Lib

/-- A packet, and a sender and a receiver for it: the ends share the maximum packet
size, which leaves room for data, there is at least one byte of data, and every
shard can be read and numbered. -/
structure Shardable (cfg : SocketConfig) (snd : StreamSender) (buffer : Buffer) : Prop where
  shared : snd.maxPacketSize = cfg.maxPacketSize
  above : shardPrefixSize < cfg.maxPacketSize
  data : shardPrefixSize < buffer.actualSize
  room : buffer.actualSize ≤ buffer.inner.length
  readable : min cfg.maxPacketSize buffer.actualSize ≤ maxPacketSizeRecv
  countable : snd.shardsFor buffer < 2 ^ 32

namespace Shardable

variable {cfg : SocketConfig} {snd : StreamSender} {buffer : Buffer}

/-! ## Shards as chunks -/

/-- The payloads of the shards are chunks of the packet. -/
def layout (h : Shardable cfg snd buffer) : Layout where
  lead := shardPrefixSize
  size := maxShardDataSize cfg.maxPacketSize
  total := buffer.actualSize
  size_pos := Nat.sub_pos_of_lt h.above
  lead_lt := h.data

variable (h : Shardable cfg snd buffer)

theorem count_layout : h.layout.count = snd.shardsFor buffer := by
  rw [StreamSender.shardsFor, h.shared]
  rfl

include h

theorem sender_above : shardPrefixSize < snd.maxPacketSize := h.shared ▸ h.above

variable {k : Nat}

theorem last_layout (hk : k < snd.shardsFor buffer) :
    h.layout.last k = k * maxShardDataSize cfg.maxPacketSize +
      packetLength snd.maxPacketSize buffer.actualSize k := by
  have h₁ := shard_end_le h.sender_above hk
  have h₂ := lt_packetLength h.sender_above hk
  have h₃ : maxShardDataSize cfg.maxPacketSize + shardPrefixSize = cfg.maxPacketSize :=
    Nat.sub_add_cancel h.above.le
  rw [Layout.last]
  show min (k * maxShardDataSize cfg.maxPacketSize +
    (maxShardDataSize cfg.maxPacketSize + shardPrefixSize)) buffer.actualSize = _
  rw [h₃]
  unfold packetLength at *
  rw [h.shared] at *
  omega

variable (stamp : UInt32)

theorem length_shard_le (hk : k < snd.shardsFor buffer) :
    (snd.shard stamp buffer k).length ≤ maxPacketSizeRecv := by
  rw [StreamSender.length_shard stamp h.sender_above h.room hk]
  refine le_trans ?_ h.readable
  unfold packetLength
  rw [h.shared]
  omega

/-- The receiver reads from a shard the prefix that the sender wrote. -/
theorem headerOf_shard (hk : k < snd.shardsFor buffer) :
    headerOf (snd.shard stamp buffer k) = snd.headerFor stamp buffer k := by
  have hlen := StreamSender.length_shard stamp h.sender_above h.room hk
  have hle := h.length_shard_le stamp hk
  have hgt := lt_packetLength h.sender_above hk
  have hfits : (snd.headerFor stamp buffer k).Fits := by
    constructor
    · show 4 ≤ packetLength snd.maxPacketSize buffer.actualSize k
      unfold shardPrefixSize at hgt
      omega
    · show packetLength snd.maxPacketSize buffer.actualSize k < 2 ^ 32
      unfold maxPacketSizeRecv at hle
      omega
    · exact h.countable
    · exact hk.trans h.countable
  have htake : (snd.shard stamp buffer k).take shardPrefixSize =
      (snd.headerFor stamp buffer k).encode ++ [] := by
    rw [List.append_nil, StreamSender.shard,
      List.take_append_of_le_length (ShardHeader.length_encode _).ge,
      List.take_of_length_le (ShardHeader.length_encode _).le]
  rw [headerOf, htake, ShardHeader.decode_encode hfits]

theorem wellFormed_shard (hk : k < snd.shardsFor buffer) :
    WellFormed (snd.shard stamp buffer k) := by
  have hlen := StreamSender.length_shard stamp h.sender_above h.room hk
  constructor
  · rw [hlen]
    exact (lt_packetLength h.sender_above hk).le
  · exact h.length_shard_le stamp hk
  · rw [h.headerOf_shard stamp hk, hlen]
    rfl

theorem drop_shard (hk : k < snd.shardsFor buffer) :
    (snd.shard stamp buffer k).drop shardPrefixSize =
      slice buffer.inner (h.layout.first k) (h.layout.last k - h.layout.first k) := by
  have hlen : h.layout.last k - h.layout.first k =
      packetLength snd.maxPacketSize buffer.actualSize k - shardPrefixSize := by
    rw [h.last_layout hk]
    show _ - (k * maxShardDataSize cfg.maxPacketSize + shardPrefixSize) = _
    omega
  rw [StreamSender.shard, List.drop_append_of_le_length (ShardHeader.length_encode _).ge,
    List.drop_of_length_le (ShardHeader.length_encode _).le, List.nil_append, hlen, h.shared]
  rfl

/-! ## A packet received in part -/

/-- What has been received of the packet is in place. -/
structure Partial (p : InProgressPacket) : Prop where
  known : ∀ k ∈ p.receivedShardIndices, k < snd.shardsFor buffer
  holds : h.layout.Holds p.receivedShardIndices p.buffer buffer.inner
  covered : ∀ k ∈ p.receivedShardIndices, h.layout.last k ≤ p.bufferLength
  bounded : p.bufferLength ≤ buffer.actualSize

variable {stamp}

/-- Nothing has been received of a packet just opened, whatever is in its buffer. -/
theorem partial_fresh (now : Nat) (st : RecvState) (contents : Bytes) :
    h.Partial (.fresh cfg now st contents) where
  known := fun k hk => absurd hk (Finset.notMem_empty k)
  holds := .empty _ _ _
  covered := fun k hk => absurd hk (Finset.notMem_empty k)
  bounded := Nat.zero_le _

variable {h}

/-- **One reception**: placing a shard of the packet keeps what is in place and adds
its chunk. -/
theorem Partial.place {p : InProgressPacket} (hp : h.Partial p)
    (hk : k < snd.shardsFor buffer) : h.Partial (p.place cfg (snd.shard stamp buffer k)) := by
  have hcount : k < h.layout.count := by rwa [h.count_layout]
  have hend : (headerOf (snd.shard stamp buffer k)).shardEnd cfg = h.layout.last k := by
    rw [h.headerOf_shard stamp hk, h.last_layout hk]
    rfl
  have hstart : (headerOf (snd.shard stamp buffer k)).payloadStart cfg = h.layout.first k := by
    rw [h.headerOf_shard stamp hk]
    rfl
  have hindex : (headerOf (snd.shard stamp buffer k)).shardIndex = k := by
    rw [h.headerOf_shard stamp hk]
    rfl
  have hlast : h.layout.last k ≤ buffer.actualSize := h.layout.last_le_total k
  constructor
  · intro j hj
    simp only [InProgressPacket.place, hindex, Finset.mem_insert] at hj
    rcases hj with rfl | hj
    · exact hk
    · exact hp.known j hj
  · simp only [InProgressPacket.place, hindex, hend, hstart, h.drop_shard stamp hk]
    refine (hp.holds.grow h.room _ 0).write hcount h.room ?_
    rw [length_grow]
    omega
  · intro j hj
    simp only [InProgressPacket.place, hindex, hend, Finset.mem_insert] at hj ⊢
    rcases hj with rfl | hj
    · exact Nat.le_max_right _ _
    · exact (hp.covered j hj).trans (Nat.le_max_left _ _)
  · simp only [InProgressPacket.place, hend]
    exact Nat.max_le.2 ⟨hp.bounded, hlast⟩

theorem Partial.subset {p : InProgressPacket} (hp : h.Partial p) :
    p.receivedShardIndices ⊆ Finset.range (snd.shardsFor buffer) := by
  intro k hk
  exact Finset.mem_range.2 (hp.known k hk)

/-- **Completion**: a packet with as many shards as were sent is the packet sent. -/
theorem Partial.complete {p : InProgressPacket} (hp : h.Partial p)
    (hcard : p.receivedShardIndices.card = snd.shardsFor buffer) :
    p.bufferLength = buffer.actualSize ∧
    (p.buffer.take p.bufferLength).drop shardPrefixSize =
      (buffer.inner.take buffer.actualSize).drop shardPrefixSize := by
  have hall : p.receivedShardIndices = Finset.range (snd.shardsFor buffer) :=
    Finset.eq_of_subset_of_card_le hp.subset (by rw [Finset.card_range, hcard])
  have hmem : ∀ k, k < h.layout.count → k ∈ p.receivedShardIndices := by
    intro k hk
    rw [hall, Finset.mem_range, ← h.count_layout]
    exact hk
  have hsize : p.bufferLength = buffer.actualSize := by
    obtain ⟨k, hk, hlast⟩ := h.layout.exists_last_eq_total
    have h₁ := hp.covered k (hmem k hk)
    rw [hlast] at h₁
    exact le_antisymm hp.bounded h₁
  refine ⟨hsize, ?_⟩
  rw [hsize]
  exact hp.holds.full hmem

end Shardable

/-! ## Following a packet through a session -/

/-- The event lets packet `index` of stream `sid`, sent as `shards`, be put together:

- messages belong to streams subscribed to,
- the packet's own messages are its shards, they stop when it is complete, and the
  first one does not come after the deadline,
- the messages of other packets are well-formed shards,
- the packet does not expire, and its buffer is not taken for another packet,
- a read returns. -/
def Undisturbed (cfg : SocketConfig) (shards : List Bytes) (sid : UInt16) (index : UInt32)
    (s : Session) : Event → Prop
  | .shard message now order =>
    (headerOf message).streamId ∈ s.socket.streamRecvComponents ∧
    ((headerOf message).streamId = sid ∧ (headerOf message).packetIndex = index →
      message ∈ shards ∧ (∀ r ∈ sentOf s.socket sid, r.index ≠ index) ∧
      (packetDeadline cfg now
        ⟨headerOf message, StreamSocket.frameDeadline cfg (headerOf message)⟩).all (now < ·)) ∧
    (¬ ((headerOf message).streamId = sid ∧ (headerOf message).packetIndex = index) →
      WellFormed message) ∧
    (entryOf s.socket sid index).all (fun p => !p.expired now) ∧
    ¬ ((headerOf message).streamId = sid ∧
      recycledBy s.socket order (headerOf message) = some index)
  | .sweep now _ => (entryOf s.socket sid index).all fun p => !p.expired now
  | .flush _ => True
  | .read streamId reader =>
    (s.socket.streamRecvComponents.lookup streamId).all fun c => (reader.recv c).isSome

instance (cfg : SocketConfig) (shards : List Bytes) (sid : UInt16) (index : UInt32) (s : Session) :
    ∀ e, Decidable (Undisturbed cfg shards sid index s e)
  | .shard _ _ _ => inferInstanceAs (Decidable (_ ∧ _ ∧ _ ∧ _ ∧ _))
  | .sweep _ _ => inferInstanceAs (Decidable (_ = true))
  | .flush _ => inferInstanceAs (Decidable True)
  | .read _ _ => inferInstanceAs (Decidable (_ = true))

/-- The packets with one index that the application has been handed on a stream. -/
def reconstructed (s : Session) (sid : UInt16) (index : UInt32) : List ReconstructedPacket :=
  (sentOf s.socket sid).filter (·.index = index)

/-- A message has arrived. -/
def Arrived (es : List Event) (message : Bytes) : Prop :=
  ∃ now order, Event.shard message now order ∈ es

theorem arrived_append {es : List Event} {e : Event} {message : Bytes} :
    Arrived (es ++ [e]) message ↔
      Arrived es message ∨ ∃ now order, e = .shard message now order := by
  simp only [Arrived, List.mem_append, List.mem_singleton]
  constructor
  · rintro ⟨now, order, h | h⟩
    · exact .inl ⟨now, order, h⟩
    · exact .inr ⟨now, order, h.symm⟩
  · rintro (⟨now, order, h⟩ | ⟨now, order, h⟩)
    · exact ⟨now, order, .inl h⟩
    · exact ⟨now, order, .inr h.symm⟩

theorem not_arrived_nil (message : Bytes) : ¬ Arrived [] message := by
  rintro ⟨now, order, h⟩
  exact absurd h List.not_mem_nil

namespace Shardable

variable {cfg : SocketConfig} {snd : StreamSender} {buffer : Buffer}
variable (h : Shardable cfg snd buffer) (stamp : UInt32)

/-- The packet handed to the application is the one sent. -/
structure Faithful (buffer : Buffer) (r : ReconstructedPacket) : Prop where
  size : r.size = buffer.actualSize
  bytes : (r.buffer.take r.size).drop shardPrefixSize =
    (buffer.inner.take buffer.actualSize).drop shardPrefixSize

/-- Where the packet stands after some events. -/
inductive Stage (es : List Event) (s : Session) : Prop
  /-- Nothing of it has arrived. -/
  | ahead (none_sent : reconstructed s snd.streamId snd.nextPacketIndex = [])
      (closed : entryOf s.socket snd.streamId snd.nextPacketIndex = none)
      (none_arrived : ∀ k, k < snd.shardsFor buffer → ¬ Arrived es (snd.shard stamp buffer k))
  /-- Some of it has arrived, and all that has is in place. -/
  | underway (p : InProgressPacket)
      (none_sent : reconstructed s snd.streamId snd.nextPacketIndex = [])
      (opened : entryOf s.socket snd.streamId snd.nextPacketIndex = some p)
      (partly : h.Partial p)
      (missing : p.receivedShardIndices.card < snd.shardsFor buffer)
      (filed : ∀ k, k < snd.shardsFor buffer → Arrived es (snd.shard stamp buffer k) →
        k ∈ p.receivedShardIndices)
  /-- It has been handed to the application, once. -/
  | done (r : ReconstructedPacket)
      (once : reconstructed s snd.streamId snd.nextPacketIndex = [r])
      (faithful : Faithful buffer r)

variable {h stamp} {es es' : List Event} {s s' : Session}

/-- An event that changes nothing about the packet leaves it where it stands. -/
theorem Stage.same (hstage : h.Stage stamp es s)
    (hsent : reconstructed s' snd.streamId snd.nextPacketIndex =
      reconstructed s snd.streamId snd.nextPacketIndex)
    (hentry : entryOf s'.socket snd.streamId snd.nextPacketIndex =
      entryOf s.socket snd.streamId snd.nextPacketIndex)
    (harrived : ∀ k, k < snd.shardsFor buffer →
      Arrived es' (snd.shard stamp buffer k) → Arrived es (snd.shard stamp buffer k)) :
    h.Stage stamp es' s' := by
  cases hstage with
  | ahead h₁ h₂ h₃ =>
    exact .ahead (hsent.trans h₁) (hentry.trans h₂) fun k hk harr => h₃ k hk (harrived k hk harr)
  | underway p h₁ h₂ h₃ h₄ h₅ =>
    exact .underway p (hsent.trans h₁) (hentry.trans h₂) h₃ h₄
      fun k hk harr => h₅ k hk (harrived k hk harr)
  | done r h₁ h₂ => exact .done r (hsent.trans h₁) h₂

variable {now : Nat}

theorem entryOf_swept {s s' : StreamSocket} (hswept : Swept now s s') {sid : UInt16}
    {index : UInt32} (halive : (entryOf s sid index).all fun p => !p.expired now) :
    entryOf s' sid index = entryOf s sid index := by
  rw [hswept.entry]
  cases hp : entryOf s sid index with
  | none => rfl
  | some p =>
    rw [hp, Option.all_some] at halive
    simp [Option.filter, halive]

/-- The packet as a shard of it finds it: all that has arrived is in place, and it
has not expired. -/
theorem Stage.find (hstage : h.Stage stamp es s) {k : Nat} (hk : k < snd.shardsFor buffer)
    {order : IterOrder}
    (hok : Undisturbed cfg ((List.range (snd.shardsFor buffer)).map (snd.shard stamp buffer))
      snd.streamId snd.nextPacketIndex s (.shard (snd.shard stamp buffer k) now order))
    {filed : StreamSocket} {p : InProgressPacket} {r : ReconstructedPacket}
    (hfiled : Filed cfg now order (snd.shard stamp buffer k) s.socket filed p r) :
    reconstructed s snd.streamId snd.nextPacketIndex = [] ∧ h.Partial p ∧
    p.expired now = false ∧
    ∀ j, j < snd.shardsFor buffer → Arrived es (snd.shard stamp buffer j) →
      j ∈ p.receivedShardIndices := by
  obtain ⟨-, hown, -, halive, -⟩ := hok
  have hopened := hfiled.opened
  rw [h.headerOf_shard stamp hk] at hown hopened
  obtain ⟨-, hunsent, hintime⟩ := hown ⟨rfl, rfl⟩
  have hnone : reconstructed s snd.streamId snd.nextPacketIndex = [] := by
    rw [reconstructed, List.filter_eq_nil_iff]
    intro r hr
    simpa using hunsent r hr
  refine ⟨hnone, ?_⟩
  have hheader : (snd.headerFor stamp buffer k).streamId = snd.streamId ∧
      (snd.headerFor stamp buffer k).packetIndex = snd.nextPacketIndex := ⟨rfl, rfl⟩
  rw [hheader.1, hheader.2] at hopened
  -- `Undisturbed` has its deadline ahead: for a new packet by its shard, else by the entry.
  cases hstage with
  | ahead _ hclosed harr =>
    rcases hopened with hp | ⟨-, contents, rfl⟩
    · rw [hclosed] at hp
      cases hp
    · refine ⟨h.partial_fresh now _ contents, ?_, fun j hj ha => absurd ha (harr j hj)⟩
      simp only [InProgressPacket.expired, InProgressPacket.fresh]
      cases hd : packetDeadline cfg now ⟨snd.headerFor stamp buffer k,
          StreamSocket.frameDeadline cfg (snd.headerFor stamp buffer k)⟩ with
      | none => rfl
      | some d =>
        rw [hd, Option.all_some, decide_eq_true_iff] at hintime
        simpa using hintime
  | underway q _ hq hpart hmissing hin =>
    rcases hopened with hp | ⟨hp, -⟩
    · rw [hq] at hp
      cases hp
      rw [hq, Option.all_some] at halive
      exact ⟨hpart, by simpa using halive, hin⟩
    · rw [hq] at hp
      cases hp
  | done r' honce _ =>
    rw [hnone] at honce
    cases honce

/-- **A shard of the packet** takes it a stage further: to the application if it was
the last one missing. -/
theorem Stage.own (hstage : h.Stage stamp es s) {k : Nat} (hk : k < snd.shardsFor buffer)
    {order : IterOrder}
    (hok : Undisturbed cfg ((List.range (snd.shardsFor buffer)).map (snd.shard stamp buffer))
      snd.streamId snd.nextPacketIndex s (.shard (snd.shard stamp buffer k) now order))
    {filed : StreamSocket} {p : InProgressPacket} {r : ReconstructedPacket}
    (hfiled : Filed cfg now order (snd.shard stamp buffer k) s.socket filed p r)
    (hswept : Swept now filed s'.socket) :
    h.Stage stamp (es ++ [.shard (snd.shard stamp buffer k) now order]) s' := by
  obtain ⟨hnone, hpart, halive, hin⟩ := hstage.find hk hok hfiled
  have hplaced : h.Partial (p.place cfg (snd.shard stamp buffer k)) := hpart.place hk
  have hheader := h.headerOf_shard stamp hk
  have hown := hfiled.own
  have hsent := (hswept.sent snd.streamId).trans (hfiled.sent snd.streamId)
  obtain ⟨hindex, hbuffer, hsize⟩ := hfiled.packet
  rw [hheader] at hown hsent hindex
  have hcomplete : Completes cfg (snd.shard stamp buffer k) p ↔
      (p.place cfg (snd.shard stamp buffer k)).receivedShardIndices.card =
        snd.shardsFor buffer := by
    rw [Completes, hheader]
    rfl
  by_cases hdone : Completes cfg (snd.shard stamp buffer k) p
  · obtain ⟨h₁, h₂⟩ := hplaced.complete (hcomplete.1 hdone)
    refine .done r ?_ ⟨hsize.trans h₁, ?_⟩
    · rw [reconstructed, hsent, if_pos ⟨rfl, hdone⟩, List.filter_append]
      rw [reconstructed] at hnone
      rw [hnone, List.nil_append, List.filter_singleton]
      rw [show r.index = snd.nextPacketIndex from hindex]
      simp
    · rw [hbuffer, hsize]
      exact h₂
  · have hfiledEntry : entryOf filed snd.streamId snd.nextPacketIndex =
        some (p.place cfg (snd.shard stamp buffer k)) := by
      rw [if_neg hdone] at hown
      exact hown
    refine .underway (p.place cfg (snd.shard stamp buffer k)) ?_ ?_ hplaced ?_ ?_
    · rw [reconstructed, hsent, if_neg fun hc => hdone hc.2, List.append_nil]
      exact hnone
    · rw [entryOf_swept hswept, hfiledEntry]
      rw [hfiledEntry, Option.all_some]
      -- placing a shard does not change the deadline
      show (!p.expired now) = true
      rw [halive]
      rfl
    · have hle := Finset.card_le_card hplaced.subset
      rw [Finset.card_range] at hle
      exact lt_of_le_of_ne hle fun hc => hdone (hcomplete.2 hc)
    · intro j hj harr
      have hself : (headerOf (snd.shard stamp buffer k)).shardIndex = k := by
        rw [hheader]
        rfl
      simp only [InProgressPacket.place, hself, Finset.mem_insert]
      rcases arrived_append.1 harr with harr | ⟨now', order', he⟩
      · exact .inr (hin j hj harr)
      · -- equal messages have equal prefixes, so this is shard `k` itself
        have hmsg : snd.shard stamp buffer k = snd.shard stamp buffer j := by
          injection he
        have hidx := congrArg (fun m => (headerOf m).shardIndex) hmsg
        simp only [h.headerOf_shard stamp hk, h.headerOf_shard stamp hj] at hidx
        exact .inl (Eq.symm hidx)

/-- **A shard of another packet** leaves the packet where it stands. -/
theorem Stage.other (hstage : h.Stage stamp es s) {message : Bytes} {order : IterOrder}
    (hother : ¬ ((headerOf message).streamId = snd.streamId ∧
      (headerOf message).packetIndex = snd.nextPacketIndex))
    (hok : Undisturbed cfg ((List.range (snd.shardsFor buffer)).map (snd.shard stamp buffer))
      snd.streamId snd.nextPacketIndex s (.shard message now order))
    {filed : StreamSocket} {p : InProgressPacket} {r : ReconstructedPacket}
    (hfiled : Filed cfg now order message s.socket filed p r)
    (hswept : Swept now filed s'.socket) :
    h.Stage stamp (es ++ [.shard message now order]) s' := by
  obtain ⟨-, -, -, halive, hkept⟩ := hok
  -- Neither filing nor recycling touches the packet, and its deadline has not passed.
  have hentry : entryOf filed snd.streamId snd.nextPacketIndex =
      entryOf s.socket snd.streamId snd.nextPacketIndex := by
    rw [hfiled.others _ _ fun hc => hother ⟨hc.1.symm, hc.2.symm⟩,
      if_neg fun hc => hkept ⟨hc.1.symm, hc.2⟩]
  refine hstage.same ?_ ?_ ?_
  · rw [reconstructed, hswept.sent, hfiled.sent, List.filter_append, reconstructed]
    by_cases hdone : snd.streamId = (headerOf message).streamId ∧ Completes cfg message p
    · have hindex : r.index ≠ snd.nextPacketIndex := fun hc =>
        hother ⟨hdone.1.symm, hfiled.packet.1.symm.trans hc⟩
      rw [if_pos hdone, List.filter_singleton]
      simp [hindex]
    · rw [if_neg hdone, List.filter_nil, List.append_nil]
  · rw [entryOf_swept hswept (by rw [hentry]; exact halive), hentry]
  · intro k hk harr
    rcases arrived_append.1 harr with harr | ⟨now', order', he⟩
    · exact harr
    · have hmsg : message = snd.shard stamp buffer k := by
        injection he
      rw [hmsg, h.headerOf_shard stamp hk] at hother
      exact absurd ⟨rfl, rfl⟩ hother

theorem arrived_of_append {e : Event} (he : ∀ message now order, e ≠ .shard message now order)
    {message : Bytes} (h : Arrived (es ++ [e]) message) : Arrived es message := by
  rcases arrived_append.1 h with h | ⟨now, order, h⟩
  · exact h
  · exact absurd h (he message now order)

/-- The session is idle and the packet stands somewhere. -/
def Following (h : Shardable cfg snd buffer) (stamp : UInt32) (es : List Event) (s : Session) :
    Prop :=
  s.Idle ∧ h.Stage stamp es s

/-- **Step**: an event that does not disturb the packet is handled, and the packet is
followed. -/
theorem Following.step (hf : h.Following stamp es s) {e : Event}
    (hok : Undisturbed cfg ((List.range (snd.shardsFor buffer)).map (snd.shard stamp buffer))
      snd.streamId snd.nextPacketIndex s e) :
    ∃ s', Stream.step cfg s e = some s' ∧ h.Following stamp (es ++ [e]) s' := by
  obtain ⟨hidle, hstage⟩ := hf
  cases e with
  | shard message now order =>
    by_cases hmine : (headerOf message).streamId = snd.streamId ∧
        (headerOf message).packetIndex = snd.nextPacketIndex
    · obtain ⟨k, hk, rfl⟩ := List.mem_map.1 (hok.2.1 hmine).1
      have hk := List.mem_range.1 hk
      obtain ⟨s', filed, p, r, hstep, hfiled, hswept, hidle', -⟩ :=
        step_shard cfg hidle (h.wellFormed_shard stamp hk) hok.1 now order
      exact ⟨s', hstep, hidle', hstage.own hk hok hfiled hswept⟩
    · obtain ⟨s', filed, p, r, hstep, hfiled, hswept, hidle', -⟩ :=
        step_shard cfg hidle (hok.2.2.1 hmine) hok.1 now order
      exact ⟨s', hstep, hidle', hstage.other hmine hok hfiled hswept⟩
  | sweep now order =>
    have hswept := swept_sweepExpiredDeadlines cfg order now s.socket
    refine ⟨_, rfl, ⟨hswept.reading.trans hidle.reading, hidle.channel⟩, hstage.same ?_ ?_ ?_⟩
    · rw [reconstructed, hswept.sent, reconstructed]
    · exact entryOf_swept hswept hok
    · exact fun k _ => arrived_of_append (fun _ _ _ hc => by cases hc)
  | flush order =>
    have hsame := samePackets_flush cfg order s
    refine ⟨_, rfl, hsame.idle hidle, hstage.same ?_ (hsame.entry _ _) ?_⟩
    · rw [reconstructed, hsame.sent, reconstructed]
    · exact fun k _ => arrived_of_append (fun _ _ _ hc => by cases hc)
  | read streamId reader =>
    -- A read of an undisturbed session does not panic.
    obtain ⟨s', hs'⟩ : ∃ s', Stream.step cfg s (.read streamId reader) = some s' := by
      simp only [Undisturbed] at hok
      simp only [Stream.step]
      cases hc : s.socket.streamRecvComponents.lookup streamId with
      | none => exact ⟨_, rfl⟩
      | some c =>
        rw [hc, Option.all_some] at hok
        obtain ⟨out, hout⟩ := Option.isSome_iff_exists.1 hok
        simp only [hout, Option.map_some]
        exact ⟨_, rfl⟩
    obtain ⟨hsame, -, -⟩ := step_read hs'
    refine ⟨s', hs', hsame.idle hidle, hstage.same ?_ (hsame.entry _ _) ?_⟩
    · rw [reconstructed, hsame.sent, reconstructed]
    · exact fun k _ => arrived_of_append (fun _ _ _ hc => by cases hc)

end Shardable

/-! ## The round trip -/

/-- **Sharding followed by reassembly is the identity.** Let the two ends share a
maximum packet size above the prefix, let the packet have at least one byte of data,
and let its shards be readable and countable. Then `send` returns, and in every
session in which nothing of the packet has arrived before, whatever the order and
the duplicates in which all shards of the packet arrive, and whatever happens in
between without disturbing it, the receiver handles all events and hands exactly one
packet with this index to the application: the one that was sent. -/
theorem send_recv_identity {cfg : SocketConfig} {snd : StreamSender} {buffer : Buffer}
    (h : Shardable cfg snd buffer) (secsF32 : Nat → UInt32) (t : Nat) {s₀ : Session}
    (hidle : s₀.Idle) (hclosed : entryOf s₀.socket snd.streamId snd.nextPacketIndex = none)
    (hunsent : reconstructed s₀ snd.streamId snd.nextPacketIndex = []) :
    ∃ shards snd', snd.send secsF32 buffer t = some (shards, snd') ∧
      ∀ es, allOk (step cfg) (Undisturbed cfg shards snd.streamId snd.nextPacketIndex) s₀ es →
        (∀ message ∈ shards, Arrived es message) →
        ∃ s r, runs (step cfg) s₀ es = some s ∧
          reconstructed s snd.streamId snd.nextPacketIndex = [r] ∧
          r.size = buffer.actualSize ∧
          (r.buffer.take r.size).drop shardPrefixSize =
            (buffer.inner.take buffer.actualSize).drop shardPrefixSize := by
  obtain ⟨snd', hsend⟩ := StreamSender.send_eq secsF32 h.sender_above h.data h.room t
  refine ⟨_, snd', hsend, fun es hok hall => ?_⟩
  have hstart : h.Following (secsF32 (t - snd.refTime)) [] s₀ :=
    ⟨hidle, .ahead hunsent hclosed fun _ _ => not_arrived_nil _⟩
  obtain ⟨s, hruns, -, hstage⟩ := exists_runs hstart (fun _ _ _ hf hok => hf.step hok) hok
  have harrived : ∀ k, k < snd.shardsFor buffer →
      Arrived es (snd.shard (secsF32 (t - snd.refTime)) buffer k) := fun k hk =>
    hall _ (List.mem_map.2 ⟨k, List.mem_range.2 hk, rfl⟩)
  -- with all shards arrived, the packet can only have been handed on
  cases hstage with
  | ahead _ _ hnone =>
    have hcount : 0 < snd.shardsFor buffer := h.count_layout ▸ h.layout.count_pos
    exact absurd (harrived 0 hcount) (hnone 0 hcount)
  | underway p _ _ hpart hmissing hin =>
    have hsub : Finset.range (snd.shardsFor buffer) ⊆ p.receivedShardIndices := by
      intro k hk
      exact hin k (Finset.mem_range.1 hk) (harrived k (Finset.mem_range.1 hk))
    have hcard := Finset.card_le_card hsub
    rw [Finset.card_range] at hcard
    omega
  | done r honce hfaithful => exact ⟨s, r, hruns, honce, hfaithful.size, hfaithful.bytes⟩

/-- Shards of at most three bytes of data, and the default deadline. All frames are
generated at time 0. -/
def smallSocket : SocketConfig where
  maxPacketSize := 25
  deadline := deadlinePackets
  anchorFirst := false
  nadaFix := false
  genInstant := fun _ => some 0

/-- The other end, about to send video frame 7. -/
def smallSender : StreamSender where
  streamId := video
  maxPacketSize := 25
  nextPacketIndex := 7
  usedBuffers := []
  shardsCount := 0
  refTime := 0

/-- A frame of eight bytes: three shards, each of whose prefixes reaches over the
payloads before it. -/
def smallFrame : Buffer := ⟨(List.range 30).map UInt8.ofNat, 22, 8⟩

/-- The frame's shards out of order and with a duplicate, a shard of the next frame
among them. -/
def shuffledArrivals : List Event :=
  let shard := smallSender.shard 0 smallFrame
  [.shard (shard 2) 5 .id,
    .shard ({ smallSender with nextPacketIndex := 8 }.shard 0 smallFrame 0) 6 .id,
    .shard (shard 2) 7 .id, .shard (shard 0) 8 .id, .sweep 9 .id, .flush .id,
    .shard (shard 1) 10 .id, .read video .new]

theorem send_recv_identity_small :
    ∃ s r, runs (step smallSocket) (Session.start [video] 5) shuffledArrivals = some s ∧
      reconstructed s video 7 = [r] ∧ r.size = 30 ∧
      (r.buffer.take r.size).drop shardPrefixSize = [22, 23, 24, 25, 26, 27, 28, 29] := by
  have h : Shardable smallSocket smallSender smallFrame := by
    constructor <;> decide +kernel
  have hidle : (Session.start [video] 5).Idle := ⟨rfl, rfl⟩
  obtain ⟨shards, snd', hsend, hrun⟩ := send_recv_identity h (fun _ => 0) 0 hidle rfl rfl
  have hshards : shards = (List.range 3).map (smallSender.shard 0 smallFrame) := by
    obtain ⟨snd'', hsend'⟩ := StreamSender.send_eq (fun _ => 0) h.sender_above h.data h.room 0
    rw [hsend] at hsend'
    exact congrArg Prod.fst (Option.some.inj hsend')
  subst hshards
  obtain ⟨s, r, hs, honce, hsize, hbytes⟩ := hrun shuffledArrivals (by decide +kernel) (by
    intro message hmem
    obtain ⟨k, hk, rfl⟩ := List.mem_map.1 hmem
    have hcases : k = 0 ∨ k = 1 ∨ k = 2 := by
      have := List.mem_range.1 hk
      omega
    rcases hcases with rfl | rfl | rfl
    · exact ⟨8, .id, by simp [shuffledArrivals]⟩
    · exact ⟨10, .id, by simp [shuffledArrivals]⟩
    · exact ⟨5, .id, by simp [shuffledArrivals]⟩)
  refine ⟨s, r, hs, honce, hsize, hbytes.trans ?_⟩
  decide +kernel

/-! ## A packet size above the limit of the receiver -/

/-- Both ends use shards of up to 20000 bytes. -/
def wideSocket : SocketConfig := { smallSocket with maxPacketSize := 20000 }

/-- The sender of `wideSocket`. -/
def wideSender : StreamSender := { smallSender with maxPacketSize := 20000 }

/-- A frame of 16978 bytes, which is one shard. -/
def wideFrame : Buffer := ⟨List.replicate 17000 0, 22, 16978⟩

/-- The maximum packet size is above the prefix and shared, and the frame has data,
but its only shard is longer than `MAX_PACKET_SIZE_RECV`: receiving it panics, and no
packet is ever put together. -/
theorem wide_shard_not_received :
    wideSender.maxPacketSize = wideSocket.maxPacketSize ∧
    shardPrefixSize < wideSocket.maxPacketSize ∧ shardPrefixSize < wideFrame.actualSize ∧
    wideFrame.actualSize ≤ wideFrame.inner.length ∧
    ∃ shard snd', wideSender.send (fun _ => 0) wideFrame 0 = some ([shard], snd') ∧
      runs (step wideSocket) (Session.start [video] 5) [.shard shard 0 .id] = none := by
  have habove : shardPrefixSize < wideSender.maxPacketSize := by decide
  have hdata : shardPrefixSize < wideFrame.actualSize := by decide
  have hroom : wideFrame.actualSize ≤ wideFrame.inner.length := by
    rw [wideFrame, List.length_replicate]
    decide
  have hone : wideSender.shardsFor wideFrame = 1 := by decide
  obtain ⟨snd', hsend⟩ := StreamSender.send_eq (fun _ => 0) habove hdata hroom 0
  rw [hone] at hsend
  refine ⟨rfl, by decide, hdata, hroom, _, snd', hsend, ?_⟩
  have hlong : maxPacketSizeRecv < (wideSender.shard 0 wideFrame 0).length := by
    rw [StreamSender.length_shard 0 habove hroom (by rw [hone]; exact Nat.one_pos)]
    decide
  have hidle : (Session.start [video] 5).Idle := ⟨rfl, rfl⟩
  rw [runs, step_oversized wideSocket hidle hlong 0 .id, Option.bind_none]

end SiestaVR.Stream
