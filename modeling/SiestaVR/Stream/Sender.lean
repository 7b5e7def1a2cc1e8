import SiestaVR.Stream.Wire

/-!
# Sharding (lib/alvr_stream_socket.rs:3096–3148)

`StreamSender.send` cuts a buffer into shards without copying it. The payload of
a shard stays where it is in the buffer and the 22 bytes in front of it are
overwritten with its prefix. For every shard but the first these bytes are the
end of the previous shard's payload, which has been sent by then.

The number of shards is the quotient of two 32-bit floats in the source, rounded
up; it is the exact ceiling here. The send time in the prefix is a 32-bit float
as well; `secsF32` gives its bit pattern for a time in nanoseconds.
-/

namespace SiestaVR.Stream

open Lib

/-- `Buffer`: `hiddenOffset` bytes for the first prefix and what the application
put before its data, then `length` bytes of data. -/
structure Buffer where
  inner : Bytes
  hiddenOffset : Nat
  length : Nat

/-- `actual_buffer_size`. -/
def Buffer.actualSize (b : Buffer) : Nat := b.hiddenOffset + b.length

/-- `StreamSender`. -/
structure StreamSender where
  streamId : UInt16
  maxPacketSize : Nat
  nextPacketIndex : UInt32
  usedBuffers : List Bytes
  shardsCount : Nat
  refTime : Nat

/-- `max_shard_data_size`: the bytes of a packet that a full shard carries. -/
def maxShardDataSize (maxPacketSize : Nat) : Nat := maxPacketSize - shardPrefixSize

/-- The number of shards that `dataSize` bytes need. -/
def shardsNeeded (maxPacketSize dataSize : Nat) : Nat :=
  (dataSize + maxShardDataSize maxPacketSize - 1) / maxShardDataSize maxPacketSize

/-- The length of a shard. -/
def packetLength (maxPacketSize actualSize idx : Nat) : Nat :=
  min maxPacketSize (actualSize - idx * maxShardDataSize maxPacketSize)

/-- The prefix of a shard. -/
def StreamSender.header (s : StreamSender) (actualSize shardsCount : Nat) (stamp : UInt32)
    (idx : Nat) : ShardHeader where
  shardLength := packetLength s.maxPacketSize actualSize idx
  streamId := s.streamId
  packetIndex := s.nextPacketIndex
  shardsCount := shardsCount
  shardIndex := idx
  txInstant := stamp

/-- The loop of `send` over shard indices: the shards sent, and the buffer
afterwards. No result: a slice is out of range. -/
def StreamSender.sendShards (s : StreamSender) (actualSize shardsCount : Nat) (stamp : UInt32) :
    List Nat → Bytes → Option (List Bytes × Bytes)
  | [], inner => some ([], inner)
  | idx :: rest, inner =>
    let start := idx * maxShardDataSize s.maxPacketSize
    let len := packetLength s.maxPacketSize actualSize idx
    if inner.length < start + shardPrefixSize ∨ inner.length < start + len then none
    else
      -- over the end of the previous shard, which is out already
      let inner := splice inner start (s.header actualSize shardsCount stamp idx).encode
      (s.sendShards actualSize shardsCount stamp rest inner).map fun r =>
        (slice inner start len :: r.1, r.2)

/-- `send`: the shards sent and the sender afterwards. No result: an unsigned
subtraction underflows, a slice is out of range, or shards without room for data
are sent forever. -/
def StreamSender.send (secsF32 : Nat → UInt32) (s : StreamSender) (buffer : Buffer) (now : Nat) :
    Option (List Bytes × StreamSender) :=
  if s.maxPacketSize < shardPrefixSize ∨ buffer.actualSize < shardPrefixSize then none
  else
    let dataSize := buffer.actualSize - shardPrefixSize
    if maxShardDataSize s.maxPacketSize = 0 ∧ 0 < dataSize then none
    else
      let shardsCount := shardsNeeded s.maxPacketSize dataSize
      (s.sendShards buffer.actualSize shardsCount (secsF32 (now - s.refTime))
        (List.range shardsCount) buffer.inner).map fun r =>
          (r.1, { s with shardsCount := shardsCount, usedBuffers := s.usedBuffers ++ [r.2] })

/-! ## What the shards are -/

/-- The number of shards a packet is cut into. -/
abbrev StreamSender.shardsFor (s : StreamSender) (buffer : Buffer) : Nat :=
  shardsNeeded s.maxPacketSize (buffer.actualSize - shardPrefixSize)

/-- The prefix of shard `idx` of a packet. -/
abbrev StreamSender.headerFor (s : StreamSender) (stamp : UInt32) (buffer : Buffer) (idx : Nat) :
    ShardHeader :=
  s.header buffer.actualSize (s.shardsFor buffer) stamp idx

/-- Shard `idx` of a packet: its prefix, then its part of the packet's bytes as the
application left them. -/
def StreamSender.shard (s : StreamSender) (stamp : UInt32) (buffer : Buffer) (idx : Nat) :
    Bytes :=
  let len := packetLength s.maxPacketSize buffer.actualSize idx
  (s.headerFor stamp buffer idx).encode ++
    slice buffer.inner (idx * maxShardDataSize s.maxPacketSize + shardPrefixSize)
      (len - shardPrefixSize)

theorem lt_shardsNeeded {maxPacketSize dataSize idx : Nat}
    (hmax : shardPrefixSize < maxPacketSize) :
    idx < shardsNeeded maxPacketSize dataSize ↔
      idx * maxShardDataSize maxPacketSize < dataSize := by
  have hpos : 0 < maxShardDataSize maxPacketSize := by
    unfold maxShardDataSize
    omega
  rw [shardsNeeded, ← Nat.succ_le_iff, Nat.le_div_iff_mul_le hpos, Nat.succ_mul]
  omega

section Layout

variable {maxPacketSize actualSize idx : Nat} (hmax : shardPrefixSize < maxPacketSize)
  (hidx : idx < shardsNeeded maxPacketSize (actualSize - shardPrefixSize))

include hmax hidx

theorem lt_packetLength : shardPrefixSize < packetLength maxPacketSize actualSize idx := by
  have := (lt_shardsNeeded hmax).1 hidx
  unfold packetLength
  omega

theorem shard_end_le : idx * maxShardDataSize maxPacketSize +
    packetLength maxPacketSize actualSize idx ≤ actualSize := by
  have := (lt_shardsNeeded hmax).1 hidx
  unfold packetLength
  omega

end Layout

namespace StreamSender

variable {s : StreamSender} {buffer : Buffer} {stamp : UInt32}

theorem length_shard (stamp : UInt32) (hmax : shardPrefixSize < s.maxPacketSize)
    (hroom : buffer.actualSize ≤ buffer.inner.length) {idx : Nat}
    (hidx : idx < s.shardsFor buffer) :
    (s.shard stamp buffer idx).length = packetLength s.maxPacketSize buffer.actualSize idx := by
  have h₁ := lt_packetLength hmax hidx
  have h₂ := shard_end_le hmax hidx
  simp only [shard, List.length_append, ShardHeader.length_encode, length_slice]
  omega

/-- Writing a prefix in front of a payload that is still intact gives the shard. -/
theorem slice_splice_header (hmax : shardPrefixSize < s.maxPacketSize)
    (hroom : buffer.actualSize ≤ buffer.inner.length) {idx : Nat}
    (hidx : idx < s.shardsFor buffer)
    {inner : Bytes} (hlen : inner.length = buffer.inner.length)
    (hkept : ∀ i, idx * maxShardDataSize s.maxPacketSize + shardPrefixSize ≤ i →
      inner[i]? = buffer.inner[i]?) :
    slice (splice inner (idx * maxShardDataSize s.maxPacketSize)
        (s.headerFor stamp buffer idx).encode)
      (idx * maxShardDataSize s.maxPacketSize)
      (packetLength s.maxPacketSize buffer.actualSize idx) = s.shard stamp buffer idx := by
  have h₁ := lt_packetLength hmax hidx
  have h₂ := shard_end_le hmax hidx
  set start := idx * maxShardDataSize s.maxPacketSize
  set len := packetLength s.maxPacketSize buffer.actualSize idx
  set hd := s.headerFor stamp buffer idx
  apply List.ext_getElem?
  intro i
  have hfit : start + hd.encode.length ≤ inner.length := by
    rw [ShardHeader.length_encode, hlen]
    omega
  rw [getElem?_slice, getElem?_splice hfit, ShardHeader.length_encode]
  show _ = (hd.encode ++ slice buffer.inner (start + shardPrefixSize) (len - shardPrefixSize))[i]?
  -- The prefix first; behind it the buffer is as the application left it.
  by_cases hi : i < shardPrefixSize
  · rw [if_pos (by omega), if_pos (by omega), List.getElem?_append_left (by simpa using hi),
      Nat.add_sub_cancel_left]
  · rw [List.getElem?_append_right (by simpa using hi), ShardHeader.length_encode, getElem?_slice]
    by_cases hin : i < len
    · rw [if_pos hin, if_neg (by omega), if_pos (by omega), hkept _ (by omega)]
      congr 1
      omega
    · rw [if_neg hin, if_neg (by omega)]

/-- The loop from shard `a` on, in a buffer whose bytes behind the prefix of shard
`a` are still those of the application: the invariant that carries the induction
is that a prefix is only ever written over bytes already sent. -/
theorem sendShards_eq (stamp : UInt32) (hmax : shardPrefixSize < s.maxPacketSize)
    (hroom : buffer.actualSize ≤ buffer.inner.length) (n : Nat) :
    ∀ (a : Nat) (inner : Bytes),
      a + n = s.shardsFor buffer →
      inner.length = buffer.inner.length →
      (∀ i, a * maxShardDataSize s.maxPacketSize + shardPrefixSize ≤ i →
        inner[i]? = buffer.inner[i]?) →
      ∃ inner', s.sendShards buffer.actualSize (s.shardsFor buffer) stamp (List.range' a n) inner =
          some ((List.range' a n).map (s.shard stamp buffer), inner') := by
  induction n with
  | zero =>
    intro a inner _ _ _
    exact ⟨inner, rfl⟩
  | succ n ih =>
    intro a inner hcount hlen hkept
    have hidx : a < s.shardsFor buffer := by omega
    have h₁ := lt_packetLength hmax hidx
    have h₂ := shard_end_le hmax hidx
    have hfit : a * maxShardDataSize s.maxPacketSize +
        (s.headerFor stamp buffer a).encode.length ≤ inner.length := by
      rw [ShardHeader.length_encode]
      omega
    have hnext : (a + 1) * maxShardDataSize s.maxPacketSize =
        a * maxShardDataSize s.maxPacketSize + maxShardDataSize s.maxPacketSize := Nat.succ_mul ..
    -- Prefix `a` lies in front of the bytes that the later shards are cut from.
    obtain ⟨inner', hrest⟩ := ih (a + 1)
      (splice inner (a * maxShardDataSize s.maxPacketSize)
        (s.headerFor stamp buffer a).encode)
      (by omega) (by rw [length_splice hfit, hlen]) (by
        intro i hi
        rw [getElem?_splice hfit, ShardHeader.length_encode, if_neg (by omega)]
        exact hkept i (by omega))
    refine ⟨inner', ?_⟩
    have hguard : ¬ (inner.length < a * maxShardDataSize s.maxPacketSize + shardPrefixSize ∨
        inner.length < a * maxShardDataSize s.maxPacketSize +
          packetLength s.maxPacketSize buffer.actualSize a) := by omega
    rw [List.range'_succ, sendShards, if_neg hguard]
    simp only [hrest, Option.map_some, List.map_cons,
      slice_splice_header hmax hroom hidx hlen hkept]

/-- **What is sent**: for a packet with at least one byte behind the prefix and a
maximum packet size above the prefix, `send` returns, and the messages sent are
the packet's shards in order, each with the application's bytes. -/
theorem send_eq (secsF32 : Nat → UInt32) (hmax : shardPrefixSize < s.maxPacketSize)
    (hsize : shardPrefixSize < buffer.actualSize)
    (hroom : buffer.actualSize ≤ buffer.inner.length) (now : Nat) :
    ∃ s', s.send secsF32 buffer now =
      some ((List.range (s.shardsFor buffer)).map
        (s.shard (secsF32 (now - s.refTime)) buffer), s') := by
  have hpos : 0 < maxShardDataSize s.maxPacketSize := by
    unfold maxShardDataSize
    omega
  obtain ⟨inner', hloop⟩ := sendShards_eq (secsF32 (now - s.refTime)) hmax hroom
    (s.shardsFor buffer) 0 buffer.inner
    (Nat.zero_add _) rfl (fun _ _ => rfl)
  rw [← List.range_eq_range'] at hloop
  refine ⟨{ s with
    shardsCount := s.shardsFor buffer, usedBuffers := s.usedBuffers ++ [inner'] }, ?_⟩
  rw [send, if_neg (by omega)]
  simp only [hloop, Option.map_some]
  rw [if_neg (by omega)]

end StreamSender

end SiestaVR.Stream
