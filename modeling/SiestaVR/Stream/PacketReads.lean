import SiestaVR.Stream.Session
import Mathlib.Algebra.Order.Ring.Nat

/-!
# Reading packets in order (lib/alvr_stream_socket.rs:2925–3008, 3557–3567)

A reading end returns the packets that are newer than the last one it returned and discards
the others; what it discards counts for the next packet that it returns. Which of two packets
is newer is decided on the circle of 32-bit indices: less than half a turn ahead
(`StreamReceiver.expected`).

The code compares with the index after the last one, wrapping around, and then counts the
indices between by an ordinary subtraction. The comparison is right on the whole half circle
(`freshness_eq`). The subtraction is right as long as the new index is the greater number; when the
indices have wrapped around since the last packet it underflows, unless the last index was
the very last before the wrap. The counters have 32 bits as well (`recvChecked`).
-/

namespace SiestaVR.Stream

open Lib

namespace StreamReceiver

/-! ## What a read is expected to do -/

/-- A packet is newer than the last one returned: less than half a turn ahead of it. -/
def isNewer (reader : StreamReceiver) (index : UInt32) : Bool :=
  match reader.lastPacketIndex with
  | none => true
  | some last => 0 < (index - last).toNat && (index - last).toNat < 2 ^ 31

/-- The indices between the last packet returned and a newer one. -/
def skippedBefore (reader : StreamReceiver) (index : UInt32) : Nat :=
  match reader.lastPacketIndex with
  | none => 0
  | some last => (index.toNat + 2 ^ 32 - last.toNat - 1) % 2 ^ 32

/-- The reader with the counters of a packet added. -/
def carry (reader : StreamReceiver) (packet : ReconstructedPacket) : StreamReceiver :=
  { reader with
    rxBytes := reader.rxBytes + packet.rxBytes
    rxShardCounter := reader.rxShardCounter + packet.rxShardCounter
    duplicatedShardCounter := reader.duplicatedShardCounter + packet.duplicatedShardCounter }

/-- A packet as it is handed out, with the counters of the packets discarded before it. -/
def received (reader : StreamReceiver) (packet : ReconstructedPacket) (hadPacketLoss : Bool)
    (framesSkipped : UInt32) : ReceiverData where
  buffer := packet.buffer
  size := packet.size
  hadPacketLoss := hadPacketLoss
  frameIndex := packet.frameIndex
  rxBytes := reader.rxBytes + packet.rxBytes
  bytesInFrame := packet.bytesInFrame
  bytesInFrameApp := packet.bytesInFrameApp
  framesSkipped := framesSkipped
  rxShardCounter := reader.rxShardCounter + packet.rxShardCounter
  duplicatedShardCounter := reader.duplicatedShardCounter + packet.duplicatedShardCounter
  highestRxFrameIndex := packet.highestRxFrameIndex
  highestRxShardIndex := packet.highestRxShardIndex
  shardsInFrame := packet.shardsInFrame

/-- What a read should make of the next packet: a newer one is returned with the indices
skipped before it and everything carried over, any other is discarded and carried over. -/
def expected (reader : StreamReceiver) (packet : ReconstructedPacket) :
    Except ConnectionError ReceiverData × StreamReceiver :=
  if reader.isNewer packet.index then
    (.ok (reader.received packet (0 < reader.skippedBefore packet.index)
      (.ofNat (reader.skippedBefore packet.index))), ⟨some packet.index, 0, 0, 0⟩)
  else (.error .tryAgain, reader.carry packet)

/-- What reads should make of some packets. -/
def expectedAll : StreamReceiver → List ReconstructedPacket →
    List (Except ConnectionError ReceiverData)
  | _, [] => []
  | reader, packet :: packets =>
    (reader.expected packet).1 :: (reader.expected packet).2.expectedAll packets

/-- An index less than half a turn away from the last one returned, on one side or the
other. -/
def HalfTurn (reader : StreamReceiver) (packet : ReconstructedPacket) : Prop :=
  ∀ last ∈ reader.lastPacketIndex,
    (packet.index - last).toNat < 2 ^ 31 ∨ (last - packet.index).toNat < 2 ^ 31

/-- A newer index is a greater number than the last one, unless that was the last number. -/
def Ahead (reader : StreamReceiver) (packet : ReconstructedPacket) : Prop :=
  reader.isNewer packet.index = true → ∀ last ∈ reader.lastPacketIndex,
    last.toNat < packet.index.toNat ∨ last.toNat = 2 ^ 32 - 1

/-- The counters hold what is carried over to them. -/
def Holds32 (reader : StreamReceiver) : Prop :=
  reader.rxBytes < 2 ^ 32 ∧ reader.rxShardCounter < 2 ^ 32 ∧
    reader.duplicatedShardCounter < 2 ^ 32

instance (reader : StreamReceiver) (packet : ReconstructedPacket) :
    Decidable (reader.HalfTurn packet) :=
  Option.decidableForallMem reader.lastPacketIndex

instance (reader : StreamReceiver) (packet : ReconstructedPacket) :
    Decidable (reader.Ahead packet) :=
  have : Decidable (∀ last ∈ reader.lastPacketIndex,
      last.toNat < packet.index.toNat ∨ last.toNat = 2 ^ 32 - 1) :=
    Option.decidableForallMem reader.lastPacketIndex
  inferInstanceAs (Decidable (_ → _))

instance (reader : StreamReceiver) : Decidable reader.Holds32 :=
  inferInstanceAs (Decidable (_ ∧ _))

/-! ## What a read does -/

/-- `StreamReceiver::recv`, with the width of its counters. -/
def recvChecked (reader : StreamReceiver) (c : StreamRecvComponents) :
    Option (Except ConnectionError ReceiverData × StreamReceiver × StreamRecvComponents) :=
  match c.packetQueue.tryRecv with
  | none => reader.recv c
  | some (packet, _) => if (reader.carry packet).Holds32 then reader.recv c else none

/-- `n` reads, one after the other. -/
def reads : Nat → StreamReceiver → StreamRecvComponents →
    Option (List (Except ConnectionError ReceiverData) × StreamReceiver × StreamRecvComponents)
  | 0, reader, c => some ([], reader, c)
  | n + 1, reader, c =>
    (reader.recvChecked c).bind fun (d, reader, c) =>
      (reads n reader c).map fun (ds, reader, c) => (d :: ds, reader, c)

end StreamReceiver

/-! ## The comparison -/

section Freshness

variable {last index : UInt32}

theorem toNat_sub_next (last index : UInt32) :
    (index - (last + 1)).toNat = (index.toNat + 2 ^ 32 - last.toNat - 1) % 2 ^ 32 := by
  have ha := index.toNat_lt
  have hb := last.toNat_lt
  rw [UInt32.toNat_sub, UInt32.toNat_add, UInt32.toNat_one]
  omega

theorem sub_next_eq (last index : UInt32) :
    index - (last + 1) = .ofNat ((index.toNat + 2 ^ 32 - last.toNat - 1) % 2 ^ 32) := by
  rw [← toNat_sub_next, UInt32.ofNat_toNat]

theorem toNat_sub_eq (last index : UInt32) :
    (index - last).toNat = (index.toNat + 2 ^ 32 - last.toNat) % 2 ^ 32 := by
  have ha := index.toNat_lt
  have hb := last.toNat_lt
  rw [UInt32.toNat_sub]
  omega

/-- The comparison with the index after the last one, for an index within half a turn. -/
theorem wrappingCmp_next (hhalf : (index - last).toNat < 2 ^ 31 ∨ (last - index).toNat < 2 ^ 31) :
    wrappingCmp index (last + 1) =
      if (index - last).toNat = 1 then .eq
      else if 0 < (index - last).toNat ∧ (index - last).toNat < 2 ^ 31 then .gt
      else .lt := by
  have ha := index.toNat_lt
  have hb := last.toNat_lt
  have hnext := toNat_sub_next last index
  have hdist : (index.toNat + 2 ^ 32 - last.toNat) % 2 ^ 32 < 2 ^ 31 ∨
      (last.toNat + 2 ^ 32 - index.toNat) % 2 ^ 32 < 2 ^ 31 := by
    rw [← toNat_sub_eq last index, ← toNat_sub_eq index last]
    exact hhalf
  rw [toNat_sub_eq last]
  have heq : index - (last + 1) = 0 ↔ (index.toNat + 2 ^ 32 - last.toNat) % 2 ^ 32 = 1 := by
    rw [← UInt32.toNat_inj, hnext, UInt32.toNat_zero]
    omega
  have hgt : index - (last + 1) < 2147483647 ↔
      (index.toNat + 2 ^ 32 - last.toNat - 1) % 2 ^ 32 < 2147483647 := by
    rw [UInt32.lt_iff_toNat_lt, hnext]
    rfl
  unfold wrappingCmp
  dsimp only
  simp only [heq, hgt]
  split
  · rfl
  · rename_i hone
    congr 1
    rw [eq_iff_iff]
    omega

/-- **The comparison** is right on the whole half circle; the subtraction behind it underflows
when a newer index is the smaller number, unless the last one was the last number. -/
theorem freshness_some
    (hhalf : (index - last).toNat < 2 ^ 31 ∨ (last - index).toNat < 2 ^ 31) :
    freshness (some last) index =
      if 0 < (index - last).toNat ∧ (index - last).toNat < 2 ^ 31 then
        if last.toNat < index.toNat ∨ last.toNat = 2 ^ 32 - 1 then
          some (if (index.toNat + 2 ^ 32 - last.toNat - 1) % 2 ^ 32 = 0 then .expected
            else .skipped (.ofNat ((index.toNat + 2 ^ 32 - last.toNat - 1) % 2 ^ 32)))
        else none
      else some .old := by
  have ha := index.toNat_lt
  have hb := last.toNat_lt
  have hunder : index < last + 1 ↔ index.toNat < (last.toNat + 1) % 2 ^ 32 := by
    rw [UInt32.lt_iff_toNat_lt, UInt32.toNat_add]
    rfl
  unfold freshness
  dsimp only
  rw [wrappingCmp_next hhalf, toNat_sub_eq last index]
  by_cases hone : (index.toNat + 2 ^ 32 - last.toNat) % 2 ^ 32 = 1
  · rw [if_pos hone]
    dsimp only
    rw [if_pos (by omega), if_pos (by omega), if_pos (by omega)]
  · rw [if_neg hone]
    by_cases hnew : 0 < (index.toNat + 2 ^ 32 - last.toNat) % 2 ^ 32 ∧
        (index.toNat + 2 ^ 32 - last.toNat) % 2 ^ 32 < 2 ^ 31
    · rw [if_pos hnew, if_pos hnew]
      dsimp only
      by_cases hunderflow : index < last + 1
      · have hless := hunder.1 hunderflow
        rw [if_pos hunderflow, if_neg (by omega)]
      · have hnotLess := mt hunder.2 hunderflow
        rw [if_neg hunderflow, if_pos (by omega), if_neg (by omega), sub_next_eq]
    · rw [if_neg hnew, if_neg hnew]

end Freshness

/-- How fresh a packet is, in the words of what is expected. -/
theorem freshness_eq {reader : StreamReceiver} {packet : ReconstructedPacket}
    (hhalf : reader.HalfTurn packet) :
    freshness reader.lastPacketIndex packet.index =
      if reader.isNewer packet.index = true then
        if reader.Ahead packet then
          some (if reader.skippedBefore packet.index = 0 then .expected
            else .skipped (.ofNat (reader.skippedBefore packet.index)))
        else none
      else some .old := by
  obtain ⟨last, rxBytes, rxShardCounter, duplicatedShardCounter⟩ := reader
  cases last with
  | none =>
    have hnewer : StreamReceiver.isNewer ⟨none, rxBytes, rxShardCounter,
        duplicatedShardCounter⟩ packet.index = true := rfl
    have hahead : StreamReceiver.Ahead ⟨none, rxBytes, rxShardCounter,
        duplicatedShardCounter⟩ packet := by
      intro _ last hlast
      cases hlast
    rw [if_pos hnewer, if_pos hahead]
    rfl
  | some last =>
    have hnewer : StreamReceiver.isNewer ⟨some last, rxBytes, rxShardCounter,
        duplicatedShardCounter⟩ packet.index = true ↔
        0 < (packet.index - last).toNat ∧ (packet.index - last).toNat < 2 ^ 31 := by
      simp [StreamReceiver.isNewer]
    rw [freshness_some (hhalf last rfl)]
    by_cases hnew : 0 < (packet.index - last).toNat ∧ (packet.index - last).toNat < 2 ^ 31
    · have hahead : StreamReceiver.Ahead ⟨some last, rxBytes, rxShardCounter,
          duplicatedShardCounter⟩ packet ↔
          last.toNat < packet.index.toNat ∨ last.toNat = 2 ^ 32 - 1 := by
        simp [StreamReceiver.Ahead, hnewer.2 hnew]
      rw [if_pos hnew, if_pos (hnewer.2 hnew)]
      simp only [hahead]
      rfl
    · rw [if_neg hnew, if_neg (mt hnewer.1 hnew)]

/-! ## Reads -/

namespace StreamReceiver

variable {reader : StreamReceiver} {packet : ReconstructedPacket} {c : StreamRecvComponents}
  {queue : Channel ReconstructedPacket}

theorem recv_eq (reader : StreamReceiver) (hq : c.packetQueue.tryRecv = some (packet, queue)) :
    reader.recv c = (freshness reader.lastPacketIndex packet.index).map fun
      | .expected => (.ok (reader.received packet false 0), ⟨some packet.index, 0, 0, 0⟩,
          { c with packetQueue := queue })
      | .skipped frames => (.ok (reader.received packet true frames), ⟨some packet.index, 0, 0, 0⟩,
          { c with packetQueue := queue })
      | .old => (.error .tryAgain, reader.carry packet,
          { c with packetQueue := queue, usedBuffers := c.usedBuffers ++ [packet.buffer] }) := by
  rw [recv, hq]
  rfl

/-- **A read** does what is expected of it, unless it counts below zero. -/
theorem recv_of_halfTurn (hq : c.packetQueue.tryRecv = some (packet, queue))
    (hhalf : reader.HalfTurn packet) :
    (reader.Ahead packet → ∃ c', c'.packetQueue = queue ∧
      reader.recv c = some ((reader.expected packet).1, (reader.expected packet).2, c')) ∧
    (¬ reader.Ahead packet → reader.recv c = none) := by
  have hfresh := freshness_eq hhalf
  rw [recv_eq reader hq, hfresh]
  by_cases hnewer : reader.isNewer packet.index = true
  · rw [if_pos hnewer, expected, if_pos hnewer]
    constructor
    · intro hahead
      refine ⟨{ c with packetQueue := queue }, rfl, ?_⟩
      rw [if_pos hahead]
      by_cases hzero : reader.skippedBefore packet.index = 0
      · rw [if_pos hzero, hzero]
        rfl
      · rw [if_neg hzero, decide_eq_true (Nat.pos_of_ne_zero hzero)]
        rfl
    · intro hahead
      rw [if_neg hahead]
      rfl
  · rw [if_neg hnewer, expected, if_neg hnewer]
    constructor
    · intro _
      exact ⟨_, rfl, rfl⟩
    · intro hahead
      exact absurd (fun h => absurd h hnewer) hahead

theorem recvChecked_of_halfTurn (hq : c.packetQueue.tryRecv = some (packet, queue))
    (hhalf : reader.HalfTurn packet) :
    (reader.Ahead packet ∧ (reader.carry packet).Holds32 → ∃ c', c'.packetQueue = queue ∧
      reader.recvChecked c = some ((reader.expected packet).1, (reader.expected packet).2, c')) ∧
    (¬ (reader.Ahead packet ∧ (reader.carry packet).Holds32) → reader.recvChecked c = none) := by
  obtain ⟨hdone, hfailed⟩ := recv_of_halfTurn hq hhalf
  rw [recvChecked, hq]
  dsimp only
  by_cases hholds : (reader.carry packet).Holds32
  · rw [if_pos hholds]
    exact ⟨fun h => hdone h.1, fun h => hfailed fun hahead => h ⟨hahead, hholds⟩⟩
  · rw [if_neg hholds]
    exact ⟨fun h => absurd h.2 hholds, fun _ => rfl⟩

/-- **All reads** of what is in the queue, by induction over it. -/
theorem reads_iff {packets : List ReconstructedPacket} (hpending : c.packetQueue.pending = packets)
    (hhalf : allOk (fun reader p => some (expected reader p).2) HalfTurn reader packets) :
    (reads packets.length reader c).map Prod.fst = some (reader.expectedAll packets) ↔
      allOk (fun reader p => some (expected reader p).2)
        (fun reader p => reader.Ahead p ∧ (reader.carry p).Holds32) reader packets := by
  induction packets generalizing reader c with
  | nil => exact iff_of_true rfl trivial
  | cons packet packets ih =>
    obtain ⟨queue, hq, hqueue⟩ := Channel.tryRecv_of_pending hpending
    obtain ⟨hdone, hfailed⟩ := recvChecked_of_halfTurn hq hhalf.1
    rw [List.length_cons, reads, expectedAll]
    -- A read that does not panic leaves the expected reader, and the others follow.
    by_cases hok : reader.Ahead packet ∧ (reader.carry packet).Holds32
    · obtain ⟨c', rfl, hrecv⟩ := hdone hok
      have hrest := ih hqueue (hhalf.2 _ rfl)
      have hcons : allOk (fun reader p => some (expected reader p).2)
          (fun reader p => reader.Ahead p ∧ (reader.carry p).Holds32) reader (packet :: packets) ↔
          allOk (fun reader p => some (expected reader p).2)
            (fun reader p => reader.Ahead p ∧ (reader.carry p).Holds32)
            (reader.expected packet).2 packets := by
        constructor
        · intro h
          exact h.2 _ rfl
        · rintro h
          refine ⟨hok, ?_⟩
          rintro reader' ⟨⟩
          exact h
      rw [hcons, ← hrest, hrecv, Option.bind_some]
      dsimp only
      cases reads packets.length (reader.expected packet).2 c' with
      | none => simp
      | some rest => simp
    · rw [hfailed hok]
      exact iff_of_false (fun h => by cases h) fun h => hok h.1

end StreamReceiver

/-- For every sequence of packets whose indices are less than half a turn away from the last
one returned: reading them does what is expected (newer packets are returned with the number
of indices skipped and with the counters of the packets discarded before, older and repeated
ones are discarded) if and only if every newer index is a greater number than the last one
returned or follows the very last number, and the counters hold what is carried over. -/
theorem packet_reads_iff (c : StreamRecvComponents)
    (hhalf : allOk (fun reader p => some (StreamReceiver.expected reader p).2)
      StreamReceiver.HalfTurn .new c.packetQueue.pending) :
    (StreamReceiver.reads c.packetQueue.pending.length .new c).map Prod.fst
        = some (StreamReceiver.expectedAll .new c.packetQueue.pending) ↔
      allOk (fun reader p => some (StreamReceiver.expected reader p).2)
        (fun reader p => reader.Ahead p ∧ (reader.carry p).Holds32) .new c.packetQueue.pending :=
  StreamReceiver.reads_iff rfl hhalf

/-- A packet of one shard of a hundred bytes. -/
def smallPacket (index : UInt32) : ReconstructedPacket :=
  { index := index, buffer := [], size := 0, frameIndex := index, shardsInFrame := 1,
    rxBytes := 100, bytesInFrame := 100, bytesInFrameApp := 78, rxShardCounter := 1,
    duplicatedShardCounter := 0, highestRxFrameIndex := 0, highestRxShardIndex := 0 }

/-- A queue of such packets. -/
def holding (indices : List UInt32) : StreamRecvComponents :=
  { usedBuffers := []
    packetQueue := indices.foldl (fun q i => q.send (smallPacket i)) .empty
    inProgressPackets := ∅ }

/-- Across the wrap from the last number: the packets 5 and 9 are returned with 5 and 3
indices skipped, packet 2 between them is discarded, and its bytes are counted with those of
packet 9. -/
theorem packet_reads_across_wrap :
    allOk (fun reader p => some (StreamReceiver.expected reader p).2) StreamReceiver.HalfTurn .new
      (holding [4294967295, 5, 2, 9]).packetQueue.pending ∧
    (StreamReceiver.reads 4 .new (holding [4294967295, 5, 2, 9])).map
        (fun x => x.1.map fun d => d.toOption.map fun d => (d.framesSkipped, d.rxBytes))
      = some [some (0, 100), some (5, 100), none, some (3, 200)] ∧
    (StreamReceiver.reads 4 .new (holding [4294967295, 5, 2, 9])).map Prod.fst
      = some (StreamReceiver.expectedAll .new
        (holding [4294967295, 5, 2, 9]).packetQueue.pending) := by
  have hhalf : allOk (fun reader p => some (StreamReceiver.expected reader p).2)
      StreamReceiver.HalfTurn .new (holding [4294967295, 5, 2, 9]).packetQueue.pending := by
    decide +kernel
  refine ⟨hhalf, rfl, (packet_reads_iff _ hhalf).2 ?_⟩
  decide +kernel

/-- Frame `2 ^ 32 - 1` is lost: after packet `2 ^ 32 - 2`, packet 0 is newer by two, but one
skipped index cannot be counted as `0 - (2 ^ 32 - 1)`. -/
theorem packet_reads_underflow :
    allOk (fun reader p => some (StreamReceiver.expected reader p).2) StreamReceiver.HalfTurn .new
      (holding [4294967294, 0]).packetQueue.pending ∧
    (StreamReceiver.reads 2 .new (holding [4294967294, 0])).isNone = true ∧
    (StreamReceiver.reads 2 .new (holding [4294967294, 0])).map Prod.fst
      ≠ some (StreamReceiver.expectedAll .new (holding [4294967294, 0]).packetQueue.pending) := by
  have hnone : (StreamReceiver.reads 2 .new (holding [4294967294, 0])).isNone = true := rfl
  refine ⟨by decide +kernel, hnone, ?_⟩
  rw [Option.isNone_iff_eq_none.1 hnone]
  intro h
  cases h

end SiestaVR.Stream
