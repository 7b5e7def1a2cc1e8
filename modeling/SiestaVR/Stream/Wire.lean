import SiestaVR.Lib.Bytes

/-!
# Shards on the wire (lib/alvr_stream_socket.rs:56–82, 1343–1527, 3557–3567)

A shard is one message of the channel between the network and the application.
It starts with a prefix of 22 bytes, all fields big-endian:

- 4 bytes: length of the shard without this field,
- 2 bytes: stream,
- 4 bytes: packet (frame) index,
- 4 bytes: number of shards of the packet,
- 4 bytes: index of this shard,
- 4 bytes: send time as a 32-bit float, here its bit pattern.

`BufferedReceiver` is the reading end of the channel: a queue with one message
looked at in advance.
-/

namespace SiestaVR.Stream

open Lib

abbrev Bytes := List UInt8

/-- `SHARD_PREFIX_SIZE`. -/
def shardPrefixSize : Nat := 22

/-- `MAX_PACKET_SIZE_RECV`. -/
def maxPacketSizeRecv : Nat := 2000 * 8

/-- `VIDEO`. -/
def video : UInt16 := 3

/-- `FOVOPTIX_BW_PROBE`. -/
def fovoptixBwProbe : UInt16 := 9

/-- The fields of a shard's prefix. `shardLength` is the length of the whole shard. -/
structure ShardHeader where
  shardLength : Nat
  streamId : UInt16
  packetIndex : UInt32
  shardsCount : Nat
  shardIndex : Nat
  txInstant : UInt32
deriving DecidableEq, Repr

namespace ShardHeader

/-- The prefix as `StreamSender::send` writes it. -/
def encode (h : ShardHeader) : Bytes :=
  toBe 4 (h.shardLength - 4) ++ toBe 2 h.streamId.toNat ++ toBe 4 h.packetIndex.toNat ++
    toBe 4 h.shardsCount ++ toBe 4 h.shardIndex ++ toBe 4 h.txInstant.toNat

/-- The prefix as `StreamSocket::recv` reads it. -/
def decode (bytes : Bytes) : ShardHeader where
  shardLength := 4 + ofBe (slice bytes 0 4)
  streamId := .ofNat (ofBe (slice bytes 4 2))
  packetIndex := .ofNat (ofBe (slice bytes 6 4))
  shardsCount := ofBe (slice bytes 10 4)
  shardIndex := ofBe (slice bytes 14 4)
  txInstant := .ofNat (ofBe (slice bytes 18 4))

@[simp] theorem length_encode (h : ShardHeader) : h.encode.length = shardPrefixSize := by
  simp [encode, shardPrefixSize]

/-- The lengths and counts that the 4-byte fields hold without truncation. -/
structure Fits (h : ShardHeader) : Prop where
  length_ge : 4 ≤ h.shardLength
  length_lt : h.shardLength < 2 ^ 32
  count_lt : h.shardsCount < 2 ^ 32
  index_lt : h.shardIndex < 2 ^ 32

/-- **Prefix round trip**: whatever follows the prefix, reading it gives the header
that was written. -/
theorem decode_encode {h : ShardHeader} (hfits : h.Fits) (rest : Bytes) :
    decode (h.encode ++ rest) = h := by
  obtain ⟨hge, hlt, hcount, hindex⟩ := hfits
  have hsid : h.streamId.toNat < 256 ^ 2 := h.streamId.toNat_lt
  have hidx : h.packetIndex.toNat < 256 ^ 4 := h.packetIndex.toNat_lt
  have htx : h.txInstant.toNat < 256 ^ 4 := h.txInstant.toNat_lt
  have hlen : h.shardLength - 4 < 256 ^ 4 := by omega
  -- each field is found between the fields before it and the fields after it
  set fields := [toBe 4 (h.shardLength - 4), toBe 2 h.streamId.toNat,
    toBe 4 h.packetIndex.toNat, toBe 4 h.shardsCount, toBe 4 h.shardIndex,
    toBe 4 h.txInstant.toNat] with hfields
  have hlayout : h.encode = fields.flatten := by simp [encode, hfields]
  rw [hlayout]
  have hfield := fun i (hi : i < 6) => slice_flatten fields rest (i := i) hi
  have h₀ : slice (fields.flatten ++ rest) 0 4 = toBe 4 (h.shardLength - 4) :=
    hfield 0 (by decide)
  have h₁ : slice (fields.flatten ++ rest) 4 2 = toBe 2 h.streamId.toNat := hfield 1 (by decide)
  have h₂ : slice (fields.flatten ++ rest) 6 4 = toBe 4 h.packetIndex.toNat :=
    hfield 2 (by decide)
  have h₃ : slice (fields.flatten ++ rest) 10 4 = toBe 4 h.shardsCount := hfield 3 (by decide)
  have h₄ : slice (fields.flatten ++ rest) 14 4 = toBe 4 h.shardIndex := hfield 4 (by decide)
  have h₅ : slice (fields.flatten ++ rest) 18 4 = toBe 4 h.txInstant.toNat :=
    hfield 5 (by decide)
  rw [decode, h₀, h₁, h₂, h₃, h₄, h₅, ofBe_toBe_of_lt hlen, ofBe_toBe_of_lt hsid,
    ofBe_toBe_of_lt hidx, ofBe_toBe_of_lt hcount, ofBe_toBe_of_lt hindex, ofBe_toBe_of_lt htx,
    UInt16.ofNat_toNat, UInt32.ofNat_toNat, UInt32.ofNat_toNat, Nat.add_sub_cancel' hge]

end ShardHeader

/-- `wrapping_cmp`: which of two packet indices is later, on the circle of 32-bit
numbers. -/
def wrappingCmp (lhs rhs : UInt32) : Ordering :=
  let diff := lhs - rhs
  if diff = 0 then .eq
  else if diff < 2147483647 then .gt
  else .lt

/-- `ConnectionError`. -/
inductive ConnectionError
  | tryAgain
  | other (reason : String)
deriving DecidableEq, Repr

/-- The reading end of the channel: the messages not yet read, oldest first, of
which the first may have been moved to `buffer` by a peek. The channel is never
closed, because the socket holds its sending end too. -/
structure BufferedReceiver where
  receiver : List Bytes
  buffer : Option Bytes
deriving DecidableEq, Repr

namespace BufferedReceiver

/-- A channel without messages. -/
def empty : BufferedReceiver := ⟨[], none⟩

/-- `send_shared` on the sending end. -/
def sendShared (r : BufferedReceiver) (message : Bytes) : BufferedReceiver :=
  { r with receiver := r.receiver ++ [message] }

/-- `recv` into a slice of `room` bytes, with the bytes copied there. A message
taken from the queue that does not fit is lost; one that was peeked at stays. -/
def recv (r : BufferedReceiver) (room : Nat) :
    Except ConnectionError Bytes × BufferedReceiver :=
  match r.buffer with
  | some data =>
    if data.length ≤ room then (.ok data, { r with buffer := none })
    else (.error (.other "Buffer too small"), r)
  | none =>
    match r.receiver with
    | data :: rest =>
      if data.length ≤ room then (.ok data, { r with receiver := rest })
      else (.error (.other "Buffer too small"), { r with receiver := rest })
    -- nothing to read is no error
    | [] => (.ok [], r)

/-- `peek_prefix` into a slice of `len` bytes: the length of the next message and
the bytes copied. -/
def peekPrefix (r : BufferedReceiver) (len maxLen : Nat) :
    Except ConnectionError (Nat × Bytes) × BufferedReceiver :=
  let r := match r.buffer, r.receiver with
    | none, data :: rest => { r with receiver := rest, buffer := some data }
    | _, _ => r
  match r.buffer with
  | none => (.ok (0, []), r)
  | some data =>
    if maxLen < data.length then (.error (.other "Buffer too small"), r)
    else (.ok (data.length, data.take len), r)

end BufferedReceiver

end SiestaVR.Stream
