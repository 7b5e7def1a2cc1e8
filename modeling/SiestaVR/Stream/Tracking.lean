import SiestaVR.Lib.Runs
import SiestaVR.Stream.Client
import SiestaVR.Stream.Sender

/-!
# Tracking packets (lib/nada_report.rs, lib/alvr_stream_socket.rs:1374–1384, 3011–3031,
3470–3504, lib/models_XR.rs:4023–4044, 4113–4122, 5896–5915, 5969–6035)

The client sends its tracking data in a packet of one shard: the prefix, then the `Tracking`
as `bincode` serialises it, then in some packets a report for NADA. Nothing in the packet says
whether there is a report. The server reads the `Tracking`, measures how long it was and looks
for a report behind it.

- The buffer is one that was sent before, if there is one. It is cleared and filled with
  zeros, and only the part that has been written is sent.
- The client takes the message from the channel and cuts it to the length in its prefix. The
  server reads it once for the report and once more, in a larger buffer, for the tracking data.
- What `bincode` does is a `Codec`. The floats of a report are their bit patterns.

`tracking_round_trip` says that the server gets the tracking data and the report that were
sent, and no report if none was; `delivered_of_carries` follows any sequence of packets.
-/

namespace SiestaVR.Stream

open Lib

/-! ## Reports -/

/-- `NadaTimerReport`. -/
structure NadaTimerReport where
  seq : UInt32
  xcurr : UInt64
  rmode : Int8
  recv : Int64
  plr : UInt64
  dTilde : UInt64
  dQueue : Int64
deriving DecidableEq

namespace NadaTimerReport

/-- `MAGIC`: NAD2. -/
def magic : Bytes := [0x4E, 0x41, 0x44, 0x32]

/-- `LEN`. -/
def len : Nat := 49

/-- The fields in the order of their bytes. -/
def fields (r : NadaTimerReport) : List Bytes :=
  [magic, toLe 4 r.seq.toNat, toLe 8 r.xcurr.toNat, toLe 1 r.rmode.toUInt8.toNat,
    toLe 8 r.recv.toUInt64.toNat, toLe 8 r.plr.toNat, toLe 8 r.dTilde.toNat,
    toLe 8 r.dQueue.toUInt64.toNat]

def encode (r : NadaTimerReport) : Bytes := r.fields.flatten

/-- `decode`: the report at the start of the bytes, if there is one. -/
def decode (b : Bytes) : Option NadaTimerReport :=
  if b.length < len ∨ slice b 0 4 ≠ magic then none
  else some
    { seq := .ofNat (ofLe (slice b 4 4))
      xcurr := .ofNat (ofLe (slice b 8 8))
      rmode := (UInt8.ofNat (ofLe (slice b 16 1))).toInt8
      recv := (UInt64.ofNat (ofLe (slice b 17 8))).toInt64
      plr := .ofNat (ofLe (slice b 25 8))
      dTilde := .ofNat (ofLe (slice b 33 8))
      dQueue := (UInt64.ofNat (ofLe (slice b 41 8))).toInt64 }

@[simp] theorem length_encode (r : NadaTimerReport) : r.encode.length = len := by
  simp [encode, fields, magic, len]

/-- **Report round trip**, whatever follows the report. -/
theorem decode_encode (r : NadaTimerReport) (rest : Bytes) :
    decode (r.encode ++ rest) = some r := by
  have hfield := fun i (h : i < 8) => slice_flatten r.fields rest (i := i) h
  have h₀ : slice (r.encode ++ rest) 0 4 = magic := hfield 0 (by decide)
  have h₁ : slice (r.encode ++ rest) 4 4 = toLe 4 r.seq.toNat := hfield 1 (by decide)
  have h₂ : slice (r.encode ++ rest) 8 8 = toLe 8 r.xcurr.toNat := hfield 2 (by decide)
  have h₃ : slice (r.encode ++ rest) 16 1 = toLe 1 r.rmode.toUInt8.toNat := hfield 3 (by decide)
  have h₄ : slice (r.encode ++ rest) 17 8 = toLe 8 r.recv.toUInt64.toNat := hfield 4 (by decide)
  have h₅ : slice (r.encode ++ rest) 25 8 = toLe 8 r.plr.toNat := hfield 5 (by decide)
  have h₆ : slice (r.encode ++ rest) 33 8 = toLe 8 r.dTilde.toNat := hfield 6 (by decide)
  have h₇ : slice (r.encode ++ rest) 41 8 = toLe 8 r.dQueue.toUInt64.toNat :=
    hfield 7 (by decide)
  have hlong : ¬ ((r.encode ++ rest).length < len ∨ slice (r.encode ++ rest) 0 4 ≠ magic) := by
    rw [h₀, List.length_append, length_encode]
    simp
  have hword : ∀ x : UInt64, UInt64.ofNat (ofLe (toLe 8 x.toNat)) = x := fun x => by
    rw [ofLe_toLe_of_lt x.toNat_lt, UInt64.ofNat_toNat]
  rw [decode, if_neg hlong, h₁, h₂, h₃, h₄, h₅, h₆, h₇, hword, hword, hword, hword, hword,
    ofLe_toLe_of_lt r.seq.toNat_lt, ofLe_toLe_of_lt r.rmode.toUInt8.toNat_lt, UInt32.ofNat_toNat,
    UInt8.ofNat_toNat, Int8.toInt8_toUInt8, Int64.toInt64_toUInt64, Int64.toInt64_toUInt64]

theorem decode_nil : decode [] = none := rfl

end NadaTimerReport

/-! ## The client -/

section Client

variable {H : Type} (codec : Codec H)

namespace StreamSender

/-- `get_buffer_tracking`. -/
def getBufferTracking (s : StreamSender) (header : H) : Buffer × StreamSender :=
  -- the buffer of a packet sent before, cleared: it keeps nothing but its allocation
  let buffer := (s.usedBuffers.getLast?.getD []).take 0
  let s := { s with usedBuffers := s.usedBuffers.dropLast }
  let buffer := grow buffer 1000 0
  let hiddenOffset := shardPrefixSize + codec.size header
  let buffer := grow buffer hiddenOffset 0
  (⟨splice buffer shardPrefixSize (codec.serialize header), hiddenOffset, 0⟩, s)

/-- `send_header_tracking`. -/
def sendHeaderTracking (secsF32 : Nat → UInt32) (s : StreamSender) (header : H) (now : Nat) :
    Option (List Bytes × StreamSender) :=
  let (buffer, s) := s.getBufferTracking codec header
  s.send secsF32 buffer now

/-- `send_header_tracking_with`. No result: there is no room for `extra`. -/
def sendHeaderTrackingWith (secsF32 : Nat → UInt32) (s : StreamSender) (header : H) (now : Nat)
    (extra : Bytes) : Option (List Bytes × StreamSender) :=
  let (buffer, s) := s.getBufferTracking codec header
  let start := buffer.hiddenOffset
  if buffer.inner.length < start + extra.length then none
  else
    s.send secsF32
      { buffer with
        inner := splice buffer.inner start extra
        hiddenOffset := start + extra.length } now

/-- How `generate_tracking_data` sends the tracking data, with a report when there is one. -/
def sendTracking (secsF32 : Nat → UInt32) (s : StreamSender) (track : H) (now : Nat) :
    Option NadaTimerReport → Option (List Bytes × StreamSender)
  | some report => s.sendHeaderTrackingWith codec secsF32 track now report.encode
  | none => s.sendHeaderTracking codec secsF32 track now

end StreamSender

/-- `parse_shard_data`. No result: the message is too short. -/
def parseShardData (data : Bytes) : Option ShardHeader :=
  if data.length < shardPrefixSize then none else some (.decode data)

/-- `exact_len_payload`. -/
def exactLenPayload (data : Bytes) (len : Nat) : Bytes :=
  if data.length = len then data
  else if len < data.length then data.take len
  else grow data len 0

/-- What `read_app_send_network_interface` makes of a message. -/
def toMpduPacket (data : Bytes) : Option MpduPacket :=
  (parseShardData (data.take 100)).map fun header =>
    ⟨header.streamId, exactLenPayload data header.shardLength⟩

/-! ## The server -/

/-- `decode_tracking_from_bytes`. -/
def decodeTrackingFromBytes (buf : Bytes) : Option H :=
  if buf.length < shardPrefixSize then none else codec.deserialize (buf.drop shardPrefixSize)

/-- The report that `nada_timer_report` finds. -/
def nadaTimerReport (buf : Bytes) : Option NadaTimerReport :=
  (decodeTrackingFromBytes codec buf).bind fun track =>
    let start := shardPrefixSize + codec.size track
    if buf.length < start then none else NadaTimerReport.decode (buf.drop start)

/-- A tracking packet in `in_from_network`, with NADA at level 2: the tracking data and the
report that are read, and the channel. -/
def receiveTracking (channel : BufferedReceiver) (buffer : Bytes) :
    (Option H × Option NadaTimerReport) × BufferedReceiver :=
  let report := nadaTimerReport codec buffer
  let (received, channel) := (channel.sendShared buffer).recv maxPacketSizeRecv
  let newBuffer := List.replicate maxPacketSizeRecv 0
  let newBuffer :=
    match received with
    | .ok data => splice newBuffer 0 data
    | .error _ => newBuffer
  ((decodeTrackingFromBytes codec newBuffer, report), channel)

end Client

/-! ## One packet -/

/-- A packet with `n` bytes behind the prefix fits the buffer and one shard. -/
structure StreamSender.Carries (s : StreamSender) (n : Nat) : Prop where
  buffer : shardPrefixSize + n ≤ 1000
  shard : shardPrefixSize + n ≤ s.maxPacketSize

/-- What the bytes of a tracking packet are behind the prefix. -/
def trackingBody {H : Type} (codec : Codec H) (track : H) (report : Option NadaTimerReport) :
    Bytes :=
  codec.serialize track ++ report.elim [] NadaTimerReport.encode

namespace StreamSender

variable {H : Type} (codec : Codec H) {s : StreamSender} {track : H}

/-- The buffer of the tracking data has them behind the prefix, and room for more. -/
theorem getBufferTracking_spec (h : s.Carries (codec.size track)) :
    ∃ inner s', s.getBufferTracking codec track =
        (⟨inner, shardPrefixSize + codec.size track, 0⟩, s') ∧
      inner.length = 1000 ∧ slice inner shardPrefixSize (codec.size track) =
        codec.serialize track ∧
      s'.maxPacketSize = s.maxPacketSize ∧ s'.streamId = s.streamId := by
  set zeros : Bytes := grow (grow ((s.usedBuffers.getLast?.getD []).take 0) 1000 0)
    (shardPrefixSize + codec.size track) 0 with hzeros
  have hlen : zeros.length = 1000 := by
    have := h.buffer
    rw [hzeros, length_grow, length_grow, List.take_zero]
    simp only [List.length_nil]
    omega
  have hfit : shardPrefixSize + 0 + (codec.serialize track).length ≤ zeros.length := by
    rw [hlen]
    exact h.buffer
  refine ⟨splice zeros shardPrefixSize (codec.serialize track),
    { s with usedBuffers := s.usedBuffers.dropLast }, rfl, ?_, ?_, rfl, rfl⟩
  · exact (length_splice hfit).trans hlen
  · have hwritten := slice_splice_append hfit
    rw [Nat.zero_add] at hwritten
    exact hwritten.trans (List.nil_append _)

theorem send_frame {secsF32 : Nat → UInt32} {buffer : Buffer} {now : Nat} {s' : StreamSender}
    {messages : List Bytes} (h : s.send secsF32 buffer now = some (messages, s')) :
    s'.maxPacketSize = s.maxPacketSize ∧ s'.streamId = s.streamId := by
  unfold send at h
  split at h
  · cases h
  dsimp only at h
  split at h
  · cases h
  obtain ⟨r, -, heq⟩ := Option.map_eq_some_iff.1 h
  cases heq
  exact ⟨rfl, rfl⟩

/-- A packet of one shard: its prefix, then what is in the buffer behind it. -/
theorem send_single (secsF32 : Nat → UInt32) {buffer : Buffer} {n : Nat} (hn : 0 < n)
    (hsize : buffer.actualSize = shardPrefixSize + n)
    (hroom : buffer.actualSize ≤ buffer.inner.length) (h : s.Carries n) (now : Nat) :
    ∃ (header : ShardHeader) (s' : StreamSender), s.send secsF32 buffer now =
        some ([header.encode ++ slice buffer.inner shardPrefixSize n], s') ∧
      header.Fits ∧ header.shardLength = shardPrefixSize + n ∧ header.streamId = s.streamId := by
  obtain ⟨hbuffer, hshard⟩ := h
  have hmax : shardPrefixSize < s.maxPacketSize := by omega
  -- There is something to send, and it fits one shard.
  have hcount : s.shardsFor buffer = 1 := by
    rw [shardsFor, hsize, Nat.add_sub_cancel_left]
    refine Nat.le_antisymm (Nat.not_lt.1 fun hmore => ?_) ((lt_shardsNeeded hmax).2 (by omega))
    have hover := (lt_shardsNeeded hmax).1 hmore
    unfold maxShardDataSize at hover
    omega
  have hlength : packetLength s.maxPacketSize buffer.actualSize 0 = shardPrefixSize + n := by
    rw [packetLength, hsize, Nat.zero_mul, Nat.sub_zero]
    exact Nat.min_eq_right hshard
  set stamp := secsF32 (now - s.refTime) with hstamp
  obtain ⟨s', hs'⟩ := send_eq secsF32 hmax (by omega) hroom now
  refine ⟨s.headerFor stamp buffer 0, s', ?_, ⟨?_, ?_, ?_, ?_⟩, hlength, rfl⟩
  · rw [hs', hcount]
    show some ([s.shard stamp buffer 0], s') = _
    rw [shard, hlength, Nat.zero_mul, Nat.zero_add, Nat.add_sub_cancel_left]
  · show 4 ≤ packetLength s.maxPacketSize buffer.actualSize 0
    rw [hlength]
    exact Nat.le_add_right_of_le (by decide)
  · show packetLength s.maxPacketSize buffer.actualSize 0 < 2 ^ 32
    rw [hlength]
    exact Nat.lt_of_le_of_lt hbuffer (by decide)
  · show s.shardsFor buffer < 2 ^ 32
    rw [hcount]
    decide
  · exact Nat.two_pow_pos 32

/-- What is handed to `send`: a buffer with the body behind the prefix, with the report if there
is one. -/
theorem sendTracking_eq_send (secsF32 : Nat → UInt32) {report : Option NadaTimerReport}
    (h : s.Carries (trackingBody codec track report).length) (now : Nat) :
    ∃ (buffer : Buffer) (s₁ : StreamSender),
      s.sendTracking codec secsF32 track now report = s₁.send secsF32 buffer now ∧
      s₁.maxPacketSize = s.maxPacketSize ∧ s₁.streamId = s.streamId ∧
      buffer.actualSize = shardPrefixSize + (trackingBody codec track report).length ∧
      buffer.inner.length = 1000 ∧
      slice buffer.inner shardPrefixSize (trackingBody codec track report).length =
        trackingBody codec track report := by
  have hsize : codec.size track ≤ (trackingBody codec track report).length := by
    rw [trackingBody, List.length_append]
    exact Nat.le_add_right _ _
  have htrack : s.Carries (codec.size track) :=
    ⟨(Nat.add_le_add_left hsize _).trans h.buffer, (Nat.add_le_add_left hsize _).trans h.shard⟩
  obtain ⟨inner, s₁, hget, hlen, hinner, hmax, hid⟩ := getBufferTracking_spec codec htrack
  cases report with
  | none =>
    have hbody : trackingBody codec track none = codec.serialize track := List.append_nil _
    refine ⟨⟨inner, shardPrefixSize + codec.size track, 0⟩, s₁, ?_, hmax, hid, ?_, hlen, ?_⟩
    · show (s.getBufferTracking codec track).2.send secsF32
        (s.getBufferTracking codec track).1 now = _
      rw [hget]
    · rw [hbody]
      rfl
    · rw [hbody]
      exact hinner
  | some r =>
    -- The report is written right behind the tracking data, within the buffer.
    have hbody : (trackingBody codec track (some r)).length =
        codec.size track + r.encode.length := List.length_append
    have hfit : shardPrefixSize + codec.size track + r.encode.length ≤ inner.length := by
      have := h.buffer
      omega
    refine ⟨⟨splice inner (shardPrefixSize + codec.size track) r.encode,
      shardPrefixSize + codec.size track + r.encode.length, 0⟩, s₁, ?_, hmax, hid, ?_, ?_, ?_⟩
    · show s.sendHeaderTrackingWith codec secsF32 track now r.encode = _
      unfold sendHeaderTrackingWith
      rw [hget]
      exact if_neg (Nat.not_lt.2 hfit)
    · rw [hbody, ← Nat.add_assoc]
      rfl
    · rw [length_splice hfit, hlen]
    · rw [hbody, slice_splice_append hfit, hinner]
      rfl

/-- **What is sent**: one message, the prefix and the body. -/
theorem sendTracking_spec [Nontrivial H] (secsF32 : Nat → UInt32)
    {report : Option NadaTimerReport} (h : s.Carries (trackingBody codec track report).length)
    (now : Nat) :
    ∃ (header : ShardHeader) (s' : StreamSender), s.sendTracking codec secsF32 track now report =
        some ([header.encode ++ trackingBody codec track report], s') ∧
      header.Fits ∧
      header.shardLength = shardPrefixSize + (trackingBody codec track report).length ∧
      header.streamId = s.streamId ∧ s'.maxPacketSize = s.maxPacketSize := by
  obtain ⟨buffer, s₁, hsend, hmax, hid, hactual, hroom, hbody⟩ :=
    sendTracking_eq_send codec secsF32 h now
  have hpos : 0 < (trackingBody codec track report).length := by
    rw [trackingBody, List.length_append]
    exact Nat.add_pos_left (codec.size_pos track) _
  have hcarries : s₁.Carries (trackingBody codec track report).length :=
    ⟨h.buffer, hmax ▸ h.shard⟩
  have hle : buffer.actualSize ≤ buffer.inner.length := by
    rw [hactual, hroom]
    exact h.buffer
  obtain ⟨header, s', hs', hfits, hheader, hstream⟩ :=
    send_single secsF32 hpos hactual hle hcarries now
  rw [hbody] at hs'
  exact ⟨header, s', hsend.trans hs', hfits, hheader, hstream.trans hid,
    (send_frame hs').1.trans hmax⟩

end StreamSender

/-- **What the network carries**: the message, for the stream in its prefix. -/
theorem toMpduPacket_shard {header : ShardHeader} (hfits : header.Fits) {body : Bytes}
    (hlength : header.shardLength = shardPrefixSize + body.length) :
    toMpduPacket (header.encode ++ body) = some ⟨header.streamId, header.encode ++ body⟩ := by
  have htake : (header.encode ++ body).take 100 = header.encode ++ body.take 78 := by
    rw [List.take_append, List.take_of_length_le (by rw [ShardHeader.length_encode]; decide),
      ShardHeader.length_encode]
    rfl
  have hparse : parseShardData ((header.encode ++ body).take 100) = some header := by
    rw [htake, parseShardData, if_neg, ShardHeader.decode_encode hfits]
    rw [List.length_append, ShardHeader.length_encode]
    omega
  have hexact : exactLenPayload (header.encode ++ body) header.shardLength =
      header.encode ++ body := by
    rw [exactLenPayload, if_pos]
    rw [List.length_append, ShardHeader.length_encode, hlength]
  rw [toMpduPacket, hparse, Option.map_some, hexact]

section Server

variable {H : Type} (codec : Codec H) {pre : Bytes} (hpre : pre.length = shardPrefixSize)
  (track : H) (report : Option NadaTimerReport)

include hpre

theorem decodeTrackingFromBytes_body (rest : Bytes) :
    decodeTrackingFromBytes codec (pre ++ trackingBody codec track report ++ rest) =
      some track := by
  rw [decodeTrackingFromBytes, if_neg, List.append_assoc, List.drop_left' hpre, trackingBody,
    List.append_assoc]
  · exact codec.deserialize_serialize track _
  · rw [List.append_assoc, List.length_append]
    omega

/-- The report is found behind the tracking data, and nothing is taken for one. -/
theorem nadaTimerReport_body :
    nadaTimerReport codec (pre ++ trackingBody codec track report) = report := by
  have htrack := decodeTrackingFromBytes_body codec hpre track report []
  rw [List.append_nil] at htrack
  have hstart : (pre ++ codec.serialize track).length = shardPrefixSize + codec.size track := by
    rw [List.length_append, hpre]
    rfl
  rw [nadaTimerReport, htrack, Option.bind_some]
  dsimp only
  rw [trackingBody, ← List.append_assoc, if_neg, List.drop_left' hstart]
  · cases report with
    | none => exact NadaTimerReport.decode_nil
    | some r =>
      have hread := r.decode_encode []
      rw [List.append_nil] at hread
      exact hread
  · rw [List.length_append, hstart]
    omega

/-- **What the server reads**. -/
theorem receiveTracking_body
    (hfits : (pre ++ trackingBody codec track report).length ≤ maxPacketSizeRecv) :
    receiveTracking codec .empty (pre ++ trackingBody codec track report) =
      ((some track, report), .empty) := by
  have hrecv : (BufferedReceiver.empty.sendShared (pre ++ trackingBody codec track report)).recv
      maxPacketSizeRecv = (.ok (pre ++ trackingBody codec track report), .empty) := if_pos hfits
  unfold receiveTracking
  rw [hrecv, nadaTimerReport_body codec hpre]
  dsimp only
  rw [splice, List.take_zero, List.nil_append, decodeTrackingFromBytes_body codec hpre]

end Server

/-- **From the client to the server**: what is sent is read, with the report if there is one. -/
theorem sendTracking_received {H : Type} [Nontrivial H] (codec : Codec H)
    (secsF32 : Nat → UInt32) {s : StreamSender} {track : H} {report : Option NadaTimerReport}
    (h : s.Carries (trackingBody codec track report).length) (now : Nat) :
    ∃ message s' packet, s.sendTracking codec secsF32 track now report = some ([message], s') ∧
      toMpduPacket message = some packet ∧ packet.streamId = s.streamId ∧
      receiveTracking codec .empty packet.dataInner = ((some track, report), .empty) ∧
      s'.maxPacketSize = s.maxPacketSize := by
  obtain ⟨header, s', hsend, hfits, hlength, hstream, hmax⟩ :=
    StreamSender.sendTracking_spec codec secsF32 h now
  refine ⟨_, s', _, hsend, toMpduPacket_shard hfits hlength, hstream, ?_, hmax⟩
  refine receiveTracking_body codec header.length_encode track report ?_
  rw [List.length_append, ShardHeader.length_encode]
  exact h.buffer.trans (by decide)

/-- **Tracking round trip**: with a report, the packet is sent, forwarded and read as the same
tracking data and the same report; without one it is read as the tracking data and no report.
The sender may have sent anything before, and reuse any buffer. -/
theorem tracking_round_trip {H : Type} [Nontrivial H] (codec : Codec H) (secsF32 : Nat → UInt32)
    (s : StreamSender) (track : H) (report : NadaTimerReport) (now : Nat) :
    (s.Carries (codec.size track + NadaTimerReport.len) → ∃ message s' packet,
      s.sendHeaderTrackingWith codec secsF32 track now report.encode = some ([message], s') ∧
      toMpduPacket message = some packet ∧ packet.streamId = s.streamId ∧
      receiveTracking codec .empty packet.dataInner = ((some track, some report), .empty)) ∧
    (s.Carries (codec.size track) → ∃ message s' packet,
      s.sendHeaderTracking codec secsF32 track now = some ([message], s') ∧
      toMpduPacket message = some packet ∧ packet.streamId = s.streamId ∧
      receiveTracking codec .empty packet.dataInner = ((some track, none), .empty)) := by
  constructor
  · intro h
    have hbody : (trackingBody codec track (some report)).length =
        codec.size track + NadaTimerReport.len := by
      rw [trackingBody, List.length_append]
      exact congrArg _ report.length_encode
    obtain ⟨message, s', packet, hsend, hpacket, hstream, hreceive, -⟩ :=
      sendTracking_received codec secsF32 (hbody.symm ▸ h) now
    exact ⟨message, s', packet, hsend, hpacket, hstream, hreceive⟩
  · intro h
    have hbody : (trackingBody codec track none).length = codec.size track := by
      rw [trackingBody, List.length_append]
      rfl
    obtain ⟨message, s', packet, hsend, hpacket, hstream, hreceive, -⟩ :=
      sendTracking_received codec secsF32 (hbody.symm ▸ h) now
    exact ⟨message, s', packet, hsend, hpacket, hstream, hreceive⟩

/-- Tracking data of one byte. -/
def byteCodec : Codec UInt8 where
  serialize b := [b]
  deserialize := List.head?
  deserialize_serialize _ _ := rfl

/-- A sender with packets of 100 bytes, whose last packet was a long one of the same kind. -/
def trackingSender : StreamSender where
  streamId := 0
  maxPacketSize := 100
  nextPacketIndex := 0
  usedBuffers := [List.replicate 1000 0x4E]
  shardsCount := 1
  refTime := 0

/-- A report with a negative queuing delay. -/
def smallReport : NadaTimerReport := ⟨7, 0, 1, 61000000, 0, 0, -3⟩

/-- Both packets are sent and read from the same used buffer. -/
theorem tracking_round_trip_reused :
    (∃ message s' packet,
      trackingSender.sendHeaderTrackingWith byteCodec (fun _ => 0) 5 0 smallReport.encode =
        some ([message], s') ∧
      toMpduPacket message = some packet ∧ packet.streamId = 0 ∧
      receiveTracking byteCodec .empty packet.dataInner =
        ((some 5, some smallReport), .empty)) ∧
    ∃ message s' packet,
      trackingSender.sendHeaderTracking byteCodec (fun _ => 0) 5 0 = some ([message], s') ∧
      toMpduPacket message = some packet ∧ packet.streamId = 0 ∧
      receiveTracking byteCodec .empty packet.dataInner = ((some 5, none), .empty) :=
  have : Nontrivial UInt8 := ⟨0, 1, by decide⟩
  have h := tracking_round_trip byteCodec (fun _ => 0) trackingSender 5 smallReport 0
  ⟨h.1 ⟨by decide, by decide⟩, h.2 ⟨by decide, by decide⟩⟩

/-! ## The stream -/

/-- A tracking packet to send: the data, the report if one is due, and when. -/
structure TrackingPacket (H : Type) where
  track : H
  report : Option NadaTimerReport
  now : Nat

/-- Both ends of the stream, and what the server has read. -/
structure TrackingStream (H : Type) where
  sender : StreamSender
  channel : BufferedReceiver
  received : List (Option H × Option NadaTimerReport)

namespace TrackingStream

variable {H : Type} (codec : Codec H) (secsF32 : Nat → UInt32)

/-- A packet of the network is read. -/
def receive (st : TrackingStream H) (packet : MpduPacket) : TrackingStream H :=
  let (read, channel) := receiveTracking codec st.channel packet.dataInner
  { st with channel := channel, received := st.received ++ [read] }

/-- A packet is sent, forwarded and read. -/
def step (st : TrackingStream H) (p : TrackingPacket H) : Option (TrackingStream H) :=
  (st.sender.sendTracking codec secsF32 p.track p.now p.report).map fun (messages, sender) =>
    (messages.filterMap toMpduPacket).foldl (receive codec) { st with sender := sender }

/-- So far all packets have been read as they were sent, nothing is left on the channel, and
the sender makes packets of the same size. -/
structure Delivered (s : StreamSender) (ps : List (TrackingPacket H)) (st : TrackingStream H) :
    Prop where
  size : st.sender.maxPacketSize = s.maxPacketSize
  channel : st.channel = .empty
  received : st.received = ps.map fun p => (some p.track, p.report)

variable {s : StreamSender} {ps : List (TrackingPacket H)}

/-- **Step**: one more packet. -/
theorem Delivered.step [Nontrivial H] {st : TrackingStream H} (h : st.Delivered s ps)
    {p : TrackingPacket H} (hp : s.Carries (trackingBody codec p.track p.report).length) :
    ∃ st', st.step codec secsF32 p = some st' ∧ st'.Delivered s (ps ++ [p]) := by
  obtain ⟨message, sender, packet, hsend, hpacket, -, hreceive, hsize⟩ :=
    sendTracking_received codec secsF32 (s := st.sender) ⟨hp.buffer, h.size ▸ hp.shard⟩ p.now
  refine ⟨receive codec { st with sender := sender } packet, ?_, hsize.trans h.size, ?_, ?_⟩
  · rw [TrackingStream.step, hsend, Option.map_some]
    dsimp only
    rw [List.filterMap_cons_some hpacket]
    rfl
  · show (receiveTracking codec st.channel packet.dataInner).2 = .empty
    rw [h.channel, hreceive]
  · show st.received ++ [(receiveTracking codec st.channel packet.dataInner).1] = _
    rw [h.channel, hreceive, h.received, List.map_append]
    rfl

/-- **The whole stream**: packets that fit are all read as they were sent, in order, with
buffers reused from packet to packet. -/
theorem delivered_of_carries [Nontrivial H]
    (h : ∀ p ∈ ps, s.Carries (trackingBody codec p.track p.report).length) :
    ∃ st, runs (step codec secsF32) ⟨s, .empty, []⟩ ps = some st ∧ st.Delivered s ps := by
  have hok : allOk (step codec secsF32)
      (fun _ p => s.Carries (trackingBody codec p.track p.report).length) ⟨s, .empty, []⟩ ps :=
    allOk_of_forall (fun p hp _ => h p hp) _
  refine exists_runs (P := fun ps st => st.Delivered s ps) ⟨rfl, rfl, rfl⟩ ?_ hok
  intro ps st p hst hp
  exact hst.step codec secsF32 hp

/-- A report with a packet, and a packet without one in the same used buffer. -/
theorem delivered_of_carries_two : ∃ st,
    runs (step byteCodec fun _ => 0) ⟨trackingSender, .empty, []⟩
      [⟨5, some smallReport, 0⟩, ⟨7, none, 1⟩] = some st ∧
        st.received = [(some 5, some smallReport), (some 7, none)] := by
  have : Nontrivial UInt8 := ⟨0, 1, by decide⟩
  have h : ∀ p ∈ ([⟨5, some smallReport, 0⟩, ⟨7, none, 1⟩] : List (TrackingPacket UInt8)),
      trackingSender.Carries (trackingBody byteCodec p.track p.report).length := by
    simp only [List.forall_mem_cons]
    exact ⟨⟨by decide, by decide⟩, ⟨by decide, by decide⟩, nofun⟩
  obtain ⟨st, hruns, hst⟩ := delivered_of_carries byteCodec (fun _ => 0) h
  exact ⟨st, hruns, hst.received⟩

end TrackingStream

end SiestaVR.Stream
