import SiestaVR.Lib.Bytes
import SiestaVR.Stream.Wire
import Mathlib.Data.List.Forall2

/-!
# Control messages (lib/alvr_control_socket.rs:20–104)

A control packet is sent behind its length, in a buffer that is kept from one packet to the
next. The buffer only grows and is always sent whole, so behind a packet that is shorter than
an earlier one the message still has bytes of that one. The receiver takes as many bytes as
the length says.

What `bincode` does is a `Codec`, and the channel is open. A length has 32 bits.
-/

namespace SiestaVR.Stream

open Lib

/-- `FRAMED_PREFIX_LENGTH`. -/
def framedPrefixLength : Nat := 4

/-- `bincode::ErrorKind`, of which `framed_recv_vec` makes one itself. -/
inductive FramedError
  | sizeLimit
  | deserialize
deriving DecidableEq, Repr

section Socket

variable {S : Type} (codec : Codec S)

/-- `framed_send`: the message and the buffer that is kept. -/
def framedSend (buffer : Bytes) (packet : S) : Bytes × Bytes :=
  let serializedSize := codec.size packet
  let packetSize := serializedSize + framedPrefixLength
  let buffer := grow buffer packetSize 0
  let buffer := splice buffer 0 (toBe framedPrefixLength serializedSize)
  let buffer := splice buffer framedPrefixLength (codec.serialize packet)
  (buffer, buffer)

/-- `framed_recv_vec`. -/
def framedRecvVec (buffer : Bytes) : Except FramedError S :=
  if buffer.length < framedPrefixLength then .error .sizeLimit
  else
    let packetLength := framedPrefixLength + ofBe (slice buffer 0 framedPrefixLength)
    if buffer.length < packetLength then .error .sizeLimit
    else
      match codec.deserialize
        (slice buffer framedPrefixLength (packetLength - framedPrefixLength)) with
      | some packet => .ok packet
      | none => .error .deserialize

/-- `ControlSocketSender`, with the messages that are in the channel. -/
structure ControlSocketSender where
  inner : List Bytes := []
  buffer : Bytes := []

/-- `ControlSocketSender::send`. -/
def ControlSocketSender.send (s : ControlSocketSender) (packet : S) : ControlSocketSender :=
  let (message, buffer) := framedSend codec s.buffer packet
  ⟨s.inner ++ [message], buffer⟩

end Socket

/-! ## One message -/

/-- Growing a buffer leaves nothing behind the room that is needed but what was there. -/
theorem drop_grow (buffer : Bytes) (n : Nat) : (grow buffer n 0).drop n = buffer.drop n := by
  rcases Nat.le_total n buffer.length with hlong | hshort
  · rw [grow, Nat.sub_eq_zero_of_le hlong, List.replicate_zero, List.append_nil]
  · have hlength : (grow buffer n 0).length ≤ n := by
      rw [length_grow]
      omega
    rw [List.drop_eq_nil_of_le hlength, List.drop_eq_nil_of_le hshort]

section Message

variable {S : Type} (codec : Codec S)

/-- **A message** is the length, the packet, and what the buffer held behind them. -/
theorem framedSend_eq (buffer : Bytes) (packet : S) :
    (framedSend codec buffer packet).1 =
      toBe framedPrefixLength (codec.size packet) ++ (codec.serialize packet ++
        buffer.drop (framedPrefixLength + codec.size packet)) := by
  have hlength := length_toBe framedPrefixLength (codec.size packet)
  have hsize : (codec.serialize packet).length = codec.size packet := rfl
  show splice (splice (grow buffer (codec.size packet + framedPrefixLength) 0) 0
    (toBe framedPrefixLength (codec.size packet))) framedPrefixLength (codec.serialize packet) = _
  rw [← drop_grow buffer (framedPrefixLength + codec.size packet),
    Nat.add_comm (codec.size packet)]
  generalize grow buffer (framedPrefixLength + codec.size packet) 0 = grown
  -- the length goes to the front, the packet right behind it
  have hfront : splice grown 0 (toBe framedPrefixLength (codec.size packet))
      = toBe framedPrefixLength (codec.size packet) ++ grown.drop framedPrefixLength := by
    rw [splice, List.take_zero, List.nil_append, Nat.zero_add, hlength]
  have hbehind : (toBe framedPrefixLength (codec.size packet) ++
      grown.drop framedPrefixLength).drop (framedPrefixLength + codec.size packet)
      = grown.drop (framedPrefixLength + codec.size packet) := by
    rw [← List.drop_drop, List.drop_left' hlength, List.drop_drop]
  rw [hfront, splice, List.take_left' hlength, hsize, hbehind, List.append_assoc]

variable {codec} {packet : S}

theorem ofBe_length (h : codec.size packet < 2 ^ 32) (rest : Bytes) :
    ofBe (slice (toBe framedPrefixLength (codec.size packet) ++ rest) 0 framedPrefixLength)
      = codec.size packet := by
  rw [slice, List.drop_zero, List.take_left' (length_toBe _ _), ofBe_toBe_of_lt h]

/-- **Receiving**: what follows the packet does not matter. -/
theorem framedRecvVec_eq (h : codec.size packet < 2 ^ 32) (rest : Bytes) :
    framedRecvVec codec (toBe framedPrefixLength (codec.size packet) ++
      (codec.serialize packet ++ rest)) = .ok packet := by
  have hlength : (toBe framedPrefixLength (codec.size packet) ++
      (codec.serialize packet ++ rest)).length
      = framedPrefixLength + (codec.size packet + rest.length) := by
    rw [List.length_append, List.length_append, length_toBe]
    rfl
  have hpacket : slice (toBe framedPrefixLength (codec.size packet) ++
      (codec.serialize packet ++ rest)) framedPrefixLength (codec.size packet)
      = codec.serialize packet := by
    rw [slice, List.drop_left' (length_toBe _ _)]
    exact List.take_left
  have hread := codec.deserialize_serialize packet []
  rw [List.append_nil] at hread
  rw [framedRecvVec, if_neg (by omega)]
  dsimp only
  rw [ofBe_length h, if_neg (by omega), Nat.add_sub_cancel_left, hpacket, hread]

/-- **A message cut off** inside its packet is refused. -/
theorem framedRecvVec_take (h : codec.size packet < 2 ^ 32) (rest : Bytes) {n : Nat}
    (hn : n < framedPrefixLength + codec.size packet) :
    framedRecvVec codec ((toBe framedPrefixLength (codec.size packet) ++ rest).take n)
      = .error .sizeLimit := by
  have hshort : ((toBe framedPrefixLength (codec.size packet) ++ rest).take n).length ≤ n :=
    List.length_take_le _ _
  unfold framedRecvVec
  split
  · rfl
  · rename_i hlong
    -- the length itself is complete, so it asks for more than there is
    have hle : framedPrefixLength ≤ n := by omega
    have hsame : (toBe framedPrefixLength (codec.size packet) ++ rest).take n
        = toBe framedPrefixLength (codec.size packet) ++ rest.take (n - framedPrefixLength) := by
      rw [List.take_append, length_toBe, List.take_of_length_le (by rwa [length_toBe])]
    dsimp only
    rw [if_pos]
    rw [hsame, ofBe_length h, ← hsame]
    omega

end Message

/-! ## All messages of a sender -/

/-- A message from which a packet is received, and from no part of it that ends before the
packet does. -/
structure Delivers {S : Type} (codec : Codec S) (packet : S) (message : Bytes) : Prop where
  whole : framedRecvVec codec message = .ok packet
  cut : ∀ n < framedPrefixLength + codec.size packet, ∀ p,
    framedRecvVec codec (message.take n) ≠ .ok p

theorem delivers_framedSend {S : Type} {codec : Codec S} {packet : S}
    (h : codec.size packet < 2 ^ 32) (buffer : Bytes) :
    Delivers codec packet (framedSend codec buffer packet).1 := by
  rw [framedSend_eq]
  constructor
  · exact framedRecvVec_eq h _
  · intro n hn p
    rw [framedRecvVec_take h _ hn]
    intro herror
    cases herror

/-- **Every message** sent, whatever the buffer held before. -/
theorem delivers_foldl_send {S : Type} (codec : Codec S) (packets : List S)
    (h : ∀ p ∈ packets, codec.size p < 2 ^ 32) (s : ControlSocketSender) :
    ∃ messages, (packets.foldl (ControlSocketSender.send codec) s).inner = s.inner ++ messages ∧
      List.Forall₂ (Delivers codec) packets messages := by
  induction packets generalizing s with
  | nil => exact ⟨[], (List.append_nil _).symm, .nil⟩
  | cons packet packets ih =>
    obtain ⟨messages, hinner, hall⟩ := ih (fun p hp => h p (.tail _ hp)) (s.send codec packet)
    refine ⟨(framedSend codec s.buffer packet).1 :: messages, ?_,
      .cons (delivers_framedSend (h packet List.mem_cons_self) s.buffer) hall⟩
    rw [List.foldl_cons, hinner]
    show (s.inner ++ [(framedSend codec s.buffer packet).1]) ++ messages = _
    rw [List.append_assoc]
    rfl

/-- For every sequence of control packets of fewer than `2 ^ 32` bytes each, sent through one
sender that reuses its buffer, each message gives back the packet that was sent, and no part
of it that ends before the packet does gives any. -/
theorem framed_round_trip {S : Type} (codec : Codec S) (packets : List S)
    (h : ∀ p ∈ packets, codec.size p < 2 ^ 32) :
    List.Forall₂ (fun packet message =>
        framedRecvVec codec message = .ok packet ∧
        ∀ n < framedPrefixLength + codec.size packet, ∀ p,
          framedRecvVec codec (message.take n) ≠ .ok p)
      packets (packets.foldl (ControlSocketSender.send codec) {}).inner := by
  obtain ⟨messages, hinner, hall⟩ := delivers_foldl_send codec packets h {}
  rw [hinner]
  exact hall.imp fun _ _ hd => ⟨hd.whole, hd.cut⟩

/-- Two packets of different sizes. -/
def twoSizes : Codec Bool where
  serialize b := if b then [1, 8, 9] else [0]
  deserialize bs := bs.head?.map (· == 1)
  deserialize_serialize b rest := by
    cases b <;> rfl

/-- The second message still has the end of the first packet. -/
theorem framed_round_trip_stale :
    ([true, false].foldl (ControlSocketSender.send twoSizes) {}).inner
      = [[0, 0, 0, 3, 1, 8, 9], [0, 0, 0, 1, 0, 8, 9]] ∧
    List.Forall₂ (fun packet message =>
        framedRecvVec twoSizes message = .ok packet ∧
        ∀ n < framedPrefixLength + twoSizes.size packet, ∀ p,
          framedRecvVec twoSizes (message.take n) ≠ .ok p)
      [true, false] ([true, false].foldl (ControlSocketSender.send twoSizes) {}).inner :=
  ⟨by decide, framed_round_trip twoSizes [true, false] (by decide)⟩

end SiestaVR.Stream
