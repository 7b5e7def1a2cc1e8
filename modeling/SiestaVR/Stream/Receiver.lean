import SiestaVR.Lib.Runs
import SiestaVR.Stream.Wire

/-!
# The reading end of a channel as a queue (lib/alvr_stream_socket.rs:1343–1369, 1419–1527)

`BufferedReceiver` implements `SocketReader` over a channel: `recv` takes the next
message, `peek` looks at it by moving it into a one-slot buffer, and `peek_prefix`
and `recv_shared` have an implementation of their own besides the default one of
the trait. `ChannelReceiver` is the receiver of `Stream.Wire` on a channel whose
sending ends may all be gone.

What a reader wants is `Fifo`: the messages sent and not yet read, in order. The
buffered message and then the channel are such a queue (`ChannelReceiver.pending`),
and every operation acts on it as the queue's own operation does, with two
exceptions. `recv` loses a message that it takes from the channel and that does not
fit, although the same message, had it been peeked at, would have been put back. And
`recv_shared` differs from its default for an empty message (the default reads it
and reports that nothing is queued) and for one longer than the default's buffer.
`buffered_receiver_refines_fifo` says that there is no third.
-/

namespace SiestaVR.Stream

open Lib

/-- The error of a slice too short for the next message. -/
def bufferTooSmall : ConnectionError := .other "Buffer too small"

/-- The error of a channel that is empty and will stay so. -/
def channelDisconnected : ConnectionError := .other "Channel disconnected"

/-- `TryRecvError`. -/
inductive TryRecvError
  | empty
  | disconnected
deriving DecidableEq, Repr

/-- A `BufferedReceiver`, and whether its channel has a sending end left. -/
structure ChannelReceiver extends BufferedReceiver where
  connected : Bool
deriving DecidableEq, Repr

namespace ChannelReceiver

/-- `buffered_channel`. -/
def new : ChannelReceiver := ⟨.empty, true⟩

variable (c : ChannelReceiver)

/-- `send` or `send_shared` on a sending end. -/
def send (message : Bytes) : ChannelReceiver := { c with receiver := c.receiver ++ [message] }

/-- `Receiver::try_recv`. -/
def tryRecv : Except TryRecvError Bytes × ChannelReceiver :=
  match c.receiver with
  | data :: rest => (.ok data, { c with receiver := rest })
  | [] => (.error (if c.connected then .empty else .disconnected), c)

/-- `recv` into a slice of `room` bytes; the bytes copied there are the result. -/
def recv (room : Nat) : Except ConnectionError Bytes × ChannelReceiver :=
  match c.buffer with
  | some data =>
    if data.length ≤ room then (.ok data, { c with buffer := none })
    else (.error bufferTooSmall, { c with buffer := some data })
  | none =>
    match c.tryRecv with
    | (.ok data, c) =>
      -- the message has left the channel, and nothing puts it back
      (if data.length ≤ room then .ok data else .error bufferTooSmall, c)
    | (.error .empty, c) => (.ok [], c)
    | (.error .disconnected, c) => (.error channelDisconnected, c)

/-- The first half of both peeks: have the next message in the buffer. -/
def fill : Except ConnectionError (Option Bytes) × ChannelReceiver :=
  match c.buffer with
  | some data => (.ok (some data), c)
  | none =>
    match c.tryRecv with
    | (.ok data, c) => (.ok (some data), { c with buffer := some data })
    | (.error .empty, c) => (.ok none, c)
    | (.error .disconnected, c) => (.error channelDisconnected, c)

/-- `peek` into a slice of `room` bytes; the bytes copied there are the result. -/
def peek (room : Nat) : Except ConnectionError Bytes × ChannelReceiver :=
  match c.fill with
  | (.ok (some data), c) =>
    (if data.length ≤ room then .ok data else .error bufferTooSmall, c)
  | (.ok none, c) => (.ok [], c)
  | (.error e, c) => (.error e, c)

/-- `peek_prefix` into a slice of `len` bytes: the length of the next message and the
bytes copied. -/
def peekPrefix (len maxLen : Nat) : Except ConnectionError (Nat × Bytes) × ChannelReceiver :=
  match c.fill with
  | (.ok (some data), c) =>
    if maxLen < data.length then (.error bufferTooSmall, c)
    else (.ok (data.length, data.take (min data.length len)), c)
  | (.ok none, c) => (.ok (0, []), c)
  | (.error e, c) => (.error e, c)

/-- `recv_shared`: the next message whatever its length. -/
def recvShared : Except ConnectionError (Option Bytes) × ChannelReceiver :=
  match c.buffer with
  | some data => (.ok (some data), { c with buffer := none })
  | none =>
    match c.tryRecv with
    | (.ok data, c) => (.ok (some data), c)
    | (.error .empty, c) => (.ok none, c)
    | (.error .disconnected, c) => (.error channelDisconnected, c)

/-- The trait's default `peek_prefix`, through `peek`. -/
def peekPrefixDefault (len maxLen : Nat) :
    Except ConnectionError (Nat × Bytes) × ChannelReceiver :=
  match c.peek maxLen with
  | (.ok buf, c) => (.ok (buf.length, buf.take (min buf.length len)), c)
  | (.error e, c) => (.error e, c)

/-- The trait's default `recv_shared`, through `recv`. -/
def recvSharedDefault : Except ConnectionError (Option Bytes) × ChannelReceiver :=
  match c.recv maxPacketSizeRecv with
  | (.ok buf, c) => (.ok (if buf.length = 0 then none else some buf), c)
  | (.error e, c) => (.error e, c)

/-! ## The receiver on an open channel -/

theorem take_min_length (data : Bytes) (len : Nat) :
    data.take (min data.length len) = data.take len := by
  rw [List.take_eq_take_iff]
  omega

end ChannelReceiver

/-! ## Operations and the queue they act on -/

/-- What happens to a channel. -/
inductive ReceiverOp
  | send (message : Bytes)
  /-- The last sending end is dropped. -/
  | disconnect
  | recv (room : Nat)
  | peek (room : Nat)
  | peekPrefix (len maxLen : Nat)
  | recvShared
deriving DecidableEq, Repr

/-- What the caller of an operation gets. -/
inductive Reply
  | done
  /-- The bytes copied; their number is the value returned. -/
  | bytes (r : Except ConnectionError Bytes)
  /-- The length returned and the bytes copied. -/
  | front (r : Except ConnectionError (Nat × Bytes))
  | shared (r : Except ConnectionError (Option Bytes))
deriving DecidableEq

/-- The messages sent and not yet read, oldest first. -/
structure Fifo where
  queue : List Bytes
  connected : Bool
deriving DecidableEq, Repr

namespace Fifo

variable (q : Fifo)

/-- What an operation answers: `atHead` of the oldest message or, without one,
`nothing` or the error of a closed channel. -/
def answer {α : Type} (atHead : Bytes → Except ConnectionError α) (nothing : α) :
    Except ConnectionError α :=
  match q.queue with
  | message :: _ => atHead message
  | [] => if q.connected then .ok nothing else .error channelDisconnected

/-- A message, if it fits into `room` bytes. -/
def fitting (room : Nat) (message : Bytes) : Except ConnectionError Bytes :=
  if message.length ≤ room then .ok message else .error bufferTooSmall

/-- The answer to an operation. -/
def reply : ReceiverOp → Reply
  | .send _ => .done
  | .disconnect => .done
  | .recv room => .bytes (q.answer (fitting room) [])
  | .peek room => .bytes (q.answer (fitting room) [])
  | .peekPrefix len maxLen =>
    .front (q.answer (fun m =>
      if maxLen < m.length then .error bufferTooSmall else .ok (m.length, m.take len)) (0, []))
  | .recvShared => .shared (q.answer (fun m => .ok (some m)) none)

/-- The queue after an operation: a read that succeeds removes the oldest message. -/
def next : ReceiverOp → Fifo
  | .send message => { q with queue := q.queue ++ [message] }
  | .disconnect => { q with connected := false }
  | .recv room =>
    if q.queue.head?.all (·.length ≤ room) then { q with queue := q.queue.tail } else q
  | .peek _ => q
  | .peekPrefix _ _ => q
  | .recvShared => { q with queue := q.queue.tail }

end Fifo

/-- The message that an operation with this answer has read, when `queue` was still to
be read. Nothing to read is not an error, so the answer to `recv` alone does not
tell. -/
def messageRead (queue : List Bytes) : ReceiverOp → Reply → Option Bytes
  | .recv _, .bytes (.ok data) => if queue = [] then none else some data
  | .recvShared, .shared (.ok data) => data
  | _, _ => none

/-- The message that an operation adds. -/
def messageSent : ReceiverOp → Option Bytes
  | .send message => some message
  | _ => none

theorem Fifo.conserved (q : Fifo) (op : ReceiverOp) :
    q.queue ++ (messageSent op).toList =
      (messageRead q.queue op (q.reply op)).toList ++ (q.next op).queue := by
  obtain ⟨queue, connected⟩ := q
  cases op with
  | send message => simp [messageSent, messageRead, next]
  | disconnect => simp [messageSent, messageRead, next]
  | peek room => simp [messageSent, messageRead, next]
  | peekPrefix len maxLen => simp [messageSent, messageRead, next]
  | recv room =>
    cases queue with
    | nil => cases connected <;> simp [messageSent, messageRead, next, reply, answer]
    | cons message rest =>
      by_cases hfit : message.length ≤ room <;>
        simp [messageSent, messageRead, next, reply, answer, fitting, hfit]
  | recvShared =>
    cases queue with
    | nil => cases connected <;> simp [messageSent, messageRead, next, reply, answer]
    | cons message rest => simp [messageSent, messageRead, next, reply, answer]

namespace ChannelReceiver

variable (c : ChannelReceiver)

/-- The messages still to be read. -/
def pending : List Bytes := c.buffer.toList ++ c.receiver

/-- The queue a receiver stands for. -/
def toFifo : Fifo := ⟨c.pending, c.connected⟩

/-- The answer to an operation. -/
def reply : ReceiverOp → Reply
  | .send _ => .done
  | .disconnect => .done
  | .recv room => .bytes (c.recv room).1
  | .peek room => .bytes (c.peek room).1
  | .peekPrefix len maxLen => .front (c.peekPrefix len maxLen).1
  | .recvShared => .shared c.recvShared.1

/-- The answer where the trait's default definitions are used. -/
def defaultReply : ReceiverOp → Reply
  | .peekPrefix len maxLen => .front (c.peekPrefixDefault len maxLen).1
  | .recvShared => .shared c.recvSharedDefault.1
  | op => c.reply op

/-- The receiver after an operation. -/
def next : ReceiverOp → ChannelReceiver
  | .send message => c.send message
  | .disconnect => { c with connected := false }
  | .recv room => (c.recv room).2
  | .peek room => (c.peek room).2
  | .peekPrefix len maxLen => (c.peekPrefix len maxLen).2
  | .recvShared => c.recvShared.2

/-- One operation; nothing is sent once the sending ends are gone. -/
def step (c : ChannelReceiver) (op : ReceiverOp) : Option ChannelReceiver :=
  if (messageSent op).isSome && !c.connected then none else some (c.next op)

/-- The messages that a list of operations reads. -/
def reads (c : ChannelReceiver) : List ReceiverOp → List Bytes
  | [] => []
  | op :: ops => (messageRead c.pending op (c.reply op)).toList ++ (c.next op).reads ops

/-- An operation answers and acts as the queue's does, and answers as the trait's
default definition does. -/
structure RefinesFifo (op : ReceiverOp) : Prop where
  reply_eq : c.reply op = c.toFifo.reply op
  next_eq : (c.next op).toFifo = c.toFifo.next op
  default_eq : c.reply op = c.defaultReply op

/-- A message that `recv` takes from the channel fits, and one that `recv_shared` takes
is not empty and would fit into the buffer of the default. -/
def Readable : ReceiverOp → Prop
  | .recv room => c.buffer = none → ∀ message ∈ c.receiver.head?, message.length ≤ room
  | .recvShared =>
    ∀ message ∈ c.pending.head?, 0 < message.length ∧ message.length ≤ maxPacketSizeRecv
  | _ => True

instance (op : ReceiverOp) : Decidable (c.Readable op) := by
  cases op <;> unfold Readable <;> infer_instance

/-! ## The receiver refines the queue -/

/-- The next message is in the buffer, or in the channel, or there is none. -/
@[elab_as_elim]
theorem shapes {motive : ChannelReceiver → Prop}
    (buffered : ∀ data rest connected, motive ⟨⟨rest, some data⟩, connected⟩)
    (queued : ∀ data rest connected, motive ⟨⟨data :: rest, none⟩, connected⟩)
    (drained : ∀ connected, motive ⟨⟨[], none⟩, connected⟩) (c : ChannelReceiver) : motive c := by
  obtain ⟨⟨receiver, _ | data⟩, connected⟩ := c
  · cases receiver with
    | nil => exact drained connected
    | cons data rest => exact queued data rest connected
  · exact buffered data receiver connected

/-- Both definitions of `peek_prefix` are one. -/
theorem peekPrefix_eq_default (len maxLen : Nat) :
    c.peekPrefix len maxLen = c.peekPrefixDefault len maxLen := by
  unfold peekPrefix peekPrefixDefault peek
  rcases c.fill with ⟨_ | _ | data, c'⟩
  · rfl
  · rfl
  · by_cases hfit : data.length ≤ maxLen
    · simp [hfit, Nat.not_lt.2 hfit]
    · simp [hfit, Nat.lt_of_not_le hfit]

/-- The answers are always the queue's. -/
theorem reply_eq_toFifo (op : ReceiverOp) : c.reply op = c.toFifo.reply op := by
  cases op with
  | send message => rfl
  | disconnect => rfl
  | recv room =>
    induction c using shapes with
    | buffered data rest connected =>
      by_cases hfit : data.length ≤ room <;>
        simp [reply, recv, toFifo, pending, Fifo.reply, Fifo.answer, Fifo.fitting, hfit]
    | queued data rest connected => rfl
    | drained connected => cases connected <;> rfl
  | peek room =>
    induction c using shapes with
    | buffered data rest connected => rfl
    | queued data rest connected => rfl
    | drained connected => cases connected <;> rfl
  | peekPrefix len maxLen =>
    induction c using shapes with
    | buffered data rest connected =>
      by_cases hfit : maxLen < data.length <;>
        simp [reply, peekPrefix, fill, toFifo, pending, Fifo.reply, Fifo.answer, take_min_length,
          hfit]
    | queued data rest connected =>
      by_cases hfit : maxLen < data.length <;>
        simp [reply, peekPrefix, fill, tryRecv, toFifo, pending, Fifo.reply, Fifo.answer,
          take_min_length, hfit]
    | drained connected => cases connected <;> rfl
  | recvShared =>
    induction c using shapes with
    | buffered data rest connected => rfl
    | queued data rest connected => rfl
    | drained connected => cases connected <;> rfl

theorem toFifo_fill : c.fill.2.toFifo = c.toFifo := by
  induction c using shapes with
  | buffered data rest connected => rfl
  | queued data rest connected => rfl
  | drained connected => cases connected <;> rfl

theorem peek_snd (room : Nat) : (c.peek room).2 = c.fill.2 := by
  unfold peek
  rcases c.fill with ⟨_ | _ | data, c'⟩ <;> rfl

theorem peekPrefix_snd (len maxLen : Nat) : (c.peekPrefix len maxLen).2 = c.fill.2 := by
  rw [peekPrefix_eq_default, ← peek_snd c maxLen]
  unfold peekPrefixDefault
  rcases c.peek maxLen with ⟨_ | buf, c'⟩ <;> rfl

/-- A read that takes a message too long for its slice from the channel loses it; no
other operation leaves another queue than the queue's own operation does. -/
theorem toFifo_next_iff (op : ReceiverOp) :
    (c.next op).toFifo = c.toFifo.next op ↔
      ∀ room, op = .recv room → c.buffer = none →
        ∀ message ∈ c.receiver.head?, message.length ≤ room := by
  cases op with
  | send message => simp [next, send, toFifo, pending, Fifo.next]
  | disconnect => simp [next, toFifo, pending, Fifo.next]
  | peek room => simp [next, peek_snd, toFifo_fill, Fifo.next]
  | peekPrefix len maxLen => simp [next, peekPrefix_snd, toFifo_fill, Fifo.next]
  | recvShared =>
    induction c using shapes with
    | buffered data rest connected => simp [next, recvShared, toFifo, pending, Fifo.next]
    | queued data rest connected => simp [next, recvShared, tryRecv, toFifo, pending, Fifo.next]
    | drained connected =>
      cases connected <;> simp [next, recvShared, tryRecv, toFifo, pending, Fifo.next]
  | recv room =>
    induction c using shapes with
    | buffered data rest connected =>
      by_cases hfit : data.length ≤ room <;> simp [next, recv, toFifo, pending, Fifo.next, hfit]
    | queued data rest connected =>
      by_cases hfit : data.length ≤ room <;>
        simp [next, recv, tryRecv, toFifo, pending, Fifo.next, hfit]
    | drained connected =>
      cases connected <;> simp [next, recv, tryRecv, toFifo, pending, Fifo.next]

/-- `recv_shared` answers as its default does for the messages the default can read and
tell from none. -/
theorem defaultReply_iff (op : ReceiverOp) :
    c.reply op = c.defaultReply op ↔
      (op = .recvShared →
        ∀ message ∈ c.pending.head?, 0 < message.length ∧ message.length ≤ maxPacketSizeRecv) := by
  cases op with
  | send message => simp [defaultReply]
  | disconnect => simp [defaultReply]
  | recv room => simp [defaultReply]
  | peek room => simp [defaultReply]
  | peekPrefix len maxLen => simp [defaultReply, reply, peekPrefix_eq_default]
  | recvShared =>
    induction c using shapes with
    | buffered data rest connected =>
      by_cases hfit : data.length ≤ maxPacketSizeRecv <;>
        simp [reply, defaultReply, recvShared, recvSharedDefault, recv, pending, hfit,
          List.length_pos_iff]
    | queued data rest connected =>
      by_cases hfit : data.length ≤ maxPacketSizeRecv <;>
        simp [reply, defaultReply, recvShared, recvSharedDefault, recv, tryRecv, pending, hfit,
          List.length_pos_iff]
    | drained connected =>
      cases connected <;>
        simp [reply, defaultReply, recvShared, recvSharedDefault, recv, tryRecv, pending]

theorem refinesFifo_iff (op : ReceiverOp) : c.RefinesFifo op ↔ c.Readable op := by
  have hiff : c.RefinesFifo op ↔
      (c.next op).toFifo = c.toFifo.next op ∧ c.reply op = c.defaultReply op :=
    ⟨fun h => ⟨h.next_eq, h.default_eq⟩, fun h => ⟨c.reply_eq_toFifo op, h.1, h.2⟩⟩
  rw [hiff, toFifo_next_iff, defaultReply_iff]
  cases op <;> simp [Readable]

/-- What is pending before a list of operations, and what they send, is what they read
and what is pending after them. -/
theorem conserved {ops : List ReceiverOp} {c c' : ChannelReceiver}
    (hok : allOk step Readable c ops) (hrun : runs step c ops = some c') :
    c.pending ++ ops.filterMap messageSent = c.reads ops ++ c'.pending := by
  induction ops generalizing c with
  | nil =>
    obtain rfl : c = c' := by simpa [runs] using hrun
    simp [reads]
  | cons op ops ih =>
    obtain ⟨c₁, hstep, hrest⟩ : ∃ c₁, step c op = some c₁ ∧ runs step c₁ ops = some c' := by
      simpa [runs, Option.bind_eq_some_iff] using hrun
    have hc₁ : c₁ = c.next op := by
      unfold step at hstep
      split at hstep
      · cases hstep
      · exact (Option.some.inj hstep).symm
    subst hc₁
    have hrefines := (c.refinesFifo_iff op).2 hok.1
    have hone : c.pending ++ (messageSent op).toList =
        (messageRead c.pending op (c.reply op)).toList ++ (c.next op).pending := by
      have h := c.toFifo.conserved op
      rw [← hrefines.reply_eq, ← hrefines.next_eq] at h
      exact h
    have hsent : (op :: ops).filterMap messageSent =
        (messageSent op).toList ++ ops.filterMap messageSent := by
      cases h : messageSent op <;> simp [h]
    rw [hsent, ← List.append_assoc, hone, List.append_assoc, ih (hok.2 _ hstep) hrest, reads,
      List.append_assoc]

end ChannelReceiver

open ChannelReceiver in
/-- **The receiver as a queue**: a sequence of operations on a new channel acts throughout
as on a plain queue, with the answers of the trait's default definitions, if and only
if no `recv` takes a message from the channel that does not fit and no `recv_shared`
meets an empty message or one too long for the default. The messages read and those
still pending are then the messages sent, in order. -/
theorem buffered_receiver_refines_fifo (ops : List ReceiverOp) :
    (allOk step RefinesFifo new ops ↔ allOk step Readable new ops) ∧
      (allOk step Readable new ops → ∀ c, runs step new ops = some c →
        new.reads ops ++ c.pending = ops.filterMap messageSent) := by
  refine ⟨?_, fun hok c hrun => ?_⟩
  · exact allOk_congr (P := fun _ => True) (fun _ _ _ _ _ _ => trivial)
      (fun c op _ _ => c.refinesFifo_iff op) trivial (allOk_true step new ops)
  · simpa [new, pending, BufferedReceiver.empty] using (conserved hok hrun).symm

/-- A message of two bytes and a slice of one: the read fails and the message is gone. Had
it been peeked at before, it would still be there. -/
theorem recv_loses_message :
    ¬ allOk ChannelReceiver.step ChannelReceiver.RefinesFifo .new [.send [1, 2], .recv 1] ∧
      (runs ChannelReceiver.step .new [.send [1, 2], .recv 1]).map ChannelReceiver.pending =
        some [] ∧
      (runs ChannelReceiver.step .new [.send [1, 2], .peek 1, .recv 1]).map
        ChannelReceiver.pending = some [[1, 2]] := by
  refine ⟨fun h => ?_, by decide, by decide⟩
  have hnext := (h.2 _ rfl).1.next_eq
  exact absurd hnext (by decide)

/-- An empty message: `recv_shared` hands it over, its default reports that nothing is
queued. -/
example :
    (ChannelReceiver.new.send []).reply .recvShared = .shared (.ok (some [])) ∧
      (ChannelReceiver.new.send []).defaultReply .recvShared = .shared (.ok none) := by
  decide

end SiestaVR.Stream
