import SiestaVR.Lib.Incremental
import SiestaVR.Stream.Wire

/-!
# The AV1 parser (lib/mod.rs:1723–1828)

`Av1Parser` cuts the output of an AV1 encoder into open bitstream units. A unit is a header
of one byte, or two with an extension, a LEB128 field with the size of the payload, and the
payload.

The functions are translated with everything that could stop them: a position outside the
buffer, a shift by 64 bits or more, a sum beyond `usize` or a loop without end has no
result. `nextObu_eq` shows that none of this happens, and says what one call does in terms
of where the unit at the front of the buffer ends (`obuLength`). Since that depends on the
unit's own bytes only, the parser is an extractor (`obus`), and cutting the stream into
other chunks changes nothing.
-/

namespace SiestaVR.Video

open Lib
open SiestaVR.Stream (Bytes)

/-! ## Arithmetic on usize -/

/-- `a + b` on `usize`: an overflow panics. -/
def addUsize (a b : Nat) : Option Nat :=
  if a + b < 2 ^ 64 then some (a + b) else none

/-- `a << s` on `usize`: panics from 64 bits on, and loses what is shifted out. -/
def shlUsize (a s : Nat) : Option Nat :=
  if s < 64 then some (a <<< s % 2 ^ 64) else none

/-! ## The code -/

structure ObuUnit where
  obuType : UInt8
  data : Bytes
  isSequenceHeader : Bool
deriving DecidableEq, Repr

structure Av1Parser where
  buffer : Bytes
  sequenceHeader : Option Bytes
deriving DecidableEq, Repr

namespace Av1Parser

/-- `Av1Parser::new`. -/
def new : Av1Parser := ⟨[], none⟩

/-- `Av1Parser::add_data`. -/
def addData (p : Av1Parser) (data : Bytes) : Av1Parser :=
  { p with buffer := p.buffer ++ data }

/-- The loop of `parse_leb128`, for at most so many turns. -/
def parseLeb128Loop (p : Av1Parser) (offset : Nat) :
    Nat → Nat → Nat → Nat → Option (Option (Nat × Nat))
  | 0, _, _, _ => none
  | turns + 1, value, bytesRead, shift => do
    let pos ← addUsize offset bytesRead
    if p.buffer.length ≤ pos then
      return none
    let byte ← p.buffer[pos]?
    let bits ← shlUsize (byte &&& 0x7F).toNat shift
    let value := value ||| bits
    let bytesRead := bytesRead + 1
    let shift := shift + 7
    if byte &&& 0x80 = 0 then
      return some (value, bytesRead)
    if 8 < bytesRead then
      return none
    parseLeb128Loop p offset turns value bytesRead shift

/-- `Av1Parser::parse_leb128`: the value and the number of bytes read. Every turn of the
loop reads one more byte. -/
def parseLeb128 (p : Av1Parser) (offset : Nat) : Option (Option (Nat × Nat)) :=
  p.parseLeb128Loop offset (p.buffer.length + 1) 0 0 0

/-- `Av1Parser::next_obu`. -/
def nextObu (p : Av1Parser) : Option (Option ObuUnit × Av1Parser) :=
  match p.buffer with
  | [] => some (none, p)
  | headerByte :: _ => do
    let obuType := (headerByte >>> 3) &&& 0xF
    let extensionFlag := (headerByte >>> 2) &&& 1
    let hasSizeField := (headerByte >>> 1) &&& 1
    if hasSizeField = 0 then
      return (none, p)
    let offset := if extensionFlag = 1 then 2 else 1
    if extensionFlag = 1 ∧ p.buffer.length < offset then
      return (none, p)
    match ← p.parseLeb128 offset with
    | none => return (none, p)
    | some (payloadSize, lebBytes) =>
      let offset ← addUsize offset lebBytes
      let totalSize ← addUsize offset payloadSize
      if p.buffer.length < totalSize then
        return (none, p)
      return (some ⟨obuType, p.buffer.take totalSize, obuType == 1⟩,
        { p with buffer := p.buffer.drop totalSize })

/-- The loop of `get_obu_units`, for at most so many turns. -/
def obuLoop : Nat → Av1Parser → Option (List ObuUnit × Av1Parser)
  | 0, _ => none
  | turns + 1, p => do
    match ← p.nextObu with
    | (none, p) => return ([], p)
    | (some unit, p) =>
      let (units, p) ← obuLoop turns p
      return (unit :: units, p)

/-- `Av1Parser::get_obu_units`. Every unit takes bytes off the buffer. -/
def getObuUnits (p : Av1Parser) : Option (List ObuUnit × Av1Parser) :=
  obuLoop (p.buffer.length + 1) p

/-- `Av1Parser::get_frames`. -/
def getFrames (p : Av1Parser) : Option (List Bytes × Av1Parser) :=
  p.getObuUnits.map fun (units, p) => (units.map (·.data), p)

/-- The encoder loop: a chunk of the stream is added, and frames are taken. -/
def feed : List Bytes → Av1Parser → Option (List Bytes × Av1Parser) :=
  Extractor.feed fun p chunk => (p.addData chunk).getFrames

end Av1Parser

/-! ## The format -/

/-- The bytes of the header: one, and one more with the extension flag. -/
def headerLength (headerByte : UInt8) : Nat :=
  if (headerByte >>> 2) &&& 1 = 1 then 2 else 1

/-- Where the unit at the front of a buffer ends, if its size field is there. Fields of more
than nine bytes are not read. -/
def obuLength : Bytes → Option Nat
  | [] => none
  | headerByte :: rest =>
    let header := headerLength headerByte
    let field := (headerByte :: rest).drop header
    match lebLength field with
    | none => none
    | some n =>
      if (headerByte >>> 1) &&& 1 = 0 ∨ 9 < n then none
      else some (header + n + ofLeb (field.take n))

/-- A unit as the format has it: header, complete size field, and a payload of that size. -/
def WellFormedObu (data : Bytes) : Prop :=
  ∃ headerByte header field payload, data = header ++ field ++ payload ∧
    header.head? = some headerByte ∧ header.length = headerLength headerByte ∧
    lebLength field = some field.length ∧ payload.length = ofLeb field

/-! ## The size field -/

theorem and_0x7F (b : UInt8) : (b &&& 0x7F).toNat = b.toNat % 128 := by
  rw [UInt8.toNat_and]
  exact Nat.and_two_pow_sub_one_eq_mod b.toNat 7

theorem and_0x80_eq_zero (b : UInt8) : b &&& 0x80 = 0 ↔ b.toNat < 128 := by
  have h : ∀ i : Fin 256, (UInt8.ofFin i &&& 0x80 = 0 ↔ (UInt8.ofFin i).toNat < 128) := by
    decide +kernel
  exact h b.toFin

/-- Adding seven bits above the `k` groups of seven that are there. -/
theorem shlUsize_group (byte : UInt8) {k : Nat} (hk : k ≤ 8) :
    shlUsize (byte &&& 0x7F).toNat (7 * k) = some (128 ^ k * (byte.toNat % 128)) := by
  have hlt : byte.toNat % 128 * 2 ^ (7 * k) < 2 ^ 64 :=
    calc byte.toNat % 128 * 2 ^ (7 * k)
        ≤ 127 * 2 ^ 56 := Nat.mul_le_mul (by omega) (Nat.pow_le_pow_right (by omega) (by omega))
      _ < 2 ^ 64 := by decide
  rw [shlUsize, if_pos (by omega), and_0x7F, Nat.shiftLeft_eq, Nat.mod_eq_of_lt hlt, Nat.mul_comm,
    Nat.pow_mul]

/-- The groups do not overlap, so setting the bits of one adds it. -/
theorem or_group {value k : Nat} (hvalue : value < 128 ^ k) (group : Nat) :
    value ||| 128 ^ k * group = value + 128 ^ k * group := by
  rw [show 128 ^ k = 2 ^ (7 * k) from (Nat.pow_mul 2 7 k).symm] at hvalue ⊢
  rw [Nat.or_comm, Nat.add_comm]
  exact (Nat.two_pow_add_eq_or_of_lt hvalue _).symm

theorem add_group_lt {value k : Nat} (hvalue : value < 128 ^ k) (group : Nat) :
    value + 128 ^ k * (group % 128) < 128 ^ (k + 1) := by
  have hgroup : 128 ^ k * (group % 128) ≤ 128 ^ k * 127 := Nat.mul_le_mul_left _ (by omega)
  rw [pow_succ]
  omega

/-- What the loop returns from the `k`-th byte of the field on. -/
theorem parseLeb128Loop_eq (p : Av1Parser) {offset : Nat} (k turns value : Nat)
    (hoffset : offset ≤ 2) (hk : k ≤ 8) (hvalue : value < 128 ^ k)
    (hle : offset + k ≤ p.buffer.length) (hturns : p.buffer.length < turns + (offset + k)) :
    p.parseLeb128Loop offset turns value k (7 * k) =
      some (match lebLength (p.buffer.drop (offset + k)) with
        | none => none
        | some n => if 9 < k + n then none
          else some (value + 128 ^ k * ofLeb ((p.buffer.drop (offset + k)).take n), k + n)) := by
  induction turns generalizing k value with
  | zero => omega
  | succ turns ih =>
    have hadd : addUsize offset k = some (offset + k) := if_pos (by omega)
    rw [Av1Parser.parseLeb128Loop, hadd, Option.bind_eq_bind, Option.bind_some]
    by_cases hend : p.buffer.length ≤ offset + k
    · rw [if_pos hend, List.drop_of_length_le hend]
      rfl
    · have hlt : offset + k < p.buffer.length := by omega
      rw [if_neg hend, List.getElem?_eq_getElem hlt, List.drop_eq_getElem_cons hlt]
      generalize p.buffer[offset + k] = byte
      have hgroup := shlUsize_group byte hk
      simp only [Option.bind_eq_bind, Option.bind_some, hgroup, or_group hvalue, and_0x80_eq_zero]
      by_cases hbyte : byte.toNat < 128
      · have hn : ¬ 9 < k + 1 := by omega
        rw [if_pos hbyte, lebLength, if_pos hbyte]
        simp [hn, ofLeb]
      · rw [if_neg hbyte, lebLength, if_neg hbyte]
        -- After the ninth byte the loop gives up; a field that ends later is too long.
        by_cases hlast : 8 < k + 1
        · rw [if_pos hlast]
          cases hn : lebLength (p.buffer.drop (offset + k + 1)) with
          | none => rfl
          | some n =>
            have hlong : 9 < k + (n + 1) := by
              have := lebLength_bounds hn
              omega
            simp [hlong]
        · rw [if_neg hlast, show 7 * k + 7 = 7 * (k + 1) by omega,
            ih _ _ (by omega) (add_group_lt hvalue _) (by omega) (by omega),
            Nat.add_assoc offset k 1]
          cases lebLength (p.buffer.drop (offset + (k + 1))) with
          | none => rfl
          | some n =>
            have hcount : k + 1 + n = k + (n + 1) := by omega
            simp only [Option.map_some, hcount, List.take_succ_cons, ofLeb, pow_succ]
            rw [Nat.mul_add, Nat.add_assoc, Nat.mul_assoc (128 ^ k)]

theorem parseLeb128_eq (p : Av1Parser) {offset : Nat} (hoffset : offset ≤ 2)
    (hle : offset ≤ p.buffer.length) :
    p.parseLeb128 offset = some (match lebLength (p.buffer.drop offset) with
      | none => none
      | some n => if 9 < n then none else some (ofLeb ((p.buffer.drop offset).take n), n)) := by
  have h := parseLeb128Loop_eq p 0 (p.buffer.length + 1) 0 hoffset (by omega) (by decide) hle
    (by omega)
  simpa only [Av1Parser.parseLeb128, Nat.add_zero, Nat.zero_add, pow_zero, Nat.one_mul] using h

variable {n : Nat} {buffer : Bytes}

theorem ofLeb_take_lt (field : Bytes) (hn : n ≤ 9) : ofLeb (field.take n) < 2 ^ 63 :=
  calc ofLeb (field.take n)
      < 128 ^ (field.take n).length := ofLeb_lt _
    _ ≤ 128 ^ 9 := Nat.pow_le_pow_right (by decide) ((List.length_take_le _ _).trans hn)
    _ = 2 ^ 63 := by decide

/-! ## One unit -/

/-- The unit with these bytes. -/
def obuOf (data : Bytes) : ObuUnit :=
  let obuType := ((data.headD 0) >>> 3) &&& 0xF
  ⟨obuType, data, obuType == 1⟩

theorem obuOf_take_cons {headerByte : UInt8} {rest : Bytes} (hn : 0 < n) :
    obuOf ((headerByte :: rest).take n) = ⟨(headerByte >>> 3) &&& 0xF,
      (headerByte :: rest).take n, (headerByte >>> 3) &&& 0xF == 1⟩ := by
  obtain ⟨m, rfl⟩ : ∃ m, n = m + 1 := ⟨n - 1, by omega⟩
  rfl

theorem obuLength_eq_some {total : Nat} (h : obuLength buffer = some total) :
    ∃ headerByte rest n, buffer = headerByte :: rest ∧
      lebLength (buffer.drop (headerLength headerByte)) = some n ∧
      ¬ ((headerByte >>> 1) &&& 1 = 0 ∨ 9 < n) ∧
      total = headerLength headerByte + n +
        ofLeb ((buffer.drop (headerLength headerByte)).take n) := by
  cases buffer with
  | nil => cases h
  | cons headerByte rest =>
    rw [obuLength] at h
    cases hleb : lebLength ((headerByte :: rest).drop (headerLength headerByte)) with
    | none =>
      rw [hleb] at h
      cases h
    | some n =>
      rw [hleb] at h
      dsimp only at h
      split at h
      · cases h
      · next hread =>
        cases h
        exact ⟨headerByte, rest, n, rfl, hleb, hread, rfl⟩

theorem headerLength_pos (headerByte : UInt8) : 0 < headerLength headerByte := by
  unfold headerLength
  split <;> decide

theorem headerLength_le (headerByte : UInt8) : headerLength headerByte ≤ 2 := by
  unfold headerLength
  split <;> decide

theorem obuLength_pos (h : obuLength buffer = some n) : 0 < n := by
  obtain ⟨headerByte, -, -, -, -, -, rfl⟩ := obuLength_eq_some h
  have := headerLength_pos headerByte
  omega

/-- Where a unit ends does not depend on what comes after its size field. -/
theorem obuLength_append (h : obuLength buffer = some n)
    (more : Bytes) : obuLength (buffer ++ more) = some n := by
  obtain ⟨headerByte, rest, k, rfl, hleb, hread, rfl⟩ := obuLength_eq_some h
  have hk := lebLength_bounds hleb
  have hfits : headerLength headerByte ≤ (headerByte :: rest).length := by
    rw [List.length_drop] at hk
    omega
  have hdrop : (headerByte :: (rest ++ more)).drop (headerLength headerByte) =
      (headerByte :: rest).drop (headerLength headerByte) ++ more :=
    List.drop_append_of_le_length hfits
  rw [List.cons_append, obuLength, hdrop, lebLength_append hleb]
  dsimp only
  rw [if_neg hread, List.take_append_of_le_length hk.2]

/-- The units of an AV1 stream. -/
def obus : Extractor UInt8 ObuUnit :=
  .ofLength obuLength obuOf obuLength_pos fun more h => obuLength_append h more

theorem obus_peek_eq_some {u : ObuUnit} :
    obus.peek buffer = some (u, n) ↔
      obuLength buffer = some n ∧ n ≤ buffer.length ∧ u = obuOf (buffer.take n) :=
  Extractor.peekLength_eq_some obuLength obuOf

theorem obus_next (buffer : Bytes) :
    obus.next buffer = match obuLength buffer with
      | none => none
      | some n =>
        if buffer.length < n then none else some (obuOf (buffer.take n), buffer.drop n) := by
  show (Extractor.peekLength obuLength obuOf buffer).map _ = _
  unfold Extractor.peekLength
  cases obuLength buffer with
  | none => rfl
  | some n => exact apply_ite (Option.map _) _ _ _

theorem flag_of_short {headerByte : UInt8} {rest : Bytes}
    (h : (headerByte :: rest).length < headerLength headerByte) :
    (headerByte >>> 2) &&& 1 = 1 := by
  by_contra hflag
  rw [headerLength, if_neg hflag, List.length_cons] at h
  omega

theorem obuEnd_lt (headerByte : UInt8) (field : Bytes) (hn : n ≤ 9) :
    headerLength headerByte + n < 2 ^ 64 ∧
      headerLength headerByte + n + ofLeb (field.take n) < 2 ^ 64 := by
  have hheader := headerLength_le headerByte
  have hvalue := ofLeb_take_lt field hn
  omega

/-- **One call**: the unit at the front if it is complete, and otherwise nothing. -/
theorem nextObu_eq (p : Av1Parser) :
    p.nextObu = some (match obus.next p.buffer with
      | none => (none, p)
      | some (u, rest) => (some u, { p with buffer := rest })) := by
  obtain ⟨buffer, sequenceHeader⟩ := p
  cases buffer with
  | nil => rfl
  | cons headerByte rest =>
    rw [obus_next, obuLength, Av1Parser.nextObu]
    dsimp only
    by_cases hsize : (headerByte >>> 1) &&& 1 = 0
    · simp only [hsize, true_or, if_true]
      cases lebLength ((headerByte :: rest).drop (headerLength headerByte)) <;> rfl
    · rw [if_neg hsize, show (if (headerByte >>> 2) &&& 1 = 1 then 2 else 1) =
        headerLength headerByte from rfl]
      -- The header is short only if its extension is announced, as the source tests it.
      by_cases hshort : (headerByte :: rest).length < headerLength headerByte
      · rw [if_pos ⟨flag_of_short hshort, hshort⟩, List.drop_of_length_le hshort.le]
        rfl
      · rw [if_neg (fun h => hshort h.2), parseLeb128_eq _ (headerLength_le headerByte)
          (Nat.not_lt.1 hshort), Option.bind_eq_bind, Option.bind_some]
        cases hleb : lebLength ((headerByte :: rest).drop (headerLength headerByte)) with
        | none => rfl
        | some n =>
          by_cases hlong : 9 < n
          · simp only [hlong, or_true, if_true]
            rfl
          · obtain ⟨hsum, htotal⟩ := obuEnd_lt headerByte
              ((headerByte :: rest).drop (headerLength headerByte)) (Nat.not_lt.1 hlong)
            simp only [hsize, hlong, or_self, if_false, Option.bind_eq_bind]
            rw [addUsize, if_pos hsum, Option.bind_some, addUsize, if_pos htotal, Option.bind_some]
            split
            · rfl
            · rw [obuOf_take_cons (by have := headerLength_pos headerByte; omega)]
              rfl

/-! ## The whole stream -/

theorem obuLoop_eq {turns : Nat} {p : Av1Parser} (h : p.buffer.length < turns) :
    Av1Parser.obuLoop turns p =
      some ((obus.drain p.buffer).1, { p with buffer := (obus.drain p.buffer).2 }) := by
  induction turns generalizing p with
  | zero => omega
  | succ turns ih =>
    rw [Av1Parser.obuLoop, nextObu_eq, Option.bind_eq_bind, Option.bind_some]
    cases hnext : obus.next p.buffer with
    | none =>
      rw [Extractor.drain_none hnext]
      rfl
    | some taken =>
      obtain ⟨u, rest⟩ := taken
      have hshorter := Extractor.shrinks hnext
      rw [Extractor.drain_some hnext]
      dsimp only
      rw [ih (p := { p with buffer := rest }) (show rest.length < turns by omega)]
      rfl

theorem getFrames_eq (p : Av1Parser) :
    p.getFrames = some ((obus.drain p.buffer).1.map (·.data),
      { p with buffer := (obus.drain p.buffer).2 }) := by
  rw [Av1Parser.getFrames, Av1Parser.getObuUnits, obuLoop_eq (Nat.lt_succ_self _)]
  rfl

/-- What the parser returns for a stream, whatever its chunks. -/
theorem feed_new (chunks : List Bytes) :
    Av1Parser.feed chunks .new = some ((obus.drain chunks.flatten).1.map (·.data),
      ⟨(obus.drain chunks.flatten).2, none⟩) := by
  have htotal : ∀ (p : Av1Parser) (chunk : Bytes), True →
      ∃ out q, (p.addData chunk).getFrames = some (out, q) ∧ True :=
    fun p chunk _ => ⟨_, _, getFrames_eq (p.addData chunk), trivial⟩
  have hget : ∀ (p : Av1Parser) (chunk : Bytes) (out : List Bytes) (q : Av1Parser),
      (p.addData chunk).getFrames = some (out, q) → (out, q.sequenceHeader, q.buffer) =
        obus.decode (fun s u => ([u.data], s)) p.sequenceHeader (p.buffer ++ chunk) := by
    intro p chunk out q h
    rw [getFrames_eq] at h
    cases h
    rw [Extractor.decode, Extractor.handleAll_map]
    rfl
  obtain ⟨frames, p, hfeed, -⟩ := Extractor.feed_total htotal chunks (p := .new) trivial
  have hall := obus.feed_decode hget rfl hfeed
  rw [Extractor.decode, Extractor.handleAll_map] at hall
  obtain ⟨rfl, hsequence, hbuffer⟩ : frames = _ ∧ p.sequenceHeader = _ ∧ p.buffer = _ :=
    ⟨congrArg (·.1) hall, congrArg (·.2.1) hall, congrArg (·.2.2) hall⟩
  rw [Av1Parser.feed, hfeed, show p = ⟨p.buffer, p.sequenceHeader⟩ from rfl, hsequence, hbuffer]
  rfl

/-- The bytes of a unit that is taken are those of a unit of the format. -/
theorem wellFormedObu_of_peek {u : ObuUnit}
    (h : obus.peek buffer = some (u, n)) : WellFormedObu u.data := by
  obtain ⟨hlength, hle, rfl⟩ := obus_peek_eq_some.1 h
  obtain ⟨headerByte, rest, k, hbuffer, hleb, -, rfl⟩ := obuLength_eq_some hlength
  have hk := (lebLength_bounds hleb).2
  rw [List.length_drop] at hk
  have hheader := headerLength_pos headerByte
  refine ⟨headerByte, buffer.take (headerLength headerByte),
    (buffer.drop (headerLength headerByte)).take k,
    (buffer.drop (headerLength headerByte + k)).take
      (ofLeb ((buffer.drop (headerLength headerByte)).take k)), ?_, ?_, ?_, ?_, ?_⟩
  · show buffer.take _ = _
    rw [List.take_add, List.take_add]
  · rw [hbuffer, List.head?_take, if_neg hheader.ne']
    rfl
  · rw [List.length_take]
    omega
  · rw [lebLength_take hleb, List.length_take, List.length_drop, Nat.min_eq_left hk]
  · rw [List.length_take, List.length_drop]
    omega

/-- **The AV1 parser**, for every stream and all its chunks: it returns, loses no byte, returns
only units whose length is the one their own size field declares, and returns the same for
any other chunks. -/
theorem av1_feed_lossless (chunks : List Bytes) :
    ∃ frames p, Av1Parser.feed chunks .new = some (frames, p) ∧
      frames.flatten ++ p.buffer = chunks.flatten ∧
      (∀ frame ∈ frames, WellFormedObu frame) ∧
      ∀ chunks' : List Bytes, chunks'.flatten = chunks.flatten →
        Av1Parser.feed chunks' .new = some (frames, p) := by
  refine ⟨_, _, feed_new chunks, ?_, ?_, ?_⟩
  · rw [← List.flatMap_def]
    exact Extractor.flatMap_drain (fun buffer u n h => by
      obtain ⟨-, -, rfl⟩ := obus_peek_eq_some.1 h
      rfl) _
  · intro frame hframe
    obtain ⟨u, hu, rfl⟩ := List.mem_map.1 hframe
    exact Extractor.forall_mem_drain (fun _ _ _ => wellFormedObu_of_peek) _ u hu
  · intro chunks' hsame
    rw [feed_new, hsame]

/-! ## Streams of whole units -/

/-- A unit that the parser can read: well formed, with the flag of the size field, which has at
most nine bytes. -/
def ReadableObu (data : Bytes) : Prop :=
  ∃ headerByte header field payload, data = header ++ field ++ payload ∧
    header.head? = some headerByte ∧ header.length = headerLength headerByte ∧
    (headerByte >>> 1) &&& 1 ≠ 0 ∧ lebLength field = some field.length ∧ field.length ≤ 9 ∧
    payload.length = ofLeb field

theorem ReadableObu.obuLength_eq {data : Bytes} (h : ReadableObu data) :
    obuLength data = some data.length := by
  obtain ⟨headerByte, header, field, payload, rfl, hhead, hheader, hflag, hfield, hnine,
    hpayload⟩ := h
  obtain ⟨rest, rfl⟩ : ∃ rest, header = headerByte :: rest := by
    cases header with
    | nil => cases hhead
    | cons b rest => exact ⟨rest, by rw [Option.some.inj hhead]⟩
  have hdrop : (headerByte :: rest ++ field ++ payload).drop (headerLength headerByte) =
      field ++ payload := by
    rw [List.append_assoc, ← hheader, List.drop_left]
  rw [List.cons_append, List.cons_append, obuLength, ← List.cons_append, ← List.cons_append,
    hdrop, lebLength_append hfield]
  dsimp only
  rw [if_neg (by simp [hflag]; omega), List.take_left, ← hpayload, ← hheader,
    List.length_append, List.length_append]

theorem drain_units {units : List Bytes} (hunits : ∀ u ∈ units, ReadableObu u) {rest : Bytes}
    (hrest : ∀ n, obuLength rest = some n → rest.length < n) :
    obus.drain (units.flatten ++ rest) = (units.map obuOf, rest) := by
  induction units with
  | nil =>
    refine Extractor.drain_none ?_
    rw [List.flatten_nil, List.nil_append, obus_next]
    cases hlength : obuLength rest with
    | none => rfl
    | some n => exact if_pos (hrest n hlength)
  | cons u units ih =>
    have hu := (hunits u List.mem_cons_self).obuLength_eq
    have hnext : obus.next ((u :: units).flatten ++ rest) =
        some (obuOf u, units.flatten ++ rest) := by
      rw [List.flatten_cons, List.append_assoc, obus_next, obuLength_append hu]
      simp
    rw [Extractor.drain_some hnext, ih fun v hv => hunits v (List.mem_cons_of_mem u hv)]
    rfl

/-- **Every unit arrives.** Units that the parser can read are returned one by one as they are, in
whatever chunks they come, up to the first one that is not complete or cannot be read: from there
on all bytes are kept. So a unit without a size field, or with one of more than nine bytes, stops
the parser for good. -/
theorem av1_feed_complete {units chunks : List Bytes} {rest : Bytes}
    (hunits : ∀ u ∈ units, ReadableObu u)
    (hrest : ∀ n, obuLength rest = some n → rest.length < n)
    (hchunks : chunks.flatten = units.flatten ++ rest) :
    Av1Parser.feed chunks .new = some (units, ⟨rest, none⟩) := by
  rw [feed_new, hchunks, drain_units hunits hrest, List.map_map]
  congr 2
  exact List.map_id units

/-- A temporal delimiter and a padding unit of two bytes, cut inside the second, before a unit
without a size field. -/
theorem av1_feed_complete_two :
    Av1Parser.feed [[0x12, 0x00, 0x7A], [0x02, 1, 2, 0x10], [0x12, 0x00]] .new =
      some ([[0x12, 0x00], [0x7A, 0x02, 1, 2]], ⟨[0x10, 0x12, 0x00], none⟩) :=
  av1_feed_complete (by
    intro u hu
    obtain rfl | rfl : u = [0x12, 0x00] ∨ u = [0x7A, 0x02, 1, 2] := by simpa using hu
    · exact ⟨0x12, [0x12], [0x00], [], by decide⟩
    · exact ⟨0x7A, [0x7A], [0x02], [1, 2], by decide⟩) (by decide) rfl

end SiestaVR.Video
