import SiestaVR.Lib.Incremental
import SiestaVR.Stream.Wire

/-!
# The HEVC parser (lib/mod.rs:1717–1721, 1831–2026)

`HevcParser` cuts the output of an HEVC encoder into frames. It looks for start codes of
three or four bytes; the bytes between two of them are a NAL unit, and the units from one
picture (VCL) unit up to the next are a frame.

As with the AV1 parser, an index outside the buffer, a subtraction below zero and a loop
without end have no result. The subtraction is reachable: `find_next_start_code` computes
`len() - 3` for any buffer that is not empty, so a call with one or two bytes in the buffer
panics (`nextNalUnit_short`). With any other buffer a call takes the unit at its front
(`nextNalUnit_eq`).

Where a start code is seen depends on how many bytes follow: one byte after the code must be
there. `findCode_append` is the fact that makes this harmless: a code that is seen stays the
first one when bytes are added.
-/

namespace SiestaVR.Video

open Lib
open SiestaVR.Stream (Bytes)

/-! ## The code -/

/-- `a - b` on `usize`: panics below zero. -/
def subUsize (a b : Nat) : Option Nat :=
  if b ≤ a then some (a - b) else none

/-- `buffer[i] == c₀ && buffer[i + 1] == c₁ && ..`, evaluated from the left. -/
def matchesAt (buffer : Bytes) : Nat → Bytes → Option Bool
  | _, [] => some true
  | i, c :: cs => do
    let byte ← buffer[i]?
    if byte = c then matchesAt buffer (i + 1) cs else return false

/-- `&buffer[start..stop]`. -/
def sliceUsize (buffer : Bytes) (start stop : Nat) : Option Bytes :=
  if start ≤ stop ∧ stop ≤ buffer.length then some (slice buffer start (stop - start)) else none

structure NalUnit where
  nalType : UInt8
  data : Bytes
  isKeyframe : Bool
deriving DecidableEq, Repr

structure HevcParser where
  buffer : Bytes
  vps : Option Bytes
  sps : Option Bytes
  pps : Option Bytes
  pendingFrame : Bytes
  pendingHasVcl : Bool
deriving DecidableEq, Repr

/-- The type of the unit that starts with this byte. -/
def nalTypeOf (nalHeader : UInt8) : UInt8 := (nalHeader >>> 1) &&& 0x3F

namespace HevcParser

/-- `HevcParser::new`. -/
def new : HevcParser := ⟨[], none, none, none, [], false⟩

/-- `HevcParser::add_data`. -/
def addData (p : HevcParser) (data : Bytes) : HevcParser :=
  { p with buffer := p.buffer ++ data }

/-- `HevcParser::reset_for_new_chunk`. The parameter sets stay. -/
def resetForNewChunk (p : HevcParser) : HevcParser :=
  { p with buffer := [], pendingFrame := [], pendingHasVcl := false }

/-- The condition in the loop of `find_next_start_code`. -/
def startCodeAt (p : HevcParser) (i : Nat) : Option Bool := do
  if ← matchesAt p.buffer i [0, 0, 1] then
    return true
  let stop ← subUsize p.buffer.length 4
  if i < stop then matchesAt p.buffer i [0, 0, 0, 1] else return false

/-- The loop of `find_next_start_code` over a range of so many positions. -/
def findLoop (p : HevcParser) : Nat → Nat → Option (Option Nat)
  | 0, _ => some none
  | count + 1, i => do
    if ← p.startCodeAt i then return some i
    findLoop p count (i + 1)

/-- `HevcParser::find_next_start_code`. -/
def findNextStartCode (p : HevcParser) (startPos : Nat) : Option (Option Nat) :=
  if p.buffer.isEmpty then some none
  else do
    let stop ← subUsize p.buffer.length 3
    p.findLoop (stop - startPos) startPos

/-- The length of the start code that was found. -/
def startCodeLen (p : HevcParser) (startPos : Nat) : Option Nat := do
  if startPos + 3 < p.buffer.length then
    if ← matchesAt p.buffer (startPos + 2) [0, 1] then return 4
  return 3

/-- The parameter sets are kept with their start codes. -/
def storeParameterSet (p : HevcParser) (nalType : UInt8) (startPos nalEnd : Nat) :
    Option HevcParser :=
  if nalType = 32 then (sliceUsize p.buffer startPos nalEnd).map fun full => { p with vps := full }
  else if nalType = 33 then
    (sliceUsize p.buffer startPos nalEnd).map fun full => { p with sps := full }
  else if nalType = 34 then
    (sliceUsize p.buffer startPos nalEnd).map fun full => { p with pps := full }
  else some p

/-- `HevcParser::next_nal_unit`. -/
def nextNalUnit (p : HevcParser) : Option (Option NalUnit × HevcParser) := do
  match ← p.findNextStartCode 0 with
  | none => return (none, p)
  | some startPos =>
    let startCodeLen ← p.startCodeLen startPos
    match ← p.findNextStartCode (startPos + startCodeLen) with
    | none => return (none, p)
    | some nalEnd =>
      let nalHeaderPos := startPos + startCodeLen
      if p.buffer.length ≤ nalHeaderPos then
        return (none, p)
      let nalHeader ← p.buffer[nalHeaderPos]?
      let nalType := nalTypeOf nalHeader
      let nalData ← sliceUsize p.buffer nalHeaderPos nalEnd
      let p ← p.storeParameterSet nalType startPos nalEnd
      let _ ← sliceUsize p.buffer 0 nalEnd
      return (some ⟨nalType, nalData, 16 ≤ nalType ∧ nalType ≤ 21⟩,
        { p with buffer := p.buffer.drop nalEnd })

/-- The body of the loop of `get_frames`: the frame a unit closes, if it does. -/
def acceptNal (p : HevcParser) (nal : NalUnit) : List Bytes × HevcParser :=
  let isVcl := nal.nalType ≤ 31
  let (closed, p) :=
    if isVcl ∧ p.pendingHasVcl then
      (if p.pendingFrame.isEmpty then [] else [p.pendingFrame],
        { p with pendingFrame := [], pendingHasVcl := false })
    else ([], p)
  let p := if isVcl then { p with pendingHasVcl := true } else p
  (closed, { p with pendingFrame := p.pendingFrame ++ [0, 0, 0, 1] ++ nal.data })

/-- The loop of `get_frames`, for at most so many turns. -/
def framesLoop : Nat → HevcParser → Option (List Bytes × HevcParser)
  | 0, _ => none
  | turns + 1, p => do
    match ← p.nextNalUnit with
    | (none, p) => return ([], p)
    | (some nal, p) =>
      let (closed, p) := p.acceptNal nal
      let (frames, p) ← framesLoop turns p
      return (closed ++ frames, p)

/-- `HevcParser::get_frames`. Every unit takes bytes off the buffer. -/
def getFrames (p : HevcParser) : Option (List Bytes × HevcParser) :=
  framesLoop (p.buffer.length + 1) p

/-- `HevcParser::flush_final_frame`. -/
def flushFinalFrame (p : HevcParser) : Option Bytes × HevcParser :=
  (if p.pendingHasVcl ∧ ¬ p.pendingFrame.isEmpty then some p.pendingFrame else none,
    { p with pendingFrame := [], pendingHasVcl := false })

/-- A chunk of the stream is added, and frames are taken. -/
def feed : List Bytes → HevcParser → Option (List Bytes × HevcParser) :=
  Extractor.feed fun p chunk => (p.addData chunk).getFrames

end HevcParser

/-! ## Start codes -/

/-- The length of the start code that a list begins with, as the parser sees it: a byte must
follow the code. -/
def codeLen (bytes : Bytes) : Option Nat :=
  if bytes.take 3 = [0, 0, 1] ∧ 3 < bytes.length then some 3
  else if bytes.take 4 = [0, 0, 0, 1] ∧ 4 < bytes.length then some 4
  else none

/-- The first position where a start code is seen. -/
def findCode : Bytes → Option Nat
  | [] => none
  | byte :: bytes =>
    if (codeLen (byte :: bytes)).isSome then some 0 else (findCode bytes).map (· + 1)

variable {bytes buffer : Bytes} {n i : Nat} {p : HevcParser}

theorem codeLen_bounds (h : codeLen bytes = some n) :
    3 ≤ n ∧ n < bytes.length := by
  unfold codeLen at h
  grind

theorem codeLen_append_of_length (h : 5 ≤ bytes.length) (more : Bytes) :
    codeLen (bytes ++ more) = codeLen bytes := by
  have hlong : ∀ n, n < 5 → (n < (bytes ++ more).length ↔ n < bytes.length) := by
    intro n hn
    rw [List.length_append]
    omega
  rw [codeLen, codeLen, List.take_append_of_le_length (by omega),
    List.take_append_of_le_length (by omega)]
  simp only [hlong 3 (by omega), hlong 4 (by omega)]

theorem codeLen_append (h : codeLen bytes = some n) (more : Bytes) :
    codeLen (bytes ++ more) = some n := by
  by_cases hlong : 5 ≤ bytes.length
  · rw [codeLen_append_of_length hlong, h]
  · -- four bytes: only a short code can have been seen, and it stays
    unfold codeLen at h ⊢
    split at h
    · next hcode =>
      have hfollows : 3 < (bytes ++ more).length := by
        rw [List.length_append]
        omega
      rw [List.take_append_of_le_length (by omega), if_pos ⟨hcode.1, hfollows⟩]
      exact h
    · rw [if_neg (by omega)] at h
      cases h

theorem findCode_cons {byte : UInt8} :
    findCode (byte :: bytes) = some i ↔
      (∃ n, codeLen (byte :: bytes) = some n) ∧ i = 0 ∨
        codeLen (byte :: bytes) = none ∧ ∃ j, findCode bytes = some j ∧ i = j + 1 := by
  rw [findCode]
  cases codeLen (byte :: bytes) with
  | none => simp [eq_comm]
  | some n => simp [eq_comm]

theorem codeLen_of_findCode (h : findCode bytes = some i) :
    ∃ n, codeLen (bytes.drop i) = some n := by
  induction bytes generalizing i with
  | nil => cases h
  | cons byte bytes ih =>
    obtain ⟨hcode, rfl⟩ | ⟨-, j, hj, rfl⟩ := findCode_cons.1 h
    · exact hcode
    · exact ih hj

theorem findCode_lt (h : findCode bytes = some i) :
    i + 3 < bytes.length := by
  obtain ⟨n, hn⟩ := codeLen_of_findCode h
  have := codeLen_bounds hn
  rw [List.length_drop] at this
  omega

/-- **A code that is seen stays the first one.** -/
theorem findCode_append (h : findCode bytes = some i) (more : Bytes) :
    findCode (bytes ++ more) = some i := by
  induction bytes generalizing i with
  | nil => cases h
  | cons byte bytes ih =>
    obtain ⟨⟨n, hcode⟩, rfl⟩ | ⟨hnone, j, hj, rfl⟩ := findCode_cons.1 h
    · exact findCode_cons.2 (.inl ⟨⟨n, codeLen_append hcode more⟩, rfl⟩)
    · -- the code further on makes the list long enough here
      have hlong : 5 ≤ (byte :: bytes).length := by
        have := findCode_lt hj
        rw [List.length_cons]
        omega
      have hstill : codeLen (byte :: (bytes ++ more)) = none :=
        (codeLen_append_of_length hlong more).trans hnone
      exact findCode_cons.2 (.inr ⟨hstill, j, ih hj, rfl⟩)

theorem findCode_short (h : bytes.length ≤ 3) : findCode bytes = none := by
  cases hfind : findCode bytes with
  | none => rfl
  | some i =>
    have := findCode_lt hfind
    omega

/-! ## The search -/

theorem matchesAt_eq (pattern : Bytes) (h : i + pattern.length ≤ buffer.length) :
    matchesAt buffer i pattern = some (decide ((buffer.drop i).take pattern.length = pattern)) := by
  induction pattern generalizing i with
  | nil => simp [matchesAt]
  | cons c cs ih =>
    rw [List.length_cons] at h
    have hlt : i < buffer.length := by omega
    rw [matchesAt, List.getElem?_eq_getElem hlt, Option.bind_eq_bind, Option.bind_some,
      ih (by omega), List.drop_eq_getElem_cons hlt, List.length_cons, List.take_succ_cons]
    split
    · next hbyte => simp [hbyte]
    · next hbyte => simp [hbyte]

theorem startCodeAt_eq (h : i + 3 < p.buffer.length) :
    p.startCodeAt i = some (codeLen (p.buffer.drop i)).isSome := by
  rw [HevcParser.startCodeAt, matchesAt_eq [0, 0, 1] h.le, subUsize, if_pos (by omega), codeLen,
    List.length_drop]
  simp only [Option.bind_eq_bind, Option.bind_some, decide_eq_true_eq, List.length_cons,
    List.length_nil, Nat.zero_add, Nat.reduceAdd]
  by_cases hthree : (p.buffer.drop i).take 3 = [0, 0, 1]
  · rw [if_pos hthree, if_pos ⟨hthree, by omega⟩]
    rfl
  · rw [if_neg hthree, if_neg (c := _ ∧ 3 < _) (fun hboth => hthree hboth.1)]
    by_cases hroom : i < p.buffer.length - 4
    · have hfour : i + 4 ≤ p.buffer.length := by omega
      have hfollows : 4 < p.buffer.length - i := by omega
      rw [if_pos hroom, matchesAt_eq [0, 0, 0, 1] hfour]
      by_cases hcode : (p.buffer.drop i).take 4 = [0, 0, 0, 1]
      · simp [hcode, hfollows]
      · simp [hcode]
    · rw [if_neg hroom, if_neg (by omega)]
      rfl

theorem findLoop_eq {count : Nat} (h : count = p.buffer.length - 3 - i) :
    p.findLoop count i = some ((findCode (p.buffer.drop i)).map (· + i)) := by
  induction count generalizing i with
  | zero =>
    rw [HevcParser.findLoop, findCode_short (by rw [List.length_drop]; omega)]
    rfl
  | succ count ih =>
    have hlt : i < p.buffer.length := by omega
    rw [HevcParser.findLoop, startCodeAt_eq (by omega), ih (by omega),
      List.drop_eq_getElem_cons hlt, findCode]
    simp only [Option.bind_eq_bind, Option.bind_some]
    split
    · simp
    · rw [Option.map_map]
      congr 2
      funext j
      show j + (i + 1) = j + 1 + i
      omega

/-- A buffer that is not empty, but too short for `len() - 3`. -/
def Short (buffer : Bytes) : Prop := buffer.length = 1 ∨ buffer.length = 2

instance (buffer : Bytes) : Decidable (Short buffer) :=
  inferInstanceAs (Decidable (_ ∨ _))

theorem findNextStartCode_eq (h : ¬ Short p.buffer) (start : Nat) :
    p.findNextStartCode start = some ((findCode (p.buffer.drop start)).map (· + start)) := by
  unfold HevcParser.findNextStartCode
  split
  · next hempty =>
    rw [List.isEmpty_iff.1 hempty, List.drop_nil]
    rfl
  · next hempty =>
    have hlong : 3 ≤ p.buffer.length := by
      have hpos := List.length_pos_of_ne_nil (fun hnil => hempty (List.isEmpty_iff.2 hnil))
      unfold Short at h
      omega
    rw [subUsize, if_pos hlong]
    exact findLoop_eq rfl

theorem findNextStartCode_short (h : Short p.buffer) (start : Nat) :
    p.findNextStartCode start = none := by
  unfold Short at h
  have hempty : ¬ p.buffer.isEmpty := fun hempty => by
    rw [List.isEmpty_iff.1 hempty, List.length_nil] at h
    omega
  rw [HevcParser.findNextStartCode, if_neg hempty, subUsize, if_neg (by omega)]
  rfl

theorem startCodeLen_eq {start : Nat}
    (h : codeLen (p.buffer.drop start) = some n) : p.startCodeLen start = some n := by
  have hbounds := codeLen_bounds h
  rw [List.length_drop] at hbounds
  have hroom : start + 2 + 2 ≤ p.buffer.length := by omega
  rw [HevcParser.startCodeLen, if_pos (by omega), matchesAt_eq [0, 1] hroom, ← List.drop_drop]
  generalize p.buffer.drop start = bytes at h
  simp only [Option.bind_eq_bind, Option.bind_some, decide_eq_true_eq, List.length_cons,
    List.length_nil, Nat.zero_add, Nat.reduceAdd]
  -- the third byte tells the two codes apart
  unfold codeLen at h
  split at h
  · next hthree =>
    cases h
    have hthird : (bytes.drop 2).take 1 = [1] := by
      rw [← List.drop_take (i := 2) (j := 3), hthree.1]
      rfl
    rw [if_neg]
    · rfl
    · intro hlong
      have hzero : (bytes.drop 2).take 1 = [0] := by
        show (bytes.drop 2).take (min 1 2) = [0]
        rw [← List.take_take, hlong]
        rfl
      rw [hzero] at hthird
      cases hthird
  · split at h
    · next hfour =>
      cases h
      have htail : (bytes.drop 2).take 2 = [0, 1] := by
        rw [← List.drop_take (i := 2) (j := 4), hfour.1]
        rfl
      rw [if_pos htail]
      rfl
    · cases h

/-! ## One unit -/

/-- A unit as it is taken off the buffer. -/
structure Nal where
  unit : NalUnit
  /-- The unit with its start code, as the parameter sets are kept. -/
  full : Bytes
deriving DecidableEq, Repr

/-- The unit in the first so many bytes. The header is read without a look at its length. -/
def nalOf (bytes : Bytes) (length : Nat) : NalUnit :=
  let nalType := nalTypeOf (bytes.headD 0)
  ⟨nalType, bytes.take length, 16 ≤ nalType ∧ nalType ≤ 21⟩

/-- The first unit of a buffer: from one start code to the next. What comes before the first
code is skipped. -/
def peekNal (buffer : Bytes) : Option (Nal × Nat) := do
  let start ← findCode buffer
  let code ← codeLen (buffer.drop start)
  let length ← findCode (buffer.drop (start + code))
  return (⟨nalOf (buffer.drop (start + code)) length, slice buffer start (code + length)⟩,
    start + code + length)

variable {u : Nal}

theorem peekNal_eq_some :
    peekNal buffer = some (u, n) ↔ ∃ start code length, findCode buffer = some start ∧
      codeLen (buffer.drop start) = some code ∧
      findCode (buffer.drop (start + code)) = some length ∧
      u = ⟨nalOf (buffer.drop (start + code)) length, slice buffer start (code + length)⟩ ∧
      n = start + code + length := by
  unfold peekNal
  simp only [Option.bind_eq_bind, Option.bind_eq_some_iff, Option.pure_def, Option.some.injEq,
    Prod.mk.injEq, eq_comm (b := u), eq_comm (b := n)]
  grind

/-- The bytes a unit takes are there, and the code that ends it comes after them. -/
theorem peekNal_bounds (h : peekNal buffer = some (u, n)) :
    3 ≤ n ∧ n + 3 < buffer.length := by
  obtain ⟨start, code, length, -, hcode, hlength, -, rfl⟩ := peekNal_eq_some.1 h
  have hbounds := codeLen_bounds hcode
  have hlt := findCode_lt hlength
  rw [List.length_drop] at hbounds hlt
  omega

theorem peekNal_append (more : Bytes)
    (h : peekNal buffer = some (u, n)) : peekNal (buffer ++ more) = some (u, n) := by
  have hle := peekNal_bounds h
  obtain ⟨start, code, length, hstart, hcode, hlength, rfl, rfl⟩ := peekNal_eq_some.1 h
  have hfirst : (buffer ++ more).drop start = buffer.drop start ++ more :=
    List.drop_append_of_le_length (by omega)
  have hsecond : (buffer ++ more).drop (start + code) = buffer.drop (start + code) ++ more :=
    List.drop_append_of_le_length (by omega)
  refine peekNal_eq_some.2 ⟨start, code, length, findCode_append hstart more, ?_, ?_, ?_, rfl⟩
  · rw [hfirst, codeLen_append hcode]
  · rw [hsecond, findCode_append hlength]
  · have hnonempty : buffer.drop (start + code) ≠ [] := by
      rw [← List.length_pos_iff_ne_nil, List.length_drop]
      omega
    have hhead : (buffer.drop (start + code) ++ more).headD 0 =
        (buffer.drop (start + code)).headD 0 := by
      rw [List.headD_eq_head?_getD, List.headD_eq_head?_getD,
        List.head?_append_of_ne_nil _ hnonempty]
    have hdata : (buffer.drop (start + code) ++ more).take length =
        (buffer.drop (start + code)).take length :=
      List.take_append_of_le_length (by rw [List.length_drop]; omega)
    have hfull : slice (buffer ++ more) start (code + length) =
        slice buffer start (code + length) := by
      rw [slice, hfirst, List.take_append_of_le_length (by rw [List.length_drop]; omega), slice]
    rw [hsecond, hfull, nalOf, nalOf, hhead, hdata]

/-- The units of an HEVC stream. -/
def nals : Extractor UInt8 Nal where
  peek := peekNal
  peek_pos h := by
    have := peekNal_bounds h
    omega
  peek_le h := by
    have := peekNal_bounds h
    omega
  peek_append := peekNal_append

/-- The parser with another buffer. -/
def HevcParser.withBuffer (p : HevcParser) (buffer : Bytes) : HevcParser :=
  { p with buffer := buffer }

/-- The parameter set that a unit is, if it is one. -/
def HevcParser.store (p : HevcParser) (u : Nal) : HevcParser :=
  if u.unit.nalType = 32 then { p with vps := some u.full }
  else if u.unit.nalType = 33 then { p with sps := some u.full }
  else if u.unit.nalType = 34 then { p with pps := some u.full }
  else p

theorem storeParameterSet_eq {start stop : Nat} (hle : start ≤ stop)
    (hstop : stop ≤ p.buffer.length) (hfull : u.full = slice p.buffer start (stop - start)) :
    p.storeParameterSet u.unit.nalType start stop = some (p.store u) := by
  have hslice : sliceUsize p.buffer start stop = some u.full := by
    rw [sliceUsize, if_pos ⟨hle, hstop⟩, hfull]
  unfold HevcParser.storeParameterSet HevcParser.store
  rw [hslice]
  split_ifs <;> rfl

@[simp] theorem store_buffer (p : HevcParser) (u : Nal) : (p.store u).buffer = p.buffer := by
  unfold HevcParser.store
  split_ifs <;> rfl

theorem nextNalUnit_short (h : Short p.buffer) : p.nextNalUnit = none := by
  rw [HevcParser.nextNalUnit, findNextStartCode_short h]
  rfl

theorem nals_next_none (h : peekNal buffer = none) :
    nals.next buffer = none := by
  show (peekNal buffer).map _ = none
  rw [h]
  rfl

theorem nals_next_some (h : peekNal buffer = some (u, n)) :
    nals.next buffer = some (u, buffer.drop n) := by
  show (peekNal buffer).map _ = _
  rw [h]
  rfl

/-- **One call**: the unit at the front if it is complete, and otherwise nothing. -/
theorem nextNalUnit_eq (h : ¬ Short p.buffer) :
    p.nextNalUnit = some (match nals.next p.buffer with
      | none => (none, p)
      | some (u, rest) => (some u.unit, (p.store u).withBuffer rest)) := by
  rw [HevcParser.nextNalUnit, findNextStartCode_eq h, List.drop_zero]
  simp only [Option.bind_eq_bind, Option.bind_some, Nat.add_zero]
  cases hstart : findCode p.buffer with
  | none =>
    rw [nals_next_none (by rw [peekNal, hstart]; rfl)]
    rfl
  | some start =>
    obtain ⟨code, hcode⟩ := codeLen_of_findCode hstart
    simp only [Option.map_some, startCodeLen_eq hcode, Option.bind_some, findNextStartCode_eq h]
    -- A unit is complete when the code of the next one is there.
    cases hlength : findCode (p.buffer.drop (start + code)) with
    | none =>
      rw [nals_next_none (by simp [peekNal, hstart, hcode, hlength])]
      rfl
    | some length =>
      have hpeek := peekNal_eq_some.2 ⟨start, code, length, hstart, hcode, hlength, rfl, rfl⟩
      have hbounds := peekNal_bounds hpeek
      rw [nals_next_some hpeek]
      have hin : start + code < p.buffer.length := by omega
      have hheader : p.buffer[start + code]? = some ((p.buffer.drop (start + code)).headD 0) := by
        rw [List.drop_eq_getElem_cons hin, List.getElem?_eq_getElem hin]
        rfl
      have hdata : sliceUsize p.buffer (start + code) (length + (start + code)) =
          some ((p.buffer.drop (start + code)).take length) := by
        rw [sliceUsize, if_pos (by omega), slice, Nat.add_sub_cancel]
      have hfull : slice p.buffer start (code + length) =
          slice p.buffer start (length + (start + code) - start) := by
        congr 1
        omega
      have hstore := storeParameterSet_eq
        (u := ⟨nalOf (p.buffer.drop (start + code)) length, slice p.buffer start (code + length)⟩)
        (show start ≤ length + (start + code) by omega) (by omega) hfull
      have hdrain : sliceUsize p.buffer 0 (length + (start + code)) =
          some (slice p.buffer 0 (length + (start + code))) := if_pos (by omega)
      rw [nalOf] at hstore
      simp only [Option.map_some, Option.bind_some, if_neg (Nat.not_le.2 hin), hheader, hdata,
        hstore, store_buffer, hdrain]
      rw [Nat.add_comm length]
      rfl

end SiestaVR.Video
