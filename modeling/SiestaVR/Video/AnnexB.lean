import Mathlib.Data.List.TakeWhile
import SiestaVR.Video.HevcChunks

/-!
# Annex-B streams through the encoder loop (lib/alvr_stream_socket.rs:1246–1273)

The encoder process writes an Annex-B stream: NAL units, each behind a start code. The read
loop adds what each read returns to the parser and passes the frames on. When the process
has exited, `flush_final_frame` is to give the frame that is still open.

The parser takes a unit off the buffer when it sees the start code behind it, and nothing
follows the last one. So it takes all units but the last (`drain_annexB`), and what is
flushed is the open frame without that unit (`encoderLoop_groups`). If the last unit is a
picture, as it is when an encoder ends its stream with a frame, this picture is lost; if not,
the frames are as they should be (`encoderLoop_delivers_iff`).
-/

namespace SiestaVR.Video

open Lib
open SiestaVR.Stream (Bytes)

/-! ## The format -/

/-- A start code begins here. -/
def StartsWithCode (bytes : Bytes) : Prop :=
  bytes.take 3 = [0, 0, 1] ∨ bytes.take 4 = [0, 0, 0, 1]

instance (bytes : Bytes) : Decidable (StartsWithCode bytes) :=
  inferInstanceAs (Decidable (_ ∨ _))

/-- A stream made of these units, each behind a start code of three or four bytes. No start
code begins inside a unit. -/
inductive AnnexB : List Bytes → Bytes → Prop
  | nil : AnnexB [] []
  | cons {code unit stream : Bytes} {units : List Bytes}
    (hcode : code = [0, 0, 1] ∨ code = [0, 0, 0, 1]) (hunit : unit ≠ [])
    (hinside : ∀ j < unit.length, ¬ StartsWithCode ((unit ++ stream).drop j))
    (hrest : AnnexB units stream) : AnnexB (unit :: units) (code ++ (unit ++ stream))

/-- A unit with picture data (VCL). -/
def isPicture (unit : Bytes) : Bool := nalTypeOf (unit.headD 0) ≤ 31

/-- Units as they are passed on: each behind a start code of four bytes. -/
def encode (units : List Bytes) : Bytes := units.flatMap ([0, 0, 0, 1] ++ ·)

/-- The frames hold the units in order, one picture in each, except what follows the last
picture. -/
def Delivered (units frames : List Bytes) : Prop :=
  ∃ (groups : List (List Bytes)) (tail : List Bytes),
    units = groups.flatten ++ tail ∧ (∀ unit ∈ tail, isPicture unit = false) ∧
    frames = groups.map encode ∧ ∀ group ∈ groups, group.countP isPicture = 1

/-! ## The encoder loop -/

/-- What the process has written when a read returns nothing. -/
def chunksRead (reads : List Bytes) : List Bytes := reads.takeWhile (· ≠ [])

/-- The read loop for one run of the encoder process. -/
def encoderLoop (reads : List Bytes) (p : HevcParser) : Option (List Bytes × HevcParser) := do
  let (frames, p) ← HevcParser.feed (chunksRead reads) p.resetForNewChunk
  let (last, p) := p.flushFinalFrame
  return (frames ++ last.toList, p)

/-! ## The units of a stream -/

theorem codeLen_eq_none {bytes : Bytes} (h : ¬ StartsWithCode bytes) : codeLen bytes = none := by
  unfold StartsWithCode at h
  rw [codeLen, if_neg (fun hcode => h (.inl hcode.1)), if_neg (fun hcode => h (.inr hcode.1))]

variable {unit stream : Bytes} {units frames : List Bytes} {p : HevcParser}

theorem codeLen_code_append {code : Bytes} (hcode : code = [0, 0, 1] ∨ code = [0, 0, 0, 1])
    (hunit : unit ≠ []) (stream : Bytes) :
    codeLen (code ++ (unit ++ stream)) = some code.length := by
  obtain ⟨byte, bytes, rfl⟩ := List.exists_cons_of_ne_nil hunit
  obtain rfl | rfl := hcode
  · simp [codeLen]
  · simp [codeLen]

/-- Behind a stretch in which no code begins, the first code is the one that follows, if
any does. -/
theorem findCode_skip (hinside : ∀ j < unit.length, ¬ StartsWithCode ((unit ++ stream).drop j)) :
    findCode (unit ++ stream) = (findCode stream).map (· + unit.length) := by
  induction unit with
  | nil => simp
  | cons byte bytes ih =>
    have hhere : codeLen (byte :: (bytes ++ stream)) = none :=
      codeLen_eq_none (hinside 0 (Nat.succ_pos _))
    have hlater := ih fun j hj => hinside (j + 1) (Nat.succ_lt_succ hj)
    rw [List.cons_append, findCode, hhere, hlater]
    simp [Function.comp_def, Nat.add_assoc]

theorem findCode_annexB (h : AnnexB units stream) :
    findCode stream = if units = [] then none else some 0 := by
  cases h with
  | nil => rfl
  | @cons code unit stream units hcode hunit _ _ =>
    obtain ⟨byte, bytes, rfl⟩ : ∃ byte bytes, code = byte :: bytes := by
      obtain rfl | rfl := hcode <;> exact ⟨_, _, rfl⟩
    rw [if_neg (List.cons_ne_nil _ _)]
    exact findCode_cons.2 (.inl ⟨⟨_, codeLen_code_append hcode hunit stream⟩, rfl⟩)

/-- The unit that these bytes are. -/
def nalUnit (unit : Bytes) : NalUnit := nalOf unit unit.length

theorem nalOf_append (hunit : unit ≠ []) (stream : Bytes) :
    nalOf (unit ++ stream) unit.length = nalUnit unit := by
  obtain ⟨byte, bytes, rfl⟩ := List.exists_cons_of_ne_nil hunit
  rw [nalUnit, nalOf, nalOf, List.take_left, List.take_length]
  rfl

/-- The unit at the front of a stream is complete if there is another one behind it. -/
theorem peekNal_annexB {code : Bytes}
    (hcode : code = [0, 0, 1] ∨ code = [0, 0, 0, 1]) (hunit : unit ≠ [])
    (hinside : ∀ j < unit.length, ¬ StartsWithCode ((unit ++ stream).drop j))
    (hrest : AnnexB units stream) :
    peekNal (code ++ (unit ++ stream)) = if units = [] then none
      else some (⟨nalUnit unit, code ++ unit⟩, code.length + unit.length) := by
  have hfirst := findCode_annexB (.cons hcode hunit hinside hrest)
  rw [if_neg (List.cons_ne_nil _ _)] at hfirst
  have hnext := findCode_skip hinside
  rw [findCode_annexB hrest] at hnext
  simp only [peekNal, hfirst, Option.bind_eq_bind, Option.bind_some, List.drop_zero,
    codeLen_code_append hcode hunit, Nat.zero_add, List.drop_left, hnext]
  split
  · rfl
  · rw [Option.map_some, Option.bind_some, Nat.zero_add, nalOf_append hunit, slice, List.drop_zero,
      ← List.length_append, ← List.append_assoc, List.take_left]
    rfl

/-- **The parser takes all units but the last.** -/
theorem drain_annexB (h : AnnexB units stream) :
    (nals.drain stream).1.map (·.unit) = units.dropLast.map nalUnit := by
  induction h with
  | nil => rfl
  | @cons code unit stream units hcode hunit hinside hrest ih =>
    have hpeek := peekNal_annexB hcode hunit hinside hrest
    cases units with
    | nil =>
      rw [Extractor.drain_none (nals_next_none hpeek)]
      rfl
    | cons next units =>
      have hnext := nals_next_some hpeek
      rw [← List.append_assoc, ← List.length_append, List.drop_left, List.append_assoc] at hnext
      rw [Extractor.drain_some hnext, List.map_cons, ih]
      rfl

/-! ## Frames of units -/

/-- How the open frame stands for the units since the last frame: one picture at most. -/
structure OpenFrame (p : HevcParser) (units : List Bytes) : Prop where
  pendingFrame_eq : p.pendingFrame = encode units
  pendingHasVcl_iff : p.pendingHasVcl = true ↔ units.countP isPicture = 1
  countP_le : units.countP isPicture ≤ 1

theorem encode_append (units more : List Bytes) :
    encode (units ++ more) = encode units ++ encode more :=
  List.flatMap_append

theorem encode_singleton (unit : Bytes) : encode [unit] = [0, 0, 0, 1] ++ unit := by
  simp [encode]

theorem length_encode_pos (h : units ≠ []) : 0 < (encode units).length := by
  obtain ⟨unit, units, rfl⟩ := List.exists_cons_of_ne_nil h
  simp [encode]

@[simp] theorem store_pendingFrame (p : HevcParser) (u : Nal) :
    (p.store u).pendingFrame = p.pendingFrame := by
  unfold HevcParser.store
  split_ifs <;> rfl

@[simp] theorem store_pendingHasVcl (p : HevcParser) (u : Nal) :
    (p.store u).pendingHasVcl = p.pendingHasVcl := by
  unfold HevcParser.store
  split_ifs <;> rfl

theorem nalType_le_iff (unit : Bytes) : (nalUnit unit).nalType ≤ 31 ↔ isPicture unit = true := by
  simp [isPicture, nalUnit, nalOf]

theorem nalUnit_data (unit : Bytes) : (nalUnit unit).data = unit := List.take_length

theorem acceptNal_closing {nal : NalUnit} (hvcl : nal.nalType ≤ 31)
    (hpending : p.pendingHasVcl = true) (hframe : p.pendingFrame ≠ []) :
    p.acceptNal nal = ([p.pendingFrame],
      { p with pendingFrame := [0, 0, 0, 1] ++ nal.data, pendingHasVcl := true }) := by
  have hempty : ¬ p.pendingFrame.isEmpty = true := fun h => hframe (List.isEmpty_iff.1 h)
  rw [HevcParser.acceptNal]
  simp only [hvcl, hpending, hempty, and_self, if_true, List.nil_append]
  rfl

theorem acceptNal_joining {nal : NalUnit} (h : ¬ (nal.nalType ≤ 31 ∧ p.pendingHasVcl = true)) :
    p.acceptNal nal = ([], { p with
      pendingFrame := p.pendingFrame ++ [0, 0, 0, 1] ++ nal.data
      pendingHasVcl := p.pendingHasVcl || nal.nalType ≤ 31 }) := by
  rw [HevcParser.acceptNal]
  simp only [if_neg h]
  by_cases hvcl : nal.nalType ≤ 31
  · simp [hvcl]
  · simp [hvcl]

/-- One unit: it joins the open frame, or it closes that frame and opens the next. -/
theorem handleNal_openFrame {u : Nal} (hopen : OpenFrame p units) (hu : u.unit = nalUnit unit) :
    ∃ (closed : List (List Bytes)) (rest : List Bytes), units ++ [unit] = closed.flatten ++ rest ∧
      (handleNal p u).1 = closed.map encode ∧
      (∀ group ∈ closed, group.countP isPicture = 1) ∧ OpenFrame (handleNal p u).2 rest := by
  obtain ⟨hframe, hvcl, hcount⟩ := hopen
  rw [handleNal, hu]
  by_cases hclose : isPicture unit = true ∧ p.pendingHasVcl = true
  · have hone := hvcl.1 hclose.2
    have hne : (p.store u).pendingFrame ≠ [] := by
      rw [store_pendingFrame, hframe, ← List.length_pos_iff_ne_nil]
      apply length_encode_pos
      rintro rfl
      cases hone
    rw [acceptNal_closing ((nalType_le_iff unit).2 hclose.1) (by simpa using hclose.2) hne,
      nalUnit_data]
    refine ⟨[units], [unit], by simp, ?_, by simpa using hone, ?_, ?_, ?_⟩
    · rw [store_pendingFrame, hframe, List.map_singleton]
    · exact (encode_singleton unit).symm
    · simp [hclose.1]
    · simp [hclose.1]
  · rw [acceptNal_joining (by simpa [nalType_le_iff] using hclose), nalUnit_data]
    refine ⟨[], units ++ [unit], rfl, rfl, by simp, ?_, ?_, ?_⟩
    · show (p.store u).pendingFrame ++ _ ++ _ = _
      rw [store_pendingFrame, hframe, encode_append, encode_singleton, List.append_assoc]
    · simp only [nalType_le_iff, store_pendingHasVcl, List.countP_append, List.countP_singleton]
      grind
    · rw [List.countP_append, List.countP_singleton]
      grind

/-- **All units**: the frames closed so far and the open one are the units seen. -/
theorem handleAll_openFrame {more : List Bytes} {us : List Nal}
    (hopen : OpenFrame p units) (hus : us.map (·.unit) = more.map nalUnit) :
    ∃ (closed : List (List Bytes)) (rest : List Bytes), units ++ more = closed.flatten ++ rest ∧
      (Extractor.handleAll handleNal us p).1 = closed.map encode ∧
      (∀ group ∈ closed, group.countP isPicture = 1) ∧
      OpenFrame (Extractor.handleAll handleNal us p).2 rest := by
  induction us generalizing p units more with
  | nil =>
    obtain rfl : more = [] := List.map_eq_nil_iff.1 hus.symm
    exact ⟨[], units, by simp, rfl, by simp, hopen⟩
  | cons u us ih =>
    obtain ⟨unit, more, rfl, hu, hmore⟩ := List.map_eq_cons_iff.1 hus.symm
    obtain ⟨closed₁, rest₁, hsplit₁, hout₁, hone₁, hopen₁⟩ := handleNal_openFrame hopen hu.symm
    obtain ⟨closed₂, rest₂, hsplit₂, hout₂, hone₂, hopen₂⟩ := ih hopen₁ hmore.symm
    refine ⟨closed₁ ++ closed₂, rest₂, ?_, ?_, ?_, hopen₂⟩
    · rw [List.flatten_append, List.append_assoc, ← hsplit₂, ← List.append_assoc, ← hsplit₁,
        List.append_assoc, List.singleton_append]
    · rw [Extractor.handleAll, hout₁, hout₂, List.map_append]
    · exact fun group hgroup => (List.mem_append.1 hgroup).elim (hone₁ group) (hone₂ group)

/-- The open frame is flushed if it has a picture, and dropped if not. -/
theorem flushFinalFrame_openFrame {rest : List Bytes} (h : OpenFrame p rest) :
    ∃ (closed : List (List Bytes)) (tail : List Bytes), rest = closed.flatten ++ tail ∧
      p.flushFinalFrame.1.toList = closed.map encode ∧
      (∀ group ∈ closed, group.countP isPicture = 1) ∧ ∀ unit ∈ tail, isPicture unit = false := by
  obtain ⟨hframe, hvcl, hcount⟩ := h
  rw [HevcParser.flushFinalFrame]
  by_cases hclose : p.pendingHasVcl = true
  · have hone := hvcl.1 hclose
    have hempty : ¬ p.pendingFrame.isEmpty = true := by
      rw [List.isEmpty_iff, ← ne_eq, ← List.length_pos_iff_ne_nil, hframe]
      apply length_encode_pos
      rintro rfl
      cases hone
    refine ⟨[rest], [], by simp, ?_, by simpa using hone, by simp⟩
    rw [if_pos ⟨hclose, hempty⟩, hframe]
    rfl
  · have hzero : rest.countP isPicture = 0 := by
      have := mt hvcl.2 hclose
      omega
    refine ⟨[], rest, rfl, ?_, by simp, ?_⟩
    · rw [if_neg (fun h => hclose h.1)]
      rfl
    · simpa using List.countP_eq_zero.1 hzero

/-! ## The whole run -/

theorem encoderLoop_eq_some {reads : List Bytes} {q : HevcParser}
    (h : encoderLoop reads p = some (frames, q)) :
    ∃ out r, HevcParser.feed (chunksRead reads) p.resetForNewChunk = some (out, r) ∧
      frames = out ++ r.flushFinalFrame.1.toList := by
  obtain ⟨⟨out, r⟩, hfeed, h⟩ := Option.bind_eq_some_iff.1 h
  cases h
  exact ⟨out, r, hfeed, rfl⟩

/-- The frames of a run are those of all units but the last. -/
theorem encoderLoop_groups {reads : List Bytes} {q : HevcParser}
    (h : AnnexB units (chunksRead reads).flatten) (hrun : encoderLoop reads p = some (frames, q)) :
    Delivered units.dropLast frames := by
  obtain ⟨out, r, hfeed, rfl⟩ := encoderLoop_eq_some hrun
  have hdecode := nals.feed_decode (fun _ _ _ _ => decode_of_getFrames) rfl hfeed
  -- the run starts without an open frame
  have hnew : OpenFrame (p.resetForNewChunk.withBuffer []) [] :=
    ⟨rfl, iff_of_false Bool.false_ne_true (by decide), by decide⟩
  obtain ⟨closed, rest, hsplit, hout, hone, hopen⟩ := handleAll_openFrame hnew (drain_annexB h)
  have hframes : out = closed.map encode := (congrArg (·.1) hdecode).trans hout
  have hend : OpenFrame (r.withBuffer []) rest := by
    rw [show r.withBuffer [] = _ from congrArg (·.2.1) hdecode]
    exact hopen
  obtain ⟨last, tail, hrest, hflush, hlast, htail⟩ := flushFinalFrame_openFrame hend
  refine ⟨closed ++ last, tail, ?_, htail, ?_, ?_⟩
  · rw [List.flatten_append, List.append_assoc, ← hrest]
    exact hsplit
  · rw [List.map_append, ← hframes, ← hflush]
    rfl
  · exact fun group hgroup => (List.mem_append.1 hgroup).elim (hone group) (hlast group)

theorem flatten_map_encode (groups : List (List Bytes)) :
    (groups.map encode).flatten = encode groups.flatten := by
  induction groups with
  | nil => rfl
  | cons group groups ih =>
    rw [List.map_cons, List.flatten_cons, ih, List.flatten_cons, encode_append]

theorem Delivered.flatten_eq (h : Delivered units frames) :
    ∃ kept tail, units = kept ++ tail ∧ (∀ unit ∈ tail, isPicture unit = false) ∧
      frames.flatten = encode kept := by
  obtain ⟨groups, tail, hunits, htail, rfl, -⟩ := h
  exact ⟨groups.flatten, tail, hunits, htail, flatten_map_encode groups⟩

theorem not_delivered_of_picture {last : Bytes}
    (hlast : isPicture last = true) (h : Delivered units frames) :
    ¬ Delivered (units ++ [last]) frames := by
  intro hall
  obtain ⟨kept, tail, hunits, -, hframes⟩ := h.flatten_eq
  obtain ⟨kept', tail', hunits', htail', hframes'⟩ := hall.flatten_eq
  have hnone : tail' = [] := by
    rcases List.eq_nil_or_concat tail' with hnil | ⟨init, unit, rfl⟩
    · exact hnil
    · rw [List.concat_eq_append, ← List.append_assoc] at hunits'
      obtain rfl : last = unit := by simpa using (List.append_inj' hunits' rfl).2
      exact absurd hlast (by simp [htail' last (by simp)])
  rw [hnone, List.append_nil] at hunits'
  have hsame : encode kept = encode (units ++ [last]) := by rw [← hframes, hframes', hunits']
  have hlength := congrArg List.length hsame
  rw [hunits, encode_append, encode_append, encode_singleton] at hlength
  simp only [List.length_append, List.length_cons] at hlength
  omega

theorem Delivered.append (h : Delivered units frames) {last : Bytes}
    (hlast : isPicture last = false) : Delivered (units ++ [last]) frames := by
  obtain ⟨groups, tail, rfl, htail, hframes, hone⟩ := h
  refine ⟨groups, tail ++ [last], List.append_assoc _ _ _, ?_, hframes, hone⟩
  intro unit hunit
  obtain hunit | hunit := List.mem_append.1 hunit
  · exact htail unit hunit
  · rwa [List.mem_singleton.1 hunit]

theorem ne_nil_of_mem_chunksRead {reads : List Bytes} {chunk : Bytes}
    (h : chunk ∈ chunksRead reads) : chunk ≠ [] := by
  simpa using List.mem_takeWhile_imp h

/-- **When everything is delivered**: the first read returns three bytes or more, and the last
unit of the stream is no picture. -/
theorem encoderLoop_delivers_iff {units reads : List Bytes} (p : HevcParser)
    (h : AnnexB units (chunksRead reads).flatten) :
    (∃ frames q, encoderLoop reads p = some (frames, q) ∧ Delivered units frames) ↔
      (∀ first ∈ (chunksRead reads).head?, 3 ≤ first.length) ∧
        ∀ last ∈ units.getLast?, isPicture last = false := by
  have hsafe := feed_isSome_iff (p := p.resetForNewChunk) rfl
    (fun chunk (hchunk : chunk ∈ chunksRead reads) => ne_nil_of_mem_chunksRead hchunk)
  rw [← hsafe]
  constructor
  · rintro ⟨frames, q, hrun, hdelivered⟩
    obtain ⟨out, r, hfeed, -⟩ := encoderLoop_eq_some hrun
    refine ⟨by rw [hfeed]; rfl, fun last hlast => ?_⟩
    have hunits := List.dropLast_append_getLast? last hlast
    by_contra hpicture
    rw [Bool.not_eq_false] at hpicture
    refine not_delivered_of_picture hpicture (encoderLoop_groups h hrun) ?_
    rwa [hunits]
  · rintro ⟨hfeed, hlast⟩
    obtain ⟨⟨out, r⟩, hfeed⟩ := Option.isSome_iff_exists.1 hfeed
    have hrun : encoderLoop reads p =
        some (out ++ r.flushFinalFrame.1.toList, r.flushFinalFrame.2) := by
      rw [encoderLoop, hfeed]
      rfl
    refine ⟨_, _, hrun, ?_⟩
    -- The last unit was never followed by another, so it is not in the frames.
    have hinit := encoderLoop_groups h hrun
    cases hunits : units.getLast? with
    | none =>
      rw [List.getLast?_eq_none_iff.1 hunits] at hinit ⊢
      exact hinit
    | some last =>
      rw [← List.dropLast_append_getLast? last hunits]
      exact hinit.append (hlast last hunits)

/-- Two frames of one picture each: the second one does not come out. -/
theorem encoderLoop_loses_last_picture :
    AnnexB [[0x26, 7], [0x02, 8]] (chunksRead [[0, 0, 1, 0x26, 7, 0, 0, 1, 0x02, 8]]).flatten ∧
      ¬ ∃ frames q, encoderLoop [[0, 0, 1, 0x26, 7, 0, 0, 1, 0x02, 8]] .new = some (frames, q) ∧
        Delivered [[0x26, 7], [0x02, 8]] frames := by
  refine ⟨.cons (.inl rfl) (by decide) (by decide)
    (.cons (.inl rfl) (by decide) (by decide) .nil), ?_⟩
  rintro ⟨frames, q, hrun, hdelivered⟩
  have hfirst : encoderLoop [[0, 0, 1, 0x26, 7, 0, 0, 1, 0x02, 8]] .new =
      some ([[0, 0, 0, 1, 0x26, 7]], { HevcParser.new with buffer := [0, 0, 1, 0x02, 8] }) := by
    decide +kernel
  cases hfirst.symm.trans hrun
  have hone : Delivered [[0x26, 7]] [[0, 0, 0, 1, 0x26, 7]] :=
    ⟨[[[0x26, 7]]], [], rfl, by decide, rfl, by decide⟩
  exact not_delivered_of_picture (show isPicture [0x02, 8] = true by decide) hone hdelivered

/-- A stream that ends with a unit of supplemental information instead. -/
theorem encoderLoop_delivers_before_sei :
    ∃ frames q, encoderLoop [[0, 0, 1, 0x26], [7, 0, 0, 1, 0x4E, 1]] .new = some (frames, q) ∧
      Delivered [[0x26, 7], [0x4E, 1]] frames :=
  (encoderLoop_delivers_iff .new (.cons (.inl rfl) (by decide) (by decide)
    (.cons (.inl rfl) (by decide) (by decide) .nil))).2 (by decide)

end SiestaVR.Video
