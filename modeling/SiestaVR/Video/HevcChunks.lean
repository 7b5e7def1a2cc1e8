import SiestaVR.Video.Hevc

/-!
# Feeding the HEVC parser

`get_frames` decodes all units that are complete (`getFrames_eq_decode`), so over the chunks
of a stream the parser returns what it returns for the whole stream (`hevc_feed_eq_whole`):
neither a unit nor a start code notices that a chunk ends inside it.

What the chunks do decide is whether there is a result at all. The encoder's output comes in
reads of any size. After a first read of one or two bytes `get_frames` subtracts below zero;
with three bytes in the buffer it is safe for good, because the code that ends a unit stays
in the buffer (`hevc_feed_safe_iff`).
-/

namespace SiestaVR.Video

open Lib
open SiestaVR.Stream (Bytes)

/-! ## Frames -/

/-- What the parser does with a unit, apart from taking it off the buffer. -/
def handleNal (p : HevcParser) (u : Nal) : List Bytes × HevcParser :=
  (p.store u).acceptNal u.unit

theorem withBuffer_withBuffer (p : HevcParser) (buffer buffer' : Bytes) :
    (p.withBuffer buffer).withBuffer buffer' = p.withBuffer buffer' := rfl

theorem store_withBuffer (p : HevcParser) (u : Nal) (buffer : Bytes) :
    (p.withBuffer buffer).store u = (p.store u).withBuffer buffer := by
  unfold HevcParser.store
  split_ifs <;> rfl

theorem acceptNal_withBuffer (p : HevcParser) (nal : NalUnit) (buffer : Bytes) :
    (p.withBuffer buffer).acceptNal nal =
      ((p.acceptNal nal).1, (p.acceptNal nal).2.withBuffer buffer) := by
  unfold HevcParser.acceptNal HevcParser.withBuffer
  dsimp only
  split_ifs <;> rfl

variable {buffer : Bytes} {p q : HevcParser}

theorem nals_next_bounds {rest : Bytes} {u : Nal} (h : nals.next buffer = some (u, rest)) :
    3 < rest.length := by
  obtain ⟨n, hpeek, rfl⟩ := Extractor.next_eq_some h
  have := peekNal_bounds hpeek
  rw [List.length_drop]
  omega

theorem not_short_of_lt (h : 2 < buffer.length) : ¬ Short buffer := by
  unfold Short
  omega

theorem framesLoop_eq (s : HevcParser) {turns : Nat} (hshort : ¬ Short buffer)
    (hturns : buffer.length < turns) :
    (s.withBuffer buffer).framesLoop turns = some ((nals.decode handleNal s buffer).1,
      (nals.decode handleNal s buffer).2.1.withBuffer (nals.decode handleNal s buffer).2.2) := by
  induction turns generalizing s buffer with
  | zero => omega
  | succ turns ih =>
    rw [HevcParser.framesLoop, nextNalUnit_eq hshort, Option.bind_eq_bind, Option.bind_some]
    rw [show (s.withBuffer buffer).buffer = buffer from rfl]
    cases hnext : nals.next buffer with
    | none =>
      rw [Extractor.decode_none handleNal s hnext]
      rfl
    | some taken =>
      obtain ⟨u, rest⟩ := taken
      have hshorter := Extractor.shrinks hnext
      have hbounds := nals_next_bounds hnext
      rw [Extractor.decode_some handleNal s hnext]
      dsimp only
      rw [store_withBuffer, withBuffer_withBuffer, acceptNal_withBuffer]
      dsimp only
      rw [ih _ (not_short_of_lt (by omega)) (by omega)]
      rfl

/-- A call panics if there are one or two bytes in the buffer. -/
theorem getFrames_short (h : Short p.buffer) : p.getFrames = none := by
  rw [HevcParser.getFrames, HevcParser.framesLoop, nextNalUnit_short h]
  rfl

theorem getFrames_eq_decode (h : ¬ Short p.buffer) :
    p.getFrames = some ((nals.decode handleNal p p.buffer).1,
      (nals.decode handleNal p p.buffer).2.1.withBuffer (nals.decode handleNal p p.buffer).2.2) :=
  framesLoop_eq p h (Nat.lt_succ_self _)

/-! ## Chunks -/

theorem not_short_of_getFrames {out : List Bytes}
    (h : p.getFrames = some (out, q)) : ¬ Short p.buffer := by
  intro hshort
  rw [getFrames_short hshort] at h
  cases h

theorem handleNal_withBuffer (p : HevcParser) (u : Nal) (buffer : Bytes) :
    handleNal (p.withBuffer buffer) u =
      ((handleNal p u).1, (handleNal p u).2.withBuffer buffer) := by
  rw [handleNal, store_withBuffer, acceptNal_withBuffer]
  rfl

theorem eq_of_withBuffer (hstate : p.withBuffer [] = q.withBuffer [])
    (hbuffer : p.buffer = q.buffer) : p = q :=
  calc p = (p.withBuffer []).withBuffer p.buffer := rfl
    _ = (q.withBuffer []).withBuffer q.buffer := by rw [hstate, hbuffer]
    _ = q := rfl

/-- A call, with the parser's own buffer apart from the rest of its state. -/
theorem decode_of_getFrames {chunk : Bytes} {out : List Bytes}
    (h : (p.addData chunk).getFrames = some (out, q)) :
    (out, q.withBuffer [], q.buffer) =
      nals.decode handleNal (p.withBuffer []) (p.buffer ++ chunk) := by
  rw [getFrames_eq_decode (not_short_of_getFrames h)] at h
  cases h
  rw [show p.withBuffer [] = (p.addData chunk).withBuffer [] from rfl,
    nals.decode_commute fun s u => handleNal_withBuffer s u []]
  rfl

/-- The first bytes must come together, or there is a call with one or two of them. -/
theorem not_short_of_feed {chunks : List Bytes} {out : List Bytes}
    (hp : p.buffer = []) (h : HevcParser.feed chunks p = some (out, q)) :
    ¬ Short chunks.flatten := by
  induction chunks generalizing p out with
  | nil =>
    rintro (h | h) <;> cases h
  | cons chunk chunks ih =>
    obtain ⟨out₁, p₁, out₂, hfirst, hrest, -⟩ := Extractor.feed_cons_eq_some h
    have hchunk : ¬ Short chunk := by
      have := not_short_of_getFrames hfirst
      rwa [show (p.addData chunk).buffer = chunk by rw [HevcParser.addData, hp]; rfl] at this
    rw [List.flatten_cons]
    cases chunk with
    | nil =>
      refine ih ?_ hrest
      have hbuffer := congrArg (·.2.2) (decode_of_getFrames hfirst)
      rw [hp] at hbuffer
      exact hbuffer
    | cons byte bytes =>
      unfold Short at hchunk ⊢
      simp only [List.length_append, List.length_cons] at hchunk ⊢
      omega

/-- **Chunks do not matter** as long as no call panics: the frames, the open frame and the
buffer are those of one call with the whole stream. -/
theorem hevc_feed_eq_whole {chunks : List Bytes} {frames : List Bytes} {p : HevcParser}
    (h : HevcParser.feed chunks .new = some (frames, p)) :
    (HevcParser.new.addData chunks.flatten).getFrames = some (frames, p) := by
  have hchunked := nals.feed_decode (fun _ _ _ _ => decode_of_getFrames) rfl h
  obtain ⟨⟨whole, q⟩, hwhole⟩ : ∃ r, (HevcParser.new.addData chunks.flatten).getFrames = some r :=
    ⟨_, getFrames_eq_decode (not_short_of_feed rfl h)⟩
  -- both decode the stream from the same state
  have hsame := hchunked.trans (decode_of_getFrames hwhole).symm
  simp only [Prod.mk.injEq] at hsame
  obtain ⟨rfl, hstate, hbuffer⟩ := hsame
  rw [hwhole, eq_of_withBuffer hstate hbuffer]

/-- Two chunk borders inside a start code of four bytes. -/
theorem hevc_feed_eq_whole_split_code :
    (HevcParser.new.addData ([[0, 0, 1, 0x26, 7, 0], [0, 0],
        [1, 0x26, 8, 0, 0, 1, 0x26, 9]] : List Bytes).flatten).getFrames =
      some ([[0, 0, 0, 1, 0x26, 7]],
        { HevcParser.new with
          buffer := [0, 0, 1, 0x26, 9]
          pendingFrame := [0, 0, 0, 1, 0x26, 8]
          pendingHasVcl := true }) :=
  hevc_feed_eq_whole (by decide +kernel)

/-! ## Panics -/

theorem three_le_length_drain (h : 3 ≤ buffer.length) :
    3 ≤ (nals.drain buffer).2.length := by
  induction buffer using nals.induct with
  | none buffer hnext =>
    rw [Extractor.drain_none hnext]
    exact h
  | some buffer u rest hnext ih =>
    rw [Extractor.drain_some hnext]
    exact ih (nals_next_bounds hnext).le

theorem getFrames_of_three_le (p : HevcParser) (chunk : Bytes)
    (h : 3 ≤ (p.buffer ++ chunk).length) :
    ∃ out q, (p.addData chunk).getFrames = some (out, q) ∧ 3 ≤ q.buffer.length :=
  ⟨_, _, getFrames_eq_decode (not_short_of_lt h), three_le_length_drain h⟩

theorem feed_of_three_le (p : HevcParser) (chunks : List Bytes) (h : 3 ≤ p.buffer.length) :
    ∃ out q, HevcParser.feed chunks p = some (out, q) ∧ 3 ≤ q.buffer.length := by
  refine Extractor.feed_total (I := fun p : HevcParser => 3 ≤ p.buffer.length) ?_ chunks h
  intro p chunk hp
  apply getFrames_of_three_le
  rw [List.length_append]
  omega

/-- A parser with an empty buffer and chunks that are not empty: everything depends on the
first. -/
theorem feed_isSome_iff (hp : p.buffer = []) {chunks : List Bytes}
    (hchunks : ∀ chunk ∈ chunks, chunk ≠ []) :
    (HevcParser.feed chunks p).isSome ↔ ∀ first ∈ chunks.head?, 3 ≤ first.length := by
  cases chunks with
  | nil => simp [HevcParser.feed, Extractor.feed]
  | cons first chunks =>
    have hbuffer : p.buffer ++ first = first := by rw [hp, List.nil_append]
    have hnonempty := List.length_pos_of_ne_nil (hchunks first List.mem_cons_self)
    simp only [List.head?_cons, Option.mem_some_iff, forall_eq']
    constructor
    · intro h
      obtain ⟨⟨out, q⟩, hfeed⟩ := Option.isSome_iff_exists.1 h
      obtain ⟨_, _, _, hfirst, -, -⟩ := Extractor.feed_cons_eq_some hfeed
      have hshort : ¬ Short (p.buffer ++ first) := not_short_of_getFrames hfirst
      rw [hbuffer, Short] at hshort
      omega
    · intro hlong
      obtain ⟨out, p₁, hfirst, hp₁⟩ := getFrames_of_three_le p first (by rwa [hbuffer])
      obtain ⟨more, q, hrest, -⟩ := feed_of_three_le p₁ chunks hp₁
      unfold HevcParser.feed at hrest ⊢
      rw [Extractor.feed, hfirst, Option.bind_eq_bind, Option.bind_some]
      dsimp only
      rw [hrest]
      rfl

/-- **When the parser is safe**: with chunks that are not empty, no call panics exactly if
the first chunk has three bytes or more, or there is none. -/
theorem hevc_feed_safe_iff {chunks : List Bytes} (hchunks : ∀ chunk ∈ chunks, chunk ≠ []) :
    (HevcParser.feed chunks .new).isSome ↔ ∀ first ∈ chunks.head?, 3 ≤ first.length :=
  feed_isSome_iff rfl hchunks

/-- An encoder whose first read returns a single byte. -/
theorem hevc_feed_single_byte :
    (∀ chunk ∈ ([[0], [0, 1, 0x26, 7]] : List Bytes), chunk ≠ []) ∧
      HevcParser.feed [[0], [0, 1, 0x26, 7]] .new = none := by
  decide +kernel

/-- The same stream in other chunks. -/
theorem hevc_feed_safe_three_bytes :
    (HevcParser.feed [[0, 0, 1], [0x26, 7]] .new).isSome :=
  (hevc_feed_safe_iff (by decide)).2 (by decide)

end SiestaVR.Video
