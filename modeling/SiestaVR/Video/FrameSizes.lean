import Mathlib.Algebra.Order.Round
import Mathlib.Data.Rat.Floor
import SiestaVR.Lib.Prefixes
import SiestaVR.Lib.Tables

/-!
# Frame sizes from a table (lib/alvr_stream_socket.rs:3719–3801)

A table gives the size of every frame of a video at some bitrates. For a bitrate between two
columns `bytes_interp_cached` interpolates linearly. It keeps the two columns it used, and
uses them again if they enclose the next bitrate.

When they do not, it searches for the bitrate *truncated to an integer*. If the truncated
bitrate is itself a column, the search ends at this column and the bracket is the one below:
the wanted bitrate lies above it, and the value is extrapolated from the wrong columns. At the
first column the bracket is that column twice, and the interpolation divides by zero.

`bytesInterpCached_correct_iff` says that this is all that goes wrong. The arithmetic is that
of the rationals; a division by zero has no value.
-/

namespace SiestaVR.Video

open Lib

/-! ## The code -/

/-- `FrameSizeTable`. There is a size for every frame and column. -/
structure FrameSizeTable where
  fps : UInt32
  codecStr : String
  mbpsCols : List UInt32
  /-- By column, then by frame. -/
  framesizes : List (List UInt32)
  startOffset : Nat
  length_framesizes : framesizes.length = mbpsCols.length
  length_column : ∀ v ∈ framesizes, ∀ w ∈ framesizes, v.length = w.length
deriving DecidableEq, Repr

/-- `x.round() as u32`: to the nearest integer, within the range of the type. -/
def roundU32 (x : ℚ) : Nat := min (round x).toNat (2 ^ 32 - 1)

/-- `x as u32`: towards zero, within the range of the type. -/
def truncU32 (x : ℚ) : Nat := min ⌊x⌋.toNat (2 ^ 32 - 1)

/-- A column's bitrate. -/
def colAt (cols : List UInt32) (i : Nat) : ℚ := (cols.getD i 0).toNat

/-- `binary_search_by` in a sorted list, where both outcomes give an index. -/
def searchCol (cols : List UInt32) (x : Nat) : Nat := cols.countP (·.toNat < x)

/-- `col_index`: the index of each column. -/
def colIndex (cols : List UInt32) : Table Nat Nat :=
  Table.insertAll (fun c => c.1.toNat) (fun c => c.2) cols.zipIdx ∅

/-- The cached columns enclose the bitrate. -/
def CacheValid (cols : List UInt32) (wantMbps : ℚ) (bracket : Nat × Nat) : Prop :=
  bracket.1 < cols.length ∧ bracket.2 < cols.length ∧
    colAt cols bracket.1 ≤ wantMbps ∧ wantMbps ≤ colAt cols bracket.2

instance (cols : List UInt32) (wantMbps : ℚ) (bracket : Nat × Nat) :
    Decidable (CacheValid cols wantMbps bracket) :=
  inferInstanceAs (Decidable (_ ∧ _))

namespace FrameSizeTable

/-- The size of a frame in a column, from the table's start offset on. -/
def bytes (t : FrameSizeTable) (col frameIdx : Nat) : Option Nat := do
  let v ← t.framesizes[col]?
  let b ← v[(frameIdx + t.startOffset) % v.length]?
  return b.toNat

/-- The interpolation between two columns. A division by zero has no value. -/
def interpolate (t : FrameSizeTable) (wantMbps : ℚ) (frameIdx lo hi : Nat) : Option Nat :=
  let m0 := colAt t.mbpsCols lo
  let m1 := colAt t.mbpsCols hi
  if m1 - m0 = 0 then none
  else do
    let f := (wantMbps - m0) / (m1 - m0)
    let v0 ← t.bytes lo frameIdx
    let v1 ← t.bytes hi frameIdx
    return roundU32 (v0 + f * (v1 - v0))

/-- `FrameSizeTable::bytes_interp_cached`, with the contents of the two cells before and
after. -/
def bytesInterpCached (t : FrameSizeTable) (wantMbps : ℚ) (frameIdx : Nat)
    (bracket : Nat × Nat) : Option Nat × (Nat × Nat) :=
  match (colIndex t.mbpsCols).lookup (roundU32 wantMbps) with
  | some col => (t.bytes col frameIdx, bracket)
  | none =>
    let n := t.mbpsCols.length
    if n = 0 then (some 0, bracket)
    else if wantMbps ≤ colAt t.mbpsCols 0 then (t.bytes 0 frameIdx, bracket)
    else if colAt t.mbpsCols (n - 1) ≤ wantMbps then (t.bytes (n - 1) frameIdx, bracket)
    else if CacheValid t.mbpsCols wantMbps bracket then
      (t.interpolate wantMbps frameIdx bracket.1 bracket.2, bracket)
    else
      let hi := searchCol t.mbpsCols (truncU32 wantMbps)
      let lo := hi - 1
      (t.interpolate wantMbps frameIdx lo hi, (lo, hi))

/-- The cells after a sequence of calls, from those a new sender has. -/
def bracketAfter (t : FrameSizeTable) (calls : List (ℚ × Nat)) : Nat × Nat :=
  calls.foldl (fun bracket call => (t.bytesInterpCached call.1 call.2 bracket).2) (0, 1)

/-- What the size should be: that of an end column outside the table, and between the two
columns that enclose the bitrate otherwise. -/
def interpolated (t : FrameSizeTable) (wantMbps : ℚ) (frameIdx : Nat) : Option Nat :=
  let above := t.mbpsCols.countP fun c => (c.toNat : ℚ) ≤ wantMbps
  if above = 0 then t.bytes 0 frameIdx
  else if above = t.mbpsCols.length then t.bytes (above - 1) frameIdx
  else t.interpolate wantMbps frameIdx (above - 1) above

/-- There is a frame. -/
def HasFrames (t : FrameSizeTable) : Prop := ∃ v ∈ t.framesizes, v ≠ []

end FrameSizeTable

/-! ## The cells -/

/-- What a call makes of the cells. Only the columns matter. -/
def nextBracket (cols : List UInt32) (bracket : Nat × Nat) (wantMbps : ℚ) : Nat × Nat :=
  if (colIndex cols).lookup (roundU32 wantMbps) ≠ none ∨ cols.length = 0 ∨
      wantMbps ≤ colAt cols 0 ∨ colAt cols (cols.length - 1) ≤ wantMbps ∨
      CacheValid cols wantMbps bracket then bracket
  else
    let hi := searchCol cols (truncU32 wantMbps)
    (hi - 1, hi)

/-- The cells after calls for these bitrates. -/
def bracketAfter (cols : List UInt32) (wants : List ℚ) : Nat × Nat :=
  wants.foldl (nextBracket cols) (0, 1)

theorem bytesInterpCached_snd (t : FrameSizeTable) (wantMbps : ℚ) (frameIdx : Nat)
    (bracket : Nat × Nat) : (t.bytesInterpCached wantMbps frameIdx bracket).2 =
      nextBracket t.mbpsCols bracket wantMbps := by
  unfold FrameSizeTable.bytesInterpCached nextBracket
  cases (colIndex t.mbpsCols).lookup (roundU32 wantMbps) with
  | some col => simp
  | none =>
    simp only [ne_eq, not_true_eq_false, false_or]
    split_ifs <;> grind

theorem bracketAfter_eq (t : FrameSizeTable) (calls : List (ℚ × Nat)) :
    t.bracketAfter calls = bracketAfter t.mbpsCols (calls.map Prod.fst) := by
  rw [FrameSizeTable.bracketAfter, bracketAfter, List.foldl_map]
  congr 1
  funext bracket call
  exact bytesInterpCached_snd t call.1 call.2 bracket

/-- Neighbours, or the first column twice. -/
def IsBracket (bracket : Nat × Nat) : Prop := bracket.2 = bracket.1 + 1 ∨ bracket = (0, 0)

theorem isBracket_nextBracket {cols : List UInt32} {bracket : Nat × Nat} (h : IsBracket bracket)
    (wantMbps : ℚ) : IsBracket (nextBracket cols bracket wantMbps) := by
  unfold nextBracket
  split
  · exact h
  · unfold IsBracket
    dsimp only
    rw [Prod.mk.injEq]
    omega

theorem isBracket_bracketAfter (cols : List UInt32) (wants : List ℚ) :
    IsBracket (bracketAfter cols wants) :=
  List.foldlRecOn wants (nextBracket cols) (.inl rfl) fun _ h want _ =>
    isBracket_nextBracket h want

/-! ## Columns -/

section Columns

variable {cols : List UInt32} {want : ℚ}

theorem colAt_eq {i : Nat} {c : UInt32} (h : cols[i]? = some c) : colAt cols i = c.toNat := by
  rw [colAt, List.getD_eq_getElem?_getD, h, Option.getD_some]

theorem colAt_getElem {i : Nat} (h : i < cols.length) : colAt cols i = cols[i].toNat :=
  colAt_eq (List.getElem?_eq_getElem h)

theorem roundU32_col (c : UInt32) : roundU32 (c.toNat : ℚ) = c.toNat := by
  have := c.toNat_lt
  rw [roundU32, show ((c.toNat : ℕ) : ℚ) = ((c.toNat : ℤ) : ℚ) by norm_cast, round_intCast,
    Int.toNat_natCast]
  omega

theorem ne_col (hcol : ∀ c ∈ cols, c.toNat ≠ roundU32 want) {c : UInt32} (hc : c ∈ cols) :
    (c.toNat : ℚ) ≠ want := by
  rintro rfl
  exact hcol c hc (roundU32_col c).symm

theorem lookup_colIndex_eq_none (hcol : ∀ c ∈ cols, c.toNat ≠ roundU32 want) :
    (colIndex cols).lookup (roundU32 want) = none := by
  rw [colIndex, Table.lookup_insertAll_of_ne]
  · rfl
  · intro c hc
    exact hcol c.1 (List.fst_mem_of_mem_zipIdx hc)

theorem initial_le (hsorted : cols.Pairwise (· < ·)) (want : ℚ) :
    Initial (fun c : UInt32 => (c.toNat : ℚ) ≤ want) cols := by
  refine hsorted.imp fun {a b} hab hb => ?_
  have hle : (a.toNat : ℚ) ≤ b.toNat := by exact_mod_cast (UInt32.lt_iff_toNat_lt.1 hab).le
  simpa using hle.trans (by simpa using hb)

theorem initial_lt (hsorted : cols.Pairwise (· < ·)) (x : Nat) :
    Initial (fun c : UInt32 => c.toNat < x) cols := by
  refine hsorted.imp fun {a b} hab hb => ?_
  have hlt := UInt32.lt_iff_toNat_lt.1 hab
  simp only [decide_eq_true_eq] at hb ⊢
  omega

theorem truncU32_inside (hpos : 0 ≤ want) {c : UInt32} (hc : want ≤ c.toNat) :
    (truncU32 want : ℤ) = ⌊want⌋ := by
  have hfloor : 0 ≤ ⌊want⌋ := Int.floor_nonneg.2 hpos
  have hle : ⌊want⌋ ≤ c.toNat := by
    have : ⌊want⌋ ≤ ⌊(c.toNat : ℚ)⌋ := Int.floor_le_floor hc
    simpa using this
  have := c.toNat_lt
  rw [truncU32]
  omega

/-- The search for a truncated bitrate that is no column ends between the right columns. -/
theorem searchCol_eq (hpos : 0 ≤ want) {c : UInt32} (hc : want ≤ c.toNat)
    (htrunc : ∀ c ∈ cols, c.toNat ≠ truncU32 want) :
    searchCol cols (truncU32 want) = cols.countP fun c => (c.toNat : ℚ) ≤ want := by
  refine List.countP_congr fun d hd => ?_
  have hfloor := truncU32_inside hpos hc
  have hne := htrunc d hd
  have hle : (d.toNat : ℚ) ≤ want ↔ (d.toNat : ℤ) ≤ ⌊want⌋ := by
    rw [Int.le_floor]
    norm_cast
  simp only [decide_eq_true_eq, hle]
  omega

end Columns

/-! ## Sizes -/

section Sizes

variable {t : FrameSizeTable} {want : ℚ}

theorem bytes_isSome (hframes : t.HasFrames) {col : Nat} (hcol : col < t.mbpsCols.length)
    (frameIdx : Nat) : ∃ size, t.bytes col frameIdx = some size := by
  rw [← t.length_framesizes] at hcol
  have hmem : t.framesizes[col] ∈ t.framesizes := List.getElem_mem hcol
  have hpos : 0 < t.framesizes[col].length := by
    obtain ⟨v, hv, hne⟩ := hframes
    rw [t.length_column _ hmem v hv]
    exact List.length_pos_of_ne_nil hne
  have hindex := Nat.mod_lt (frameIdx + t.startOffset) hpos
  rw [FrameSizeTable.bytes, List.getElem?_eq_getElem hcol, Option.bind_eq_bind, Option.bind_some,
    List.getElem?_eq_getElem hindex]
  exact ⟨_, rfl⟩

theorem interpolate_eq {frameIdx lo hi v0 v1 : Nat} (h0 : t.bytes lo frameIdx = some v0)
    (h1 : t.bytes hi frameIdx = some v1) (hne : colAt t.mbpsCols hi - colAt t.mbpsCols lo ≠ 0) :
    t.interpolate want frameIdx lo hi = some (roundU32 (v0 + (want - colAt t.mbpsCols lo) /
      (colAt t.mbpsCols hi - colAt t.mbpsCols lo) * (v1 - v0))) := by
  rw [FrameSizeTable.interpolate, if_neg hne, h0, h1]
  rfl

theorem interpolate_eq_none {frameIdx lo hi : Nat}
    (h : colAt t.mbpsCols hi - colAt t.mbpsCols lo = 0) :
    t.interpolate want frameIdx lo hi = none :=
  if_pos h

theorem interpolate_isSome (hframes : t.HasFrames) {lo hi : Nat} (hlo : lo < t.mbpsCols.length)
    (hhi : hi < t.mbpsCols.length) (hne : colAt t.mbpsCols hi - colAt t.mbpsCols lo ≠ 0)
    (frameIdx : Nat) : ∃ size, t.interpolate want frameIdx lo hi = some size := by
  obtain ⟨v0, h0⟩ := bytes_isSome hframes hlo frameIdx
  obtain ⟨v1, h1⟩ := bytes_isSome hframes hhi frameIdx
  exact ⟨_, interpolate_eq h0 h1 hne⟩

theorem colAt_lt {cols : List UInt32} (hsorted : cols.Pairwise (· < ·)) {i j : Nat} (hij : i < j)
    (hj : j < cols.length) : colAt cols i < colAt cols j := by
  rw [colAt_getElem (hij.trans hj), colAt_getElem hj]
  exact_mod_cast UInt32.lt_iff_toNat_lt.1 (List.pairwise_iff_getElem.1 hsorted i j _ hj hij)

theorem interpolated_isSome (hsorted : t.mbpsCols.Pairwise (· < ·)) (hframes : t.HasFrames)
    (frameIdx : Nat) : ∃ size, t.interpolated want frameIdx = some size := by
  have hpos : 0 < t.mbpsCols.length := by
    obtain ⟨v, hv, -⟩ := hframes
    rw [← t.length_framesizes]
    exact List.length_pos_of_mem hv
  have hle := List.countP_le_length (p := fun c : UInt32 => decide ((c.toNat : ℚ) ≤ want))
    (l := t.mbpsCols)
  rw [FrameSizeTable.interpolated]
  split
  · exact bytes_isSome hframes hpos frameIdx
  · split
    · exact bytes_isSome hframes (by omega) frameIdx
    · refine interpolate_isSome hframes (by omega) (by omega) (sub_ne_zero.2 ?_) frameIdx
      exact (colAt_lt hsorted (by omega) (by omega)).ne'

/-! ## When the answer is right -/

/-- The bitrate is outside the table, or the cached columns enclose it, or the truncated
bitrate is no column. -/
def SearchSafe (cols : List UInt32) (bracket : Nat × Nat) (want : ℚ) : Prop :=
  want ≤ colAt cols 0 ∨ colAt cols (cols.length - 1) ≤ want ∨ CacheValid cols want bracket ∨
    ∀ c ∈ cols, c.toNat ≠ truncU32 want

theorem countP_le_iff (hsorted : t.mbpsCols.Pairwise (· < ·)) {i : Nat}
    (hi : i < t.mbpsCols.length) :
    (i < t.mbpsCols.countP fun c => (c.toNat : ℚ) ≤ want) ↔ colAt t.mbpsCols i ≤ want := by
  rw [lt_countP_iff (initial_le hsorted want) (List.getElem?_eq_getElem hi), colAt_getElem hi,
    decide_eq_true_eq]

theorem interpolated_eq_interpolate (hsorted : t.mbpsCols.Pairwise (· < ·)) {lo frameIdx : Nat}
    (hlo : lo + 1 < t.mbpsCols.length) (hle : colAt t.mbpsCols lo ≤ want)
    (hlt : want < colAt t.mbpsCols (lo + 1)) :
    t.interpolated want frameIdx = t.interpolate want frameIdx lo (lo + 1) := by
  have hbelow := (countP_le_iff hsorted (by omega)).2 hle
  have habove := mt (countP_le_iff hsorted hlo).1 (not_le.2 hlt)
  have hcount : (t.mbpsCols.countP fun c => (c.toNat : ℚ) ≤ want) = lo + 1 := by omega
  rw [FrameSizeTable.interpolated, hcount, if_neg (Nat.succ_ne_zero _), if_neg hlo.ne]
  rfl

theorem interpolated_below (hsorted : t.mbpsCols.Pairwise (· < ·)) (hpos : 0 < t.mbpsCols.length)
    (hlt : want < colAt t.mbpsCols 0) (frameIdx : Nat) :
    t.interpolated want frameIdx = t.bytes 0 frameIdx := by
  have hnone := mt (countP_le_iff hsorted hpos).1 (not_le.2 hlt)
  rw [FrameSizeTable.interpolated, if_pos (by omega)]

theorem interpolated_above (hsorted : t.mbpsCols.Pairwise (· < ·)) (hpos : 0 < t.mbpsCols.length)
    (hle : colAt t.mbpsCols (t.mbpsCols.length - 1) ≤ want) (frameIdx : Nat) :
    t.interpolated want frameIdx = t.bytes (t.mbpsCols.length - 1) frameIdx := by
  have hall := (countP_le_iff hsorted (by omega)).2 hle
  have hcount : (t.mbpsCols.countP fun c => (c.toNat : ℚ) ≤ want) = t.mbpsCols.length := by
    have := List.countP_le_length (p := fun c : UInt32 => decide ((c.toNat : ℚ) ≤ want))
      (l := t.mbpsCols)
    omega
  rw [FrameSizeTable.interpolated, hcount, if_neg hpos.ne', if_pos rfl]

/-- Inside the table, with cells that do not enclose the bitrate, the code searches. -/
theorem bytesInterpCached_search (hpos : 0 < t.mbpsCols.length) {bracket : Nat × Nat}
    (hcol : ∀ c ∈ t.mbpsCols, c.toNat ≠ roundU32 want) (hfirst : colAt t.mbpsCols 0 < want)
    (hlast : want < colAt t.mbpsCols (t.mbpsCols.length - 1))
    (hvalid : ¬ CacheValid t.mbpsCols want bracket) (frameIdx : Nat) :
    (t.bytesInterpCached want frameIdx bracket).1 =
      t.interpolate want frameIdx (searchCol t.mbpsCols (truncU32 want) - 1)
        (searchCol t.mbpsCols (truncU32 want)) := by
  rw [FrameSizeTable.bytesInterpCached, lookup_colIndex_eq_none hcol]
  dsimp only
  rw [if_neg hpos.ne', if_neg (not_le.2 hfirst), if_neg (not_le.2 hlast), if_neg hvalid]

/-- **A safe search gives the interpolation between the right columns.** -/
theorem bytesInterpCached_of_searchSafe (hsorted : t.mbpsCols.Pairwise (· < ·))
    (hne : t.mbpsCols ≠ []) {bracket : Nat × Nat} (hbracket : IsBracket bracket)
    (hcol : ∀ c ∈ t.mbpsCols, c.toNat ≠ roundU32 want) (hsafe : SearchSafe t.mbpsCols bracket want)
    (frameIdx : Nat) :
    (t.bytesInterpCached want frameIdx bracket).1 = t.interpolated want frameIdx := by
  have hpos := List.length_pos_of_ne_nil hne
  have hnot : ∀ i < t.mbpsCols.length, colAt t.mbpsCols i ≠ want := fun i hi => by
    rw [colAt_getElem hi]
    exact ne_col hcol (List.getElem_mem hi)
  -- The search is the only branch in which the truncation matters.
  by_cases hsearch : colAt t.mbpsCols 0 < want ∧
      want < colAt t.mbpsCols (t.mbpsCols.length - 1) ∧ ¬ CacheValid t.mbpsCols want bracket
  · obtain ⟨hfirst, hlast, hvalid⟩ := hsearch
    have htrunc := ((hsafe.resolve_left (not_le.2 hfirst)).resolve_left
      (not_le.2 hlast)).resolve_left hvalid
    have hzero : 0 ≤ want := le_trans (Nat.cast_nonneg _) hfirst.le
    have hbelow := (countP_le_iff hsorted hpos).2 hfirst.le
    have habove := mt (countP_le_iff hsorted (Nat.sub_lt hpos Nat.one_pos)).1 (not_le.2 hlast)
    rw [bytesInterpCached_search hpos hcol hfirst hlast hvalid, searchCol_eq hzero hlast.le htrunc,
      FrameSizeTable.interpolated, if_neg (by omega), if_neg (by omega)]
  · rw [FrameSizeTable.bytesInterpCached, lookup_colIndex_eq_none hcol]
    dsimp only
    rw [if_neg hpos.ne']
    split_ifs with hfirst hlast hvalid
    · exact (interpolated_below hsorted hpos (lt_of_le_of_ne hfirst (hnot 0 hpos).symm) _).symm
    · exact (interpolated_above hsorted hpos hlast _).symm
    · -- the cells enclose the bitrate, which is no column
      obtain ⟨hlo, hhi, hge, hle⟩ := hvalid
      obtain hnext | rfl := hbracket
      · rw [hnext] at hhi hle ⊢
        exact (interpolated_eq_interpolate hsorted hhi hge
          (lt_of_le_of_ne hle (hnot _ hhi).symm)).symm
      · exact absurd (le_antisymm hge hle) (hnot 0 hlo)
    · exact absurd ⟨not_le.1 hfirst, not_le.1 hlast, hvalid⟩ hsearch

/-! ## When it is not -/

/-- A table with one column of large sizes. -/
def peakTable (cols : List UInt32) (peak : Nat) : FrameSizeTable where
  fps := 90
  codecStr := "HEVC"
  mbpsCols := cols
  framesizes := (List.range cols.length).map fun col => [if col = peak then 0xFFFFFFFF else 0]
  startOffset := 0
  length_framesizes := by rw [List.length_map, List.length_range]
  length_column := by
    intro v hv w hw
    obtain ⟨_, -, rfl⟩ := List.mem_map.1 hv
    obtain ⟨_, -, rfl⟩ := List.mem_map.1 hw
    rfl

@[simp] theorem peakTable_mbpsCols (cols : List UInt32) (peak : Nat) :
    (peakTable cols peak).mbpsCols = cols := rfl

theorem peakTable_bytes (cols : List UInt32) (peak : Nat) {col : Nat} (hcol : col < cols.length) :
    (peakTable cols peak).bytes col 0 = some (if col = peak then 2 ^ 32 - 1 else 0) := by
  rw [FrameSizeTable.bytes, peakTable]
  simp only [List.getElem?_map, List.getElem?_range hcol, Option.map_some, Option.bind_eq_bind,
    Option.bind_some]
  split <;> rfl

theorem peakTable_hasFrames {cols : List UInt32} (peak : Nat) (hne : cols ≠ []) :
    (peakTable cols peak).HasFrames := by
  refine ⟨_, List.mem_map_of_mem (List.mem_range.2 (List.length_pos_of_ne_nil hne)), ?_⟩
  exact List.cons_ne_nil _ _

section WrongBracket

variable {cols : List UInt32}

/-- A bitrate whose integer part is a column it does not round to. -/
theorem half_le_of_not_round {c : UInt32} (hfloor : ⌊want⌋ = c.toNat)
    (hround : c.toNat ≠ roundU32 want) : 1 / 2 ≤ want - c.toNat := by
  by_contra hlt
  have hle : (c.toNat : ℚ) ≤ want := by
    have := Int.floor_le want
    rw [hfloor] at this
    exact_mod_cast this
  have hself : round want = c.toNat := by
    rw [round_eq, Int.floor_eq_iff]
    push_cast
    constructor <;> linarith
  have := c.toNat_lt
  rw [roundU32, hself] at hround
  omega

theorem one_le_roundU32 {y : ℚ} (hy : 1 / 2 ≤ y) : 1 ≤ roundU32 y := by
  have hround : 1 ≤ round y := by
    rw [round_eq, Int.le_floor]
    push_cast
    linarith
  rw [roundU32]
  omega

theorem searchCol_col (hsorted : cols.Pairwise (· < ·)) {i : Nat} (hi : i < cols.length) :
    searchCol cols cols[i].toNat = i := by
  have hself := mt (lt_countP_iff (initial_lt hsorted cols[i].toNat)
    (List.getElem?_eq_getElem hi)).1 (by simp)
  have hprev : i - 1 < cols.length := by omega
  have hbefore : i - 1 < i → i - 1 < searchCol cols cols[i].toNat := fun hlt => by
    refine (lt_countP_iff (initial_lt hsorted _) (List.getElem?_eq_getElem hprev)).2 ?_
    have := UInt32.lt_iff_toNat_lt.1 (List.pairwise_iff_getElem.1 hsorted (i - 1) i hprev hi hlt)
    simpa using this
  rw [searchCol] at hbefore ⊢
  omega

/-- With the peak above, the code's bracket gives nothing. -/
theorem interpolate_below_peak {i : Nat} (hi : i < cols.length) (want : ℚ) :
    (peakTable cols (i + 1)).interpolate want 0 (i - 1) i = none ∨
      (peakTable cols (i + 1)).interpolate want 0 (i - 1) i = some 0 := by
  by_cases hdiff : colAt cols i - colAt cols (i - 1) = 0
  · exact .inl (interpolate_eq_none hdiff)
  · right
    have hlo := peakTable_bytes cols (i + 1) (show i - 1 < cols.length by omega)
    have hhi := peakTable_bytes cols (i + 1) hi
    rw [if_neg (by omega)] at hlo hhi
    rw [interpolate_eq hlo hhi hdiff]
    simp [roundU32]

/-- The right one gives more. -/
theorem interpolate_at_peak (hsorted : cols.Pairwise (· < ·)) {i : Nat} (hi : i + 1 < cols.length)
    (hhalf : 1 / 2 ≤ want - colAt cols i) :
    ∃ size, (peakTable cols (i + 1)).interpolate want 0 i (i + 1) = some size ∧ 1 ≤ size := by
  have hlt := colAt_lt hsorted (Nat.lt_succ_self i) hi
  have hlo := peakTable_bytes cols (i + 1) (show i < cols.length by omega)
  have hhi := peakTable_bytes cols (i + 1) hi
  rw [if_neg (by omega)] at hlo
  rw [if_pos rfl] at hhi
  refine ⟨_, interpolate_eq hlo hhi (sub_ne_zero.2 hlt.ne'), one_le_roundU32 ?_⟩
  -- half of the distance between columns is worth half of the peak at least
  have hwide : colAt cols (i + 1) - colAt cols i ≤ 2 ^ 32 - 1 := by
    have hmax : cols[i + 1].toNat + 1 ≤ 2 ^ 32 := cols[i + 1].toNat_lt
    have hcast : colAt cols (i + 1) + 1 ≤ 2 ^ 32 := by
      rw [colAt_getElem hi]
      exact_mod_cast hmax
    have hnonneg : 0 ≤ colAt cols i := Nat.cast_nonneg _
    linarith
  have hdist : 0 < colAt cols (i + 1) - colAt cols i := sub_pos.2 hlt
  have hshare : 1 / 2 / (colAt cols (i + 1) - colAt cols i) ≤
      (want - colAt cols i) / (colAt cols (i + 1) - colAt cols i) := by gcongr
  calc (1 : ℚ) / 2
      = 1 / 2 / (colAt cols (i + 1) - colAt cols i) * (colAt cols (i + 1) - colAt cols i) := by
        field_simp
    _ ≤ (want - colAt cols i) / (colAt cols (i + 1) - colAt cols i) * (2 ^ 32 - 1) := by gcongr
    _ = _ := by
        simp only [peakTable_mbpsCols]
        push_cast
        ring

/-- Above the half there is a next column, and the bitrate is below it. -/
theorem below_next_column (hsorted : cols.Pairwise (· < ·)) {i : Nat} (hi : i < cols.length)
    (hfloor : ⌊want⌋ = cols[i].toNat) (hhalf : 1 / 2 ≤ want - colAt cols i)
    (hlast : want < colAt cols (cols.length - 1)) :
    i + 1 < cols.length ∧ want < colAt cols (i + 1) := by
  have hnext : i + 1 < cols.length := by
    by_contra hend
    rw [show cols.length - 1 = i by omega] at hlast
    linarith
  have hstep : cols[i].toNat + 1 ≤ cols[i + 1].toNat :=
    UInt32.lt_iff_toNat_lt.1 (List.pairwise_iff_getElem.1 hsorted i (i + 1) hi hnext (by omega))
  have hfract := Int.lt_floor_add_one want
  rw [hfloor] at hfract
  refine ⟨hnext, ?_⟩
  rw [colAt_getElem hnext]
  calc want < (cols[i].toNat : ℤ) + 1 := hfract
    _ ≤ cols[i + 1].toNat := by exact_mod_cast hstep

/-- **An unsafe search**: for some contents of the table the answer is wrong, or there is none. -/
theorem bytesInterpCached_of_not_searchSafe (hsorted : cols.Pairwise (· < ·)) (hne : cols ≠ [])
    {bracket : Nat × Nat} (hcol : ∀ c ∈ cols, c.toNat ≠ roundU32 want)
    (hwrongSearch : ¬ SearchSafe cols bracket want) :
    ∃ t : FrameSizeTable, t.mbpsCols = cols ∧ t.HasFrames ∧
      (t.bytesInterpCached want 0 bracket).1 ≠ t.interpolated want 0 := by
  simp only [SearchSafe, not_or, not_forall, not_not, not_le] at hwrongSearch
  obtain ⟨hfirst, hlast, hvalid, c, hc, htrunc⟩ := hwrongSearch
  have hpos := List.length_pos_of_ne_nil hne
  obtain ⟨i, hi, rfl⟩ := List.getElem_of_mem hc
  have hzero : 0 ≤ want := le_trans (Nat.cast_nonneg _) hfirst.le
  have hfloor : ⌊want⌋ = cols[i].toNat := by rw [← truncU32_inside hzero hlast.le, htrunc]
  have hhalf := half_le_of_not_round hfloor (hcol _ hc)
  rw [← colAt_getElem hi] at hhalf
  obtain ⟨hnext, habove⟩ := below_next_column hsorted hi hfloor hhalf hlast
  have hcode : ((peakTable cols (i + 1)).bytesInterpCached want 0 bracket).1 =
      (peakTable cols (i + 1)).interpolate want 0 (i - 1) i := by
    rw [bytesInterpCached_search (t := peakTable cols (i + 1)) hpos hcol hfirst hlast hvalid,
      peakTable_mbpsCols, ← htrunc, searchCol_col hsorted hi]
  have hle : colAt cols i ≤ want := by linarith
  have hspec : (peakTable cols (i + 1)).interpolated want 0 =
      (peakTable cols (i + 1)).interpolate want 0 i (i + 1) :=
    interpolated_eq_interpolate hsorted hnext hle habove
  refine ⟨peakTable cols (i + 1), rfl, peakTable_hasFrames _ hne, ?_⟩
  obtain ⟨size, hsize, hone⟩ := interpolate_at_peak hsorted hnext hhalf
  rw [hcode, hspec, hsize]
  obtain hnone | hnothing := interpolate_below_peak hi want
  · rw [hnone]
    exact (Option.some_ne_none size).symm
  · rw [hnothing]
    exact fun hsame => absurd (Option.some.inj hsame) (by omega)

end WrongBracket

end Sizes

/-- **When frame sizes are right**: for given columns, earlier calls and a bitrate that does
not round to a column, the size is defined and the interpolation between the enclosing columns
for every frame of every table with these columns exactly if the bitrate is outside the table,
or the cached columns enclose it, or its integer part is no column. -/
theorem bytesInterpCached_correct_iff {cols : List UInt32} (hsorted : cols.Pairwise (· < ·))
    (hne : cols ≠ []) (calls : List (ℚ × Nat)) {want : ℚ}
    (hcol : ∀ c ∈ cols, c.toNat ≠ roundU32 want) :
    (∀ t : FrameSizeTable, t.mbpsCols = cols → t.HasFrames → ∀ frameIdx, ∃ size,
      (t.bytesInterpCached want frameIdx (t.bracketAfter calls)).1 = some size ∧
        t.interpolated want frameIdx = some size) ↔
      want ≤ colAt cols 0 ∨ colAt cols (cols.length - 1) ≤ want ∨
        CacheValid cols want (bracketAfter cols (calls.map Prod.fst)) ∨
        ∀ c ∈ cols, c.toNat ≠ truncU32 want := by
  constructor
  · intro hright
    by_contra hwrongSearch
    obtain ⟨t, rfl, hframes, hwrong⟩ :=
      bytesInterpCached_of_not_searchSafe hsorted hne hcol hwrongSearch
    obtain ⟨size, hcode, hspec⟩ := hright t rfl hframes 0
    rw [bracketAfter_eq] at hcode
    exact hwrong (hcode.trans hspec.symm)
  · rintro hsafe t rfl hframes frameIdx
    obtain ⟨size, hspec⟩ := interpolated_isSome hsorted hframes frameIdx
    rw [bracketAfter_eq, bytesInterpCached_of_searchSafe hsorted hne (isBracket_bracketAfter _ _)
      hcol hsafe]
    exact ⟨size, hspec, hspec⟩

/-- Three columns, one frame. -/
def threeColumns : FrameSizeTable where
  fps := 90
  codecStr := "HEVC"
  mbpsCols := [5, 10, 15]
  framesizes := [[1000], [2000], [4000]]
  startOffset := 0
  length_framesizes := rfl
  length_column := by decide

/-- At 10.6 Mbps the first call extrapolates from 5 and 10 Mbps. After a call for 12 Mbps the
answer is another one. At 5.6 Mbps there is none then. -/
theorem threeColumns_depends_on_cache :
    (threeColumns.bytesInterpCached (53 / 5) 0 (threeColumns.bracketAfter [])).1 = some 2120 ∧
      threeColumns.interpolated (53 / 5) 0 = some 2240 ∧
      (threeColumns.bytesInterpCached (53 / 5) 0 (threeColumns.bracketAfter [(12, 0)])).1 =
        some 2240 ∧
      (threeColumns.bytesInterpCached (28 / 5) 0 (threeColumns.bracketAfter [(12, 0)])).1 =
        none := by
  decide +kernel

/-- At 12 Mbps all is well. -/
theorem threeColumns_correct_at_twelve :
    ∃ size, (threeColumns.bytesInterpCached 12 0 (threeColumns.bracketAfter [(53 / 5, 0)])).1 =
        some size ∧ threeColumns.interpolated 12 0 = some size := by
  have hsorted : ([5, 10, 15] : List UInt32).Pairwise (· < ·) := by decide
  have hround : roundU32 12 = 12 := by decide +kernel
  have htrunc : truncU32 12 = 12 := by decide +kernel
  refine (bytesInterpCached_correct_iff hsorted (List.cons_ne_nil _ _) _ ?_).2
    (.inr (.inr (.inr ?_))) threeColumns rfl ?_ 0
  · rw [hround]
    simp
  · rw [htrunc]
    simp
  · exact ⟨[1000], List.mem_cons_self, List.cons_ne_nil _ _⟩

end SiestaVR.Video
