import SiestaVR.Lib.Occurrences
import SiestaVR.Video.Hevc

/-!
# Key frames (lib/models_XR.rs:264–315, lib/models_XR/keyframe_tests.rs:3–20)

`is_keyframe` looks for a picture that can be decoded on its own. For HEVC this is a NAL unit
of type 16 to 21 behind a start code that begins before `len - 5`. An earlier version
scanned the frame byte by byte (`referenceHevc`); the present one visits the occurrences of
`00 00 01` only, takes a code of four bytes by its last three, and stops at the first
occurrence that is too far to the right. The occurrences are found by another library. Of it only
what it documents is assumed, that they are all the occurrences that do not overlap, from left
to right (`Memmem`); as `00 00 01` has no border, none is missed.

Both are brought to one form: some position where a start code counts has an IRAP header
behind it (`KeyAt`).
-/

namespace SiestaVR.Video

open Lib
open SiestaVR.Stream (Bytes)

/-! ## The code -/

/-- `VideoCodec`. -/
inductive VideoCodec
  | hevc
  | av1
deriving DecidableEq, Repr

/-- `(16..=21).contains(&((nal_header >> 1) & 0x3F))`. -/
def isIrap (nalHeader : UInt8) : Bool := 16 ≤ nalTypeOf nalHeader ∧ nalTypeOf nalHeader ≤ 21

/-- `p >= 1 && p - 1 < lim && frame[p - 1] == 0`, which is evaluated only if `p >= lim`. -/
def fourByteBefore (frame : Bytes) (lim p : Nat) : Option Bool :=
  if lim ≤ p ∧ 1 ≤ p ∧ p - 1 < lim then (frame[p - 1]?).map (· == 0) else some false

/-- The loop of `is_keyframe` over the occurrences of `00 00 01`. -/
def keyframeLoop (frame : Bytes) (lim : Nat) : List Nat → Option Bool
  | [] => some false
  | p :: ps => do
    let fourByte ← fourByteBefore frame lim p
    if lim ≤ p ∧ fourByte = false then
      if lim + 1 ≤ p then return false
      keyframeLoop frame lim ps
    else
      match frame[p + 3]? with
      | some nalHeader => if isIrap nalHeader then return true else keyframeLoop frame lim ps
      | none => keyframeLoop frame lim ps

/-- `memchr::memmem`, with what it documents of `find_iter`. -/
structure Memmem where
  findIter : (haystack needle : Bytes) → List Nat
  findIter_spec : ∀ haystack needle, needle ≠ [] →
    NonOverlapping needle haystack (findIter haystack needle)

/-- A search position by position. -/
def Memmem.scan : Memmem where
  findIter haystack needle := occurrences needle haystack
  findIter_spec haystack _ hne := nonOverlapping_occurrences hne haystack

/-- `is_keyframe`. -/
def isKeyframe (memmem : Memmem) (frame : Bytes) (codecType : VideoCodec) : Option Bool :=
  if frame.length < 3 then some false
  else
    match codecType with
    | .hevc => keyframeLoop frame (frame.length - 5) (memmem.findIter frame [0, 0, 1])
    | .av1 => do
      let obu0Type := ((← frame[0]?) >>> 3) &&& 0xF
      if obu0Type = 1 then
        return true
      if obu0Type = 2 ∧ 2 < frame.length then
        let obu1Type := ((← frame[2]?) >>> 3) &&& 0xF
        return obu1Type = 1
      return false

/-- The test of `reference_hevc` for a start code of three or four bytes. -/
def referenceCodeAt (frame : Bytes) (i : Nat) : Option Bool := do
  if ← matchesAt frame i [0, 0, 1] then return true
  matchesAt frame i [0, 0, 0, 1]

/-- The body of the loop of `reference_hevc`. -/
def referenceAt (frame : Bytes) (i : Nat) : Option Bool := do
  if ← referenceCodeAt frame i then
    let startCodeLen := if (← frame[i + 2]?) = 0 then 4 else 3
    let nalHeaderPos := i + startCodeLen
    if nalHeaderPos < frame.length then (frame[nalHeaderPos]?).map isIrap else return false
  else
    return false

/-- The loop of `reference_hevc` over a range of so many positions. -/
def referenceLoop (frame : Bytes) : Nat → Nat → Option Bool
  | 0, _ => some false
  | count + 1, i => do
    if ← referenceAt frame i then return true
    referenceLoop frame count (i + 1)

/-- `reference_hevc`. -/
def referenceHevc (frame : Bytes) : Option Bool :=
  if frame.length < 3 then some false else referenceLoop frame (frame.length - 5) 0

/-! ## What both look for -/

/-- A code `00 00 01` at this position counts if it begins before the limit, or the code of
four bytes does that it is the end of. -/
def Counts (frame : Bytes) (lim p : Nat) : Prop :=
  p < lim ∨ 1 ≤ p ∧ p - 1 < lim ∧ frame[p - 1]? = some 0

/-- The byte at this position is the header of an IRAP unit. -/
def IrapAt (frame : Bytes) (pos : Nat) : Prop :=
  ∃ nalHeader, frame[pos]? = some nalHeader ∧ isIrap nalHeader = true

/-- A code that counts, with the header of an IRAP unit behind it. -/
def KeyAt (frame : Bytes) (lim p : Nat) : Prop :=
  StartsWith [0, 0, 1] (frame.drop p) ∧ Counts frame lim p ∧ IrapAt frame (p + 3)

/-! ## The search over occurrences -/

variable {frame : Bytes} {i : Nat}

theorem length_of_startsWith {needle : Bytes} {p : Nat}
    (h : StartsWith needle (frame.drop p)) (hne : needle ≠ []) :
    p + needle.length ≤ frame.length := by
  have hlength := congrArg List.length h
  have hpos := List.length_pos_of_ne_nil hne
  rw [List.length_take, List.length_drop] at hlength
  omega

theorem fourByteBefore_eq (lim : Nat) {p : Nat} (hp : p < frame.length) :
    ∃ fourByte, fourByteBefore frame lim p = some fourByte ∧
      (lim ≤ p ∧ fourByte = false ↔ ¬ Counts frame lim p) := by
  have hbyte : p - 1 < frame.length := by omega
  unfold Counts
  rw [fourByteBefore, List.getElem?_eq_getElem hbyte, Option.map_some]
  split
  · next hclose =>
    refine ⟨_, rfl, ?_⟩
    simp only [beq_eq_false_iff_ne, ne_eq, Option.some.injEq]
    grind
  · next hclose =>
    refine ⟨_, rfl, ?_⟩
    grind

theorem not_counts_of_lt {lim p : Nat} (h : lim + 1 ≤ p) :
    ¬ Counts frame lim p := by
  unfold Counts
  omega

/-- **The search over occurrences** finds a key position if there is one among them. -/
theorem keyframeLoop_eq (lim : Nat) {ps : List Nat}
    (hps : ∀ p ∈ ps, StartsWith [0, 0, 1] (frame.drop p)) (hsorted : ps.Pairwise (· < ·)) :
    ∃ found, keyframeLoop frame lim ps = some found ∧
      (found = true ↔ ∃ p ∈ ps, KeyAt frame lim p) := by
  induction ps with
  | nil => exact ⟨false, rfl, by simp⟩
  | cons p ps ih =>
    obtain ⟨hp, hps⟩ := List.forall_mem_cons.1 hps
    obtain ⟨hfirst, hsorted⟩ := List.pairwise_cons.1 hsorted
    obtain ⟨rest, hrest, hiff⟩ := ih hps hsorted
    have hin : p + 3 ≤ frame.length := length_of_startsWith hp (by decide)
    obtain ⟨fourByte, hfour, htest⟩ := fourByteBefore_eq lim (show p < frame.length by omega)
    rw [keyframeLoop, hrest, hfour, Option.bind_eq_bind, Option.bind_some]
    rw [List.exists_mem_cons_iff]
    by_cases hcounts : Counts frame lim p
    · rw [if_neg fun hskip => htest.1 hskip hcounts]
      cases hheader : frame[p + 3]? with
      | none =>
        refine ⟨rest, rfl, ?_⟩
        simp [hiff, KeyAt, IrapAt, hheader]
      | some nalHeader =>
        by_cases hirap : isIrap nalHeader = true
        · refine ⟨true, by simp [hirap], ?_⟩
          simp [KeyAt, IrapAt, hp, hcounts, hheader, hirap]
        · refine ⟨rest, by simp [hirap], ?_⟩
          simp [hiff, KeyAt, IrapAt, hheader, hirap]
    · rw [if_pos (htest.2 hcounts)]
      -- An occurrence that does not count is skipped; one beyond the limit ends the search.
      by_cases hfar : lim + 1 ≤ p
      · refine ⟨false, by simp [hfar], ?_⟩
        have hlater : ∀ q ∈ ps, ¬ Counts frame lim q :=
          fun q hq => not_counts_of_lt (hfar.trans (hfirst q hq).le)
        simp only [Bool.false_eq_true, KeyAt, false_iff]
        grind
      · refine ⟨rest, by simp [hfar], ?_⟩
        simp [hiff, KeyAt, hcounts]

/-! ## The scan byte by byte -/

theorem startsWith_four_iff :
    StartsWith [0, 0, 0, 1] (frame.drop i) ↔
      frame[i]? = some 0 ∧ StartsWith [0, 0, 1] (frame.drop (i + 1)) := by
  by_cases hi : i < frame.length
  · rw [List.drop_eq_getElem_cons hi, List.getElem?_eq_getElem hi, Option.some.injEq]
    exact List.cons_eq_cons
  · rw [List.drop_of_length_le (Nat.not_lt.1 hi), List.getElem?_eq_none (Nat.not_lt.1 hi)]
    simp [StartsWith]

theorem getElem?_third {needle : Bytes} (h : StartsWith needle (frame.drop i))
    (hneedle : 2 < needle.length) : frame[i + 2]? = needle[2]? := by
  have hthird : ((frame.drop i).take needle.length)[2]? = needle[2]? := by rw [h]
  rwa [List.getElem?_take_of_lt hneedle, List.getElem?_drop] at hthird

/-- What one turn of the scan finds. -/
def ReferenceKeyAt (frame : Bytes) (i : Nat) : Prop :=
  StartsWith [0, 0, 1] (frame.drop i) ∧ IrapAt frame (i + 3) ∨
    StartsWith [0, 0, 0, 1] (frame.drop i) ∧ IrapAt frame (i + 4)

theorem irapAt_iff {pos : Nat} (h : pos < frame.length) :
    IrapAt frame pos ↔ isIrap frame[pos] = true := by
  simp [IrapAt, List.getElem?_eq_getElem h]

theorem referenceCodeAt_eq (h : i + 5 < frame.length) :
    referenceCodeAt frame i = some (decide (StartsWith [0, 0, 1] (frame.drop i) ∨
      StartsWith [0, 0, 0, 1] (frame.drop i))) := by
  have hthree : i + 3 ≤ frame.length := by omega
  have hfour : i + 4 ≤ frame.length := by omega
  rw [referenceCodeAt, matchesAt_eq [0, 0, 1] hthree, matchesAt_eq [0, 0, 0, 1] hfour,
    Option.bind_eq_bind, Option.bind_some]
  show (if decide (StartsWith [0, 0, 1] (frame.drop i)) = true then some true
    else some (decide (StartsWith [0, 0, 0, 1] (frame.drop i)))) = _
  by_cases hcode : StartsWith [0, 0, 1] (frame.drop i)
  · simp [hcode]
  · simp [hcode]

theorem referenceAt_eq (h : i + 5 < frame.length) :
    ∃ found, referenceAt frame i = some found ∧ (found = true ↔ ReferenceKeyAt frame i) := by
  rw [referenceAt, referenceCodeAt_eq h, Option.bind_eq_bind, Option.bind_some, ReferenceKeyAt]
  by_cases hthree : StartsWith [0, 0, 1] (frame.drop i)
  · have hthird : frame[i + 2]? = some 1 := getElem?_third hthree (by decide)
    have hfour : ¬ StartsWith [0, 0, 0, 1] (frame.drop i) := fun hfour =>
      absurd (hthird.symm.trans (getElem?_third hfour (by decide))) (by decide)
    have hpos : i + 3 < frame.length := by omega
    exact ⟨isIrap frame[i + 3], by simp [hthree, hthird, hpos],
      by simp [irapAt_iff hpos, hthree, hfour]⟩
  · by_cases hfour : StartsWith [0, 0, 0, 1] (frame.drop i)
    · have hthird : frame[i + 2]? = some 0 := getElem?_third hfour (by decide)
      have hpos : i + 4 < frame.length := by omega
      exact ⟨isIrap frame[i + 4], by simp [hfour, hthird, hpos],
        by simp [irapAt_iff hpos, hthree, hfour]⟩
    · exact ⟨false, by simp [hthree, hfour], by simp [hthree, hfour]⟩

theorem referenceLoop_eq (frame : Bytes) (count i : Nat)
    (h : ∀ j < i + count, j + 5 < frame.length) :
    ∃ found, referenceLoop frame count i = some found ∧
      (found = true ↔ ∃ j, i ≤ j ∧ j < i + count ∧ ReferenceKeyAt frame j) := by
  induction count generalizing i with
  | zero => exact ⟨false, rfl, by simp; omega⟩
  | succ count ih =>
    obtain ⟨here, hhere, hiff⟩ := referenceAt_eq (h i (by omega))
    obtain ⟨rest, hrest, hiff'⟩ := ih (i + 1) fun j hj => h j (by omega)
    rw [referenceLoop, hhere, hrest, Option.bind_eq_bind, Option.bind_some]
    refine ⟨here || rest, by cases here <;> rfl, ?_⟩
    rw [Bool.or_eq_true, hiff, hiff']
    constructor
    · rintro (hkey | ⟨j, hle, hlt, hkey⟩)
      · exact ⟨i, le_rfl, by omega, hkey⟩
      · exact ⟨j, by omega, by omega, hkey⟩
    · rintro ⟨j, hle, hlt, hkey⟩
      obtain rfl | hne := eq_or_ne j i
      · exact .inl hkey
      · exact .inr ⟨j, by omega, by omega, hkey⟩

/-! ## The comparison -/

/-- The occurrences that count are the start codes that begin before the limit. -/
theorem exists_keyAt_iff (frame : Bytes) (lim : Nat) :
    (∃ p, KeyAt frame lim p) ↔ ∃ i < lim, ReferenceKeyAt frame i := by
  constructor
  · rintro ⟨p, hcode, hlt | ⟨hpos, hlt, hzero⟩, hirap⟩
    · exact ⟨p, hlt, .inl ⟨hcode, hirap⟩⟩
    · obtain ⟨i, rfl⟩ : ∃ i, p = i + 1 := ⟨p - 1, by omega⟩
      exact ⟨i, hlt, .inr ⟨startsWith_four_iff.2 ⟨hzero, hcode⟩, hirap⟩⟩
  · rintro ⟨i, hlt, ⟨hcode, hirap⟩ | ⟨hcode, hirap⟩⟩
    · exact ⟨i, hcode, .inl hlt, hirap⟩
    · obtain ⟨hzero, hcode⟩ := startsWith_four_iff.1 hcode
      exact ⟨i + 1, hcode, .inr ⟨Nat.succ_pos i, hlt, hzero⟩, hirap⟩

/-- **The fast search gives the answer of the scan**, for every frame, and neither reads
outside it. -/
theorem isKeyframe_hevc_eq_reference (memmem : Memmem) (frame : Bytes) :
    ∃ found, isKeyframe memmem frame .hevc = some found ∧ referenceHevc frame = some found := by
  rw [isKeyframe, referenceHevc]
  split
  · exact ⟨false, rfl, rfl⟩
  · have hfound := memmem.findIter_spec frame [0, 0, 1] (by decide)
    have hmem : ∀ p, p ∈ memmem.findIter frame [0, 0, 1] ↔ StartsWith [0, 0, 1] (frame.drop p) :=
      fun p => hfound.mem_iff (by unfold NoBorder; decide)
    have hsorted : (memmem.findIter frame [0, 0, 1]).Pairwise (· < ·) :=
      hfound.spaced.imp fun hle => Nat.lt_of_lt_of_le (Nat.lt_add_of_pos_right (by decide)) hle
    obtain ⟨fast, hfast, hfastiff⟩ := keyframeLoop_eq (frame.length - 5) hfound.occurs hsorted
    obtain ⟨slow, hslow, hslowiff⟩ := referenceLoop_eq frame (frame.length - 5) 0
      fun j hj => by omega
    have hsame : fast = slow := by
      have hmem' : (∃ p ∈ memmem.findIter frame [0, 0, 1], KeyAt frame (frame.length - 5) p) ↔
          ∃ p, KeyAt frame (frame.length - 5) p :=
        ⟨fun ⟨p, _, hp⟩ => ⟨p, hp⟩, fun ⟨p, hp⟩ => ⟨p, (hmem p).2 hp.1, hp⟩⟩
      rw [Bool.eq_iff_iff, hfastiff, hslowiff, hmem', exists_keyAt_iff]
      simp
    exact ⟨fast, hfast, hsame ▸ hslow⟩

/-- An IRAP unit behind a code of four bytes that begins one position before the limit. -/
theorem isKeyframe_hevc_at_limit :
    isKeyframe .scan [7, 0, 0, 0, 1, 38, 9] .hevc = some true ∧
      referenceHevc [7, 0, 0, 0, 1, 38, 9] = some true := by
  obtain ⟨found, hfast, hslow⟩ := isKeyframe_hevc_eq_reference .scan [7, 0, 0, 0, 1, 38, 9]
  obtain rfl : true = found := Option.some.inj hfast
  exact ⟨hfast, hslow⟩

end SiestaVR.Video
