import SiestaVR.Mac.Dcf
import SiestaVR.Lib.Coverage

/-!
# The busy time of a medium (lib/models_mm1k.rs:2163–2257)

A medium is occupied by transmissions, collisions and reservations, which may overlap. Its
busy time is added up as they come: of each, the part above `max_busy_reached`. As long as
they come in the order of their starts, this is the length of their union, however they
overlap, lie in each other or are empty.

The proof follows one occupation: `max_busy_reached` is a mark in the sense of `Lib.Marked`.
-/

namespace SiestaVR.Mac

open Lib MeasureTheory

/-- The calls of a medium. -/
inductive MediumCall
  | startTxop (now t : Nat) (owner : MacKey)
  | occupyCollision (now until' : Nat)
  | setNavUntil (now t : Nat)
  | releaseTxop (now : Nat)
  | clearIfIdle (now : Nat)
  deriving DecidableEq, Repr

/-- The time that a call occupies, from its start to its end. -/
def MediumCall.interval : MediumCall → Option (Nat × Nat)
  | startTxop now t _ => some (now, t)
  | occupyCollision now until' => some (now, until')
  | setNavUntil now t => some (now, t)
  | releaseTxop _ => none
  | clearIfIdle _ => none

namespace Medium

/-- A call. -/
def call (m : Medium) : MediumCall → Medium
  | .startTxop now t owner => m.startTxop now t owner
  | .occupyCollision now until' => m.occupyCollision now until'
  | .setNavUntil now t => m.setNavUntil now t
  | .releaseTxop now => m.releaseTxop now
  | .clearIfIdle now => m.clearIfIdle now

/-- What a medium remembers for its busy time. -/
def busy (m : Medium) : Nat × Nat := (m.maxBusyReached, m.accumulatedBusy)

/-- A call integrates the time it occupies, and nothing else counts. -/
theorem busy_call (m : Medium) (c : MediumCall) :
    (m.call c).busy = c.interval.elim m.busy fun i => (m.integrateBusyTime i.1 i.2).busy := by
  cases c with
  | startTxop now t owner => rfl
  | occupyCollision now until' => rfl
  | setNavUntil now t => rfl
  | releaseTxop now =>
    show (m.releaseTxop now).busy = m.busy
    unfold releaseTxop
    split <;> rfl
  | clearIfIdle now =>
    show (m.clearIfIdle now).busy = m.busy
    unfold clearIfIdle
    split <;> rfl

/-- Busy time is counted from the mark on. -/
theorem busy_integrate (m : Medium) (now until' : Nat) :
    (m.integrateBusyTime now until').busy =
      (if max now m.maxBusyReached < until' then until' else m.maxBusyReached,
        m.accumulatedBusy + (until' - max now m.maxBusyReached)) := by
  have hstart : (if m.maxBusyReached < now then now else m.maxBusyReached)
      = max now m.maxBusyReached := by
    split <;> omega
  unfold integrateBusyTime
  dsimp only
  rw [hstart]
  split
  · rfl
  · rename_i hold
    show (m.maxBusyReached, m.accumulatedBusy) = _
    rw [Nat.sub_eq_zero_of_le (not_lt.1 hold), Nat.add_zero]

end Medium

/-- The occupied intervals, as intervals of real time. -/
def occupied (calls : List MediumCall) : List (ℝ × ℝ) :=
  (calls.filterMap MediumCall.interval).map fun i => ((i.1 : ℝ), (i.2 : ℝ))

/-- A medium that knows the length and the mark of what occupied it. -/
structure Integrated (is : List (ℝ × ℝ)) (m : Medium) : Prop where
  mark : Marked 0 is m.maxBusyReached
  length : volume (covered is) = m.accumulatedBusy

theorem Integrated.of_busy {is : List (ℝ × ℝ)} {m m' : Medium} (h : Integrated is m)
    (hbusy : m'.busy = m.busy) : Integrated is m' := by
  obtain ⟨hreached, haccumulated⟩ := Prod.mk.inj hbusy
  exact ⟨hreached ▸ h.mark, haccumulated ▸ h.length⟩

/-- **One occupation**, not before the last start. -/
theorem Integrated.integrate {is : List (ℝ × ℝ)} {m : Medium} {now until' : Nat}
    (h : Integrated is m) (hlast : ∀ i ∈ is, i.1 ≤ (now : ℝ)) :
    Integrated (is ++ [((now : ℝ), (until' : ℝ))]) (m.integrateBusyTime now until') := by
  obtain ⟨hreached, haccumulated⟩ := Prod.mk.inj (m.busy_integrate now until')
  have hmax : max (now : ℝ) (m.maxBusyReached : ℝ) = ((max now m.maxBusyReached : Nat) : ℝ) :=
    (Nat.cast_max now m.maxBusyReached).symm
  constructor
  · rw [hreached, Nat.cast_ite]
    have hmark := h.mark.snoc (b := until') now.cast_nonneg hlast
    rw [hmax] at hmark
    simpa only [Nat.cast_lt] using hmark
  · rw [haccumulated, h.mark.volume_covered_snoc now.cast_nonneg hlast, h.length, hmax,
      Nat.cast_add]
    congr 1
    rw [← ENNReal.ofReal_natCast]
    rcases le_total (max now m.maxBusyReached) until' with hle | hle
    · rw [Nat.cast_sub hle]
    · -- nothing is left above the mark
      rw [Nat.sub_eq_zero_of_le hle, Nat.cast_zero, ENNReal.ofReal_zero]
      exact ENNReal.ofReal_eq_zero.2 (sub_nonpos.2 (Nat.cast_le.2 hle))

/-- A whole sequence of calls, by induction from its end. -/
theorem integrated_foldl {calls : List MediumCall}
    (h : ((calls.filterMap MediumCall.interval).map Prod.fst).Pairwise (· ≤ ·)) :
    Integrated (occupied calls) (calls.foldl Medium.call {}) := by
  induction calls using List.reverseRecOn with
  | nil =>
    refine ⟨?_, ?_⟩
    · show Marked 0 [] ((0 : Nat) : ℝ)
      rw [Nat.cast_zero]
      exact Marked.nil 0
    · show volume (covered []) = ((0 : Nat) : ENNReal)
      rw [covered_nil, measure_empty, Nat.cast_zero]
  | append_singleton calls c ih =>
    rw [List.filterMap_append, List.map_append] at h
    obtain ⟨hbefore, -, hlast⟩ := List.pairwise_append.1 h
    have hm := ih hbefore
    rw [List.foldl_append, occupied, List.filterMap_append, List.map_append]
    show Integrated (occupied calls ++ _) (Medium.call _ c)
    have hbusy := Medium.busy_call (calls.foldl Medium.call {}) c
    cases hc : c.interval with
    | none =>
      rw [hc] at hbusy
      simp only [List.filterMap_cons, hc, List.filterMap_nil, List.map_nil, List.append_nil]
      exact hm.of_busy hbusy
    | some i =>
      rw [hc] at hbusy
      simp only [List.filterMap_cons, hc, List.filterMap_nil, List.map_cons, List.map_nil]
        at hlast ⊢
      refine (hm.integrate ?_).of_busy hbusy
      -- the starts so far are not after this one
      rintro j hj
      obtain ⟨k, hk, rfl⟩ := List.mem_map.1 hj
      exact Nat.cast_le.2 (hlast k.1 (List.mem_map_of_mem hk) i.1 List.mem_cons_self)

/-- For every sequence of calls of a medium whose occupations start in the order of time,
the busy time it has added up is the total length of the union of what they occupy. -/
theorem busy_time_is_union_length (calls : List MediumCall)
    (h : ((calls.filterMap MediumCall.interval).map Prod.fst).Pairwise (· ≤ ·)) :
    volume (⋃ i ∈ calls.filterMap MediumCall.interval, Set.Ico (i.1 : ℝ) (i.2 : ℝ))
      = ((calls.foldl Medium.call {}).accumulatedBusy : ENNReal) := by
  have hunion : (⋃ i ∈ calls.filterMap MediumCall.interval, Set.Ico (i.1 : ℝ) (i.2 : ℝ))
      = covered (occupied calls) := by
    ext x
    simp only [Set.mem_iUnion, mem_covered, occupied, List.mem_map, exists_prop, Set.mem_Ico]
    constructor
    · rintro ⟨i, hi, hx⟩
      exact ⟨_, ⟨i, hi, rfl⟩, hx⟩
    · rintro ⟨-, ⟨i, hi, rfl⟩, hx⟩
      exact ⟨i, hi, hx⟩
  rw [hunion]
  exact (integrated_foldl h).length

/-- A collision during a transmission, a reservation inside both, and an empty one. -/
theorem busy_time_is_union_length_overlap :
    ([.startTxop 2 6 ⟨1, .video, 0⟩, .occupyCollision 3 9, .setNavUntil 4 5, .releaseTxop 9,
      .setNavUntil 9 9, .startTxop 12 13 ⟨-1, .voice, 0⟩].foldl Medium.call {}).accumulatedBusy
      = 8 ∧
    volume (⋃ i ∈ [((2 : Nat), (6 : Nat)), (3, 9), (4, 5), (9, 9), (12, 13)],
        Set.Ico (i.1 : ℝ) (i.2 : ℝ)) = ((8 : Nat) : ENNReal) :=
  ⟨rfl, busy_time_is_union_length [.startTxop 2 6 ⟨1, .video, 0⟩, .occupyCollision 3 9,
    .setNavUntil 4 5, .releaseTxop 9, .setNavUntil 9 9, .startTxop 12 13 ⟨-1, .voice, 0⟩]
    (by decide)⟩

end SiestaVR.Mac
