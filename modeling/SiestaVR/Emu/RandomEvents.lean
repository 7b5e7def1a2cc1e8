import SiestaVR.Lib.TimedWindow
import SiestaVR.Emu.Pattern
import Mathlib.Tactic.Linarith

/-!
# Random events (lib/models_mm1k.rs:835–869, 1387–1392, 1508–1671)

`add_random_events` places events of one kind behind each other, with a pause of four
seconds and an exponential gap before each, until the requested number is reached or an
event no longer fits into the window.

A draw stands for the sample of a distribution: a number not below 0 for the exponential
distribution with mean 1, a number of the unit interval for a uniform choice, any number
for a normal distribution. Every sample is possible. As in `Emu.Pattern`, a missing result
is an abort of the program.
-/

namespace SiestaVR.Emu

open SiestaVR.Lib

/-- A uniform choice between two numbers, by a draw of the unit interval. -/
def genRange (lo hi u : ℚ) : ℚ := lo + u * (hi - lo)

/-- `add_pattern`, for a list of patterns. -/
def NetworkPatternEmulator.addPatterns (e : NetworkPatternEmulator) (ps : List NetworkPattern) :
    NetworkPatternEmulator :=
  { e with patterns := e.patterns ++ ps }

/-! ## Rounding -/

theorem Duration.roundEven_natCast (n : Nat) : roundEven (n : ℚ) = n := by
  simp [roundEven]

theorem Duration.le_of_fromSecsF64 {x : ℚ} {n d : Nat} (hx : secs n ≤ x)
    (hd : fromSecsF64 x = some d) : n ≤ d := by
  simp only [fromSecsF64, Option.ite_none_right_eq_some, Option.some.injEq] at hd
  obtain ⟨-, rfl⟩ := hd
  have hmono : roundEven (n : ℚ) ≤ roundEven (x * 1000000000) := by
    apply roundEven_mono
    rw [secs, div_le_iff₀ (by norm_num)] at hx
    exact hx
  rw [roundEven_natCast] at hmono
  omega

theorem Duration.fromSecsF64_le {x : ℚ} {n d : Nat} (hx : x ≤ secs n)
    (hd : fromSecsF64 x = some d) : d ≤ n := by
  simp only [fromSecsF64, Option.ite_none_right_eq_some, Option.some.injEq] at hd
  obtain ⟨-, rfl⟩ := hd
  have hmono : roundEven (x * 1000000000) ≤ roundEven (n : ℚ) := by
    apply roundEven_mono
    rw [secs, le_div_iff₀ (by norm_num)] at hx
    exact hx
  rw [roundEven_natCast] at hmono
  omega

/-! ## Random events -/

/-- `RandomEventKind`. -/
inductive RandomEventKind
  | packetLoss
  | jitter
  | bandwidth
deriving DecidableEq, Repr

/-- The draws of one iteration. -/
structure EventDraws where
  gap : ℚ
  uniform : ℚ
  /-- The sample around the middle of the duration range. -/
  gaussian : ℚ
  intensity : ℚ
  rate : ℚ
  gap_nonneg : 0 ≤ gap
  uniform_mem : 0 ≤ uniform ∧ uniform < 1

/-- The arguments of `add_random_events`. -/
structure EventRequest where
  count : Nat
  eventType : RandomEventKind
  overallStart : Nat
  overallEnd : Nat
  minDuration : Nat
  maxDuration : Nat
  dist : JitterDistributionType
  meanValue : ℚ
  variance : ℚ

/-- How the loop ends: by itself, or in an abort. -/
inductive Ending
  | finished
  | aborted
deriving DecidableEq, Repr

/-- `new_jitter_uniform` and `new_jitter_gaussian`, which differ in the kind they set. -/
def NetworkPattern.newJitter (kind : JitterDistributionType)
    (meanDelayMs spreadMs correlationPct : ℚ) (validFrom validUntil : Nat) :
    Option NetworkPattern := do
  let meanDelay ← Duration.fromSecsF64 (meanDelayMs / 1000)
  some (.jitter
    { meanDelay, distributionType := kind, variance := spreadMs / 1000,
      correlationPct := max 0 (min correlationPct 100), lastDelay := meanDelay, validFrom,
      validUntil })

namespace EventRequest

variable (r : EventRequest)

/-- `min_gap_secs`. -/
def minGapSecs : ℚ := 4

/-- `mean_gap_secs`. -/
def meanGapSecs : ℚ :=
  let avgDurationSecs := (secs r.minDuration + secs r.maxDuration) / 2
  let totalAvgEventTimeSecs := avgDurationSecs * r.count
  let totalGapTimeSecs :=
    max (secs (r.overallEnd - r.overallStart) - totalAvgEventTimeSecs) (1 / 1000000000)
  totalGapTimeSecs / r.count

/-- The duration of an event. An empty range cannot be sampled uniformly. -/
def durationSecs (d : EventDraws) : Option ℚ :=
  match r.dist with
  | .uniform =>
    if r.minDuration < r.maxDuration then
      some (genRange (secs r.minDuration) (secs r.maxDuration) d.uniform)
    else none
  | .gaussian => some (min (max d.gaussian (secs r.minDuration)) (secs r.maxDuration))

/-- The pattern of an event. The distribution of the drop probability, with the root of
`variance` as its deviation, is made for every kind. -/
def pattern (d : EventDraws) (eventStart eventEnd : Nat) : Option NetworkPattern :=
  if r.variance < 0 then none
  else
    match r.eventType with
    | .packetLoss =>
      some (.probabilisticDrop ⟨max 0 (min d.intensity 1), eventStart, eventEnd⟩)
    | .jitter => NetworkPattern.newJitter r.dist r.meanValue r.variance 0 eventStart eventEnd
    | .bandwidth =>
      let z := max d.rate 15000000
      NetworkPattern.newBandwidth z z eventStart eventEnd

/-- One iteration, when the last event ended at `currentTime`: the pattern and the end of the
event, or how the loop ends. -/
def nextEvent (d : EventDraws) (currentTime : Nat) : Except Ending (NetworkPattern × Nat) :=
  let gapSecs := d.gap * r.meanGapSecs + minGapSecs
  match Duration.fromSecsF64 gapSecs with
  | none => .error .aborted
  | some gap =>
    match checkedAdd currentTime gap with
    | none => .error .finished
    | some eventStart =>
      match (r.durationSecs d).bind Duration.fromSecsF64 with
      | none => .error .aborted
      | some eventDuration =>
        match checkedAdd eventStart eventDuration with
        | none => .error .finished
        | some eventEnd =>
          -- no later event would fit either
          if r.overallEnd < eventEnd then .error .finished
          else
            match r.pattern d eventStart eventEnd with
            | none => .error .aborted
            | some p => .ok (p, eventEnd)

/-- The loop, with `n` events left to add. What was added before an abort stays added. -/
def events (draws : Nat → EventDraws) : Nat → Nat → Nat → List NetworkPattern × Ending
  | 0, _, _ => ([], .finished)
  | n + 1, i, currentTime =>
    match r.nextEvent (draws i) currentTime with
    | .error ending => ([], ending)
    | .ok (p, eventEnd) =>
      let (ps, ending) := events draws n (i + 1) eventEnd
      (p :: ps, ending)

end EventRequest

/-- `NetworkPatternEmulator::add_random_events`. A window that ends before it starts has no
duration. -/
def NetworkPatternEmulator.addRandomEvents (e : NetworkPatternEmulator) (r : EventRequest)
    (draws : Nat → EventDraws) : NetworkPatternEmulator × Ending :=
  if r.count = 0 then (e, .finished)
  else if r.overallEnd < r.overallStart then (e, .aborted)
  else
    let (ps, ending) := r.events draws r.count 0 r.overallStart
    (e.addPatterns ps, ending)

/-- The interval in which a pattern is valid. -/
def NetworkPattern.validity : NetworkPattern → Option (Nat × Nat)
  | .constant => none
  | .onOffPeriodic => none
  | .probabilisticDrop d => some (d.validFrom, d.validUntil)
  | .bandwidth b => some (b.validFrom, b.validUntil)
  | .jitter j => some (j.validFrom, j.validUntil)

/-! ### What random events keep to -/

theorem checkedAdd_eq_some {t d t' : Nat} (h : checkedAdd t d = some t') : t' = t + d := by
  simp only [checkedAdd, Option.ite_none_right_eq_some, Option.some.injEq] at h
  exact h.2.symm

theorem validity_newBandwidth {maxBps rate : ℚ} {validFrom validUntil : Nat} {p : NetworkPattern}
    (h : NetworkPattern.newBandwidth maxBps rate validFrom validUntil = some p) :
    p.validity = some (validFrom, validUntil) := by
  obtain ⟨maxLatency, -, hp⟩ := Option.bind_eq_some_iff.1 h
  cases hp
  rfl

namespace EventRequest

variable {r : EventRequest} {d : EventDraws}

theorem meanGapSecs_nonneg (r : EventRequest) : 0 ≤ r.meanGapSecs :=
  div_nonneg (le_max_of_le_right (by norm_num)) (Nat.cast_nonneg _)

theorem validity_pattern {eventStart eventEnd : Nat} {p : NetworkPattern}
    (h : r.pattern d eventStart eventEnd = some p) : p.validity = some (eventStart, eventEnd) := by
  unfold pattern at h
  split at h
  · cases h
  · split at h
    · cases h
      rfl
    · obtain ⟨meanDelay, -, hp⟩ := Option.bind_eq_some_iff.1 h
      cases hp
      rfl
    · exact validity_newBandwidth h

theorem durationSecs_mem {x : ℚ} (hrange : r.minDuration < r.maxDuration)
    (h : r.durationSecs d = some x) : secs r.minDuration ≤ x ∧ x ≤ secs r.maxDuration := by
  have hsecs : secs r.minDuration ≤ secs r.maxDuration :=
    div_le_div_of_nonneg_right (Nat.cast_le.2 hrange.le) (by norm_num)
  unfold durationSecs at h
  split at h
  · rw [if_pos hrange] at h
    cases h
    obtain ⟨h0, h1⟩ := d.uniform_mem
    have hwidth := sub_nonneg.2 hsecs
    refine ⟨le_add_of_nonneg_right (mul_nonneg h0 hwidth), ?_⟩
    have := mul_le_mul_of_nonneg_right h1.le hwidth
    unfold genRange
    linarith
  · cases h
    exact ⟨le_min (le_max_right _ _) hsecs, min_le_right _ _⟩

/-- What an event that is added keeps to, when the one before it ended at `t`. -/
structure Placed (r : EventRequest) (t : Nat) (i : Nat × Nat) : Prop where
  gap : t + 4000000000 ≤ i.1
  fits : i.2 ≤ r.overallEnd
  duration : i.1 + r.minDuration ≤ i.2 ∧ i.2 ≤ i.1 + r.maxDuration

theorem nextEvent_placed {t eventEnd : Nat} {p : NetworkPattern}
    (hrange : r.minDuration < r.maxDuration) (h : r.nextEvent d t = .ok (p, eventEnd)) :
    ∃ eventStart, p.validity = some (eventStart, eventEnd) ∧ r.Placed t (eventStart, eventEnd) := by
  unfold nextEvent at h
  simp only at h
  split at h
  · cases h
  rename_i gap hgap
  split at h
  · cases h
  rename_i eventStart hstart
  split at h
  · cases h
  rename_i eventDuration hduration
  split at h
  · cases h
  rename_i eventEnd' hend
  split at h
  · cases h
  rename_i hfits
  split at h
  · cases h
  rename_i p' hpattern
  obtain ⟨rfl, rfl⟩ : p' = p ∧ eventEnd' = eventEnd := by simpa using h
  obtain ⟨x, hx, hround⟩ := Option.bind_eq_some_iff.1 hduration
  obtain ⟨hmin, hmax⟩ := durationSecs_mem hrange hx
  -- The gap has its minimum whatever is drawn.
  have hgap' : 4000000000 ≤ gap := by
    refine Duration.le_of_fromSecsF64 ?_ hgap
    have hpos := mul_nonneg d.gap_nonneg r.meanGapSecs_nonneg
    norm_num [secs, minGapSecs]
    exact hpos
  have hshortest := Duration.le_of_fromSecsF64 hmin hround
  have hlongest := Duration.fromSecsF64_le hmax hround
  rw [checkedAdd_eq_some hend, checkedAdd_eq_some hstart] at *
  exact ⟨t + gap, validity_pattern hpattern, ⟨by simpa using hgap', not_lt.1 hfits,
    by simpa using hshortest, by simpa using hlongest⟩⟩

/-- **The loop**: what it adds after `t` are at most `n` events that keep their distance. -/
theorem events_placed (hrange : r.minDuration < r.maxDuration) (draws : Nat → EventDraws)
    (n i t : Nat) :
    (r.events draws n i t).1.length ≤ n ∧
      ∃ is, (r.events draws n i t).1.map NetworkPattern.validity = is.map some ∧
        Spaced 4000000000 t is ∧ ∀ x ∈ is, ∃ t', r.Placed t' x := by
  induction n generalizing i t with
  | zero => exact ⟨Nat.le_refl 0, [], rfl, trivial, by simp⟩
  | succ n ih =>
    rw [events]
    split
    · exact ⟨Nat.zero_le _, [], rfl, trivial, by simp⟩
    · rename_i p eventEnd hnext
      obtain ⟨eventStart, hvalid, hplaced⟩ := nextEvent_placed hrange hnext
      obtain ⟨hlen, is, hmap, hspaced, hrest⟩ := ih (i + 1) eventEnd
      refine ⟨by simpa using hlen, (eventStart, eventEnd) :: is, ?_, ?_, ?_⟩
      · simp [hvalid, hmap]
      · refine ⟨hplaced.gap, ?_, hspaced⟩
        have := hplaced.duration.1
        dsimp only at this
        omega
      · exact List.forall_mem_cons.2 ⟨⟨t, hplaced⟩, hrest⟩

end EventRequest

/-- Patterns `ps`, valid in the intervals `is`, are as requested. -/
structure EventRequest.Fulfils (r : EventRequest) (ps : List NetworkPattern)
    (is : List (Nat × Nat)) : Prop where
  atMost : ps.length ≤ r.count
  valid : ps.map NetworkPattern.validity = is.map some
  spaced : Spaced 4000000000 r.overallStart is
  inside : ∀ i ∈ is, r.overallStart ≤ i.1 ∧ i.2 ≤ r.overallEnd
  duration : ∀ i ∈ is, r.minDuration ≤ i.2 - i.1 ∧ i.2 - i.1 ≤ r.maxDuration

/-- **Random events**: whatever is drawn, at most `count` patterns are appended; they lie in
the window, in the order of time, each at least four seconds after the one before it (the
first after the start of the window), each with a duration in the requested range. This
holds too of what an abort leaves behind. -/
theorem random_events_placed (e : NetworkPatternEmulator) (r : EventRequest)
    (draws : Nat → EventDraws) (hrange : r.minDuration < r.maxDuration) :
    ∃ ps is, (e.addRandomEvents r draws).1.patterns = e.patterns ++ ps ∧ r.Fulfils ps is := by
  have hnone : ∃ ps is, e.patterns = e.patterns ++ ps ∧ r.Fulfils ps is :=
    ⟨[], [], by simp, ⟨by simp, rfl, trivial, by simp, by simp⟩⟩
  unfold NetworkPatternEmulator.addRandomEvents
  split
  · exact hnone
  split
  · exact hnone
  obtain ⟨hlen, is, hmap, hspaced, hplaced⟩ :=
    EventRequest.events_placed hrange draws r.count 0 r.overallStart
  refine ⟨_, is, rfl, ⟨hlen, hmap, hspaced, fun i hi => ?_, fun i hi => ?_⟩⟩
  · obtain ⟨t, hi'⟩ := hplaced i hi
    have := hspaced.le_start i hi
    exact ⟨by omega, hi'.fits⟩
  · obtain ⟨t, hi'⟩ := hplaced i hi
    have := hi'.duration
    omega

/-- Losses of one to two seconds in the first twenty seconds, five of them wanted. -/
def fiveLosses : EventRequest where
  count := 5
  eventType := .packetLoss
  overallStart := 0
  overallEnd := 20000000000
  minDuration := 1000000000
  maxDuration := 2000000000
  dist := .uniform
  meanValue := 1 / 10
  variance := 0

/-- The same draws in every iteration. -/
def evenDraws : EventDraws := ⟨1, 1 / 2, 0, 1 / 10, 0, by norm_num, by norm_num⟩

/-- Two of the five fit into the window. -/
theorem random_events_placed_two :
    (NetworkPatternEmulator.addRandomEvents {} fiveLosses fun _ => evenDraws).2 = .finished ∧
      ((NetworkPatternEmulator.addRandomEvents {} fiveLosses fun _ => evenDraws).1.patterns.map
        NetworkPattern.validity) =
        [some (6500000000, 8000000000), some (14500000000, 16000000000)] ∧
      ∃ ps is, (NetworkPatternEmulator.addRandomEvents {} fiveLosses fun _ => evenDraws).1.patterns
        = [] ++ ps ∧ fiveLosses.Fulfils ps is :=
  ⟨by decide +kernel, by decide +kernel,
    random_events_placed {} fiveLosses (fun _ => evenDraws) (by decide)⟩

end SiestaVR.Emu
