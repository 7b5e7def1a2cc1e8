import SiestaVR.Emu.RandomEvents
import SiestaVR.Emu.Shaping
import Mathlib.Data.Fin.VecNotation
import Mathlib.Data.List.FinRange

/-!
# Markov-modulated bandwidth (lib/models_mm1k.rs:1394–1486, 1673–1755)

`add_markov_modulated_bandwidth` covers a window with bandwidth patterns, by a walk over
the states of a semi-Markov chain: each visit of a state draws a dwell time and a rate,
appends a pattern for that time, which is cut off at the end of the window, and draws the
next state.

The next state is drawn by `WeightedIndex` of the random number library. Of it only what its
documentation says of errors is assumed (`WeightedIndex.sample_isSome_iff`), so the results
hold for every way of drawing an index from weights; `WeightedIndex.byShares` is one.

The walk ends because every dwell time is at least a nanosecond long, and each pattern
starts where the one before it ends, so the patterns tile the window. The states visited are
given by the draws alone (`walkStates`), apart from times and rates; that the rate of every
pattern lies in the range of the state visited is stated against them. A table that makes the
program abort is another matter: a rate of zero or below has no latency limit, and a negative
mean dwell time no distribution (`MarkovBandwidthState.Usable`).
-/

namespace SiestaVR.Emu

open SiestaVR.Lib

/-- `MarkovBandwidthState`, without its name. -/
structure MarkovBandwidthState where
  bpsRange : ℚ × ℚ
  dwellRangeSecs : ℚ × ℚ
  meanDwellSecs : ℚ
deriving DecidableEq, Repr

/-- The draws of one visit of a state. -/
structure MarkovDraws where
  dwell : ℚ
  bps : ℚ
  next : ℚ
  dwell_nonneg : 0 ≤ dwell
  bps_mem : 0 ≤ bps ∧ bps ≤ 1
  next_mem : 0 ≤ next ∧ next < 1

namespace MarkovBandwidthState

variable (s : MarkovBandwidthState)

/-- The dwell time: an exponential sample with the state's mean, clamped to its range. A
negative mean makes no distribution, and a range with its ends exchanged cannot be clamped
to. -/
def dwellSecs (x : ℚ) : Option ℚ :=
  if s.meanDwellSecs < 0 then none
  else if s.dwellRangeSecs.2 < s.dwellRangeSecs.1 then none
  else some (max s.dwellRangeSecs.1 (min (x * s.meanDwellSecs) s.dwellRangeSecs.2))

/-- The lower end of the rates, whichever way round the range was entered. -/
def bpsMin : ℚ := min s.bpsRange.1 s.bpsRange.2

/-- The upper end of the rates. -/
def bpsMax : ℚ := max s.bpsRange.1 s.bpsRange.2

end MarkovBandwidthState

section Markov

variable {N : Nat}

/-- A row of the table from which a next state can be drawn. -/
structure TransitionRow (weights : Fin N → ℚ) : Prop where
  nonneg : ∀ i, 0 ≤ weights i
  sum_pos : 0 < ((List.finRange N).map weights).sum

instance (weights : Fin N → ℚ) : Decidable (TransitionRow weights) :=
  decidable_of_iff ((∀ i, 0 ≤ weights i) ∧ 0 < ((List.finRange N).map weights).sum)
    ⟨fun h => ⟨h.1, h.2⟩, fun h => ⟨h.nonneg, h.sum_pos⟩⟩

variable (N) in
/-- `WeightedIndex`: drawing an index in proportion to the weights. -/
structure WeightedIndex where
  /-- The distribution of the weights, sampled with a random number from `[0, 1)`. -/
  sample : (Fin N → ℚ) → ℚ → Option (Fin N)
  /-- A negative weight, or none that is positive, is an error, and nothing else is. -/
  sample_isSome_iff : ∀ weights u, u < 1 → ((sample weights u).isSome ↔ TransitionRow weights)

/-- The first index with which the weights add up to more than a share of all weights. -/
def WeightedIndex.byShares : WeightedIndex N where
  sample weights u :=
    if TransitionRow weights then
      (List.finRange N).find? fun i => u * ((List.finRange N).map weights).sum <
        (((List.finRange N).take (i + 1)).map weights).sum
    else none
  sample_isSome_iff weights u hu := by
    split
    · rename_i h
      refine ⟨fun _ => h, fun _ => List.find?_isSome.2 ?_⟩
      have hN : 0 < N := by
        rcases Nat.eq_zero_or_pos N with rfl | hN
        · exact absurd h.sum_pos (by simp)
        · exact hN
      -- the last index has all the weights
      refine ⟨⟨N - 1, by omega⟩, List.mem_finRange _, ?_⟩
      have hall : (List.finRange N).take (N - 1 + 1) = List.finRange N :=
        List.take_of_length_le (by rw [List.length_finRange]; omega)
      rw [decide_eq_true_eq, hall]
      exact mul_lt_of_lt_one_left h.sum_pos hu
    · rename_i h
      exact ⟨nofun, fun h' => absurd h' h⟩

variable (picks : WeightedIndex N)

variable (states : Fin N → MarkovBandwidthState) (transitions : Fin N → Fin N → ℚ)
  (overallEnd : Nat) (draws : Nat → MarkovDraws)

/-- The end of the segment that starts at `currentTime` with a dwell time of `dwell`. -/
def segEnd (currentTime dwell : Nat) : Nat :=
  match checkedAdd currentTime dwell with
  | some t => min t overallEnd
  | none => overallEnd

/-- The walk from a state and a time on, for at most `fuel` visits. -/
def markovSegments : Nat → Nat → Fin N → Nat → Option (List NetworkPattern)
  | 0, _, _, _ => none
  | fuel + 1, i, currentState, currentTime =>
    if currentTime < overallEnd then do
      let state := states currentState
      let dwellSecs ← state.dwellSecs (draws i).dwell
      let dwell ← Duration.fromSecsF64 dwellSecs
      let segEnd := segEnd overallEnd currentTime dwell
      let bps := genRange state.bpsMin state.bpsMax (draws i).bps
      let pattern ← NetworkPattern.newBandwidth bps bps currentTime segEnd
      let next ← picks.sample (transitions currentState) (draws i).next
      let patterns ← markovSegments fuel (i + 1) next segEnd
      some (pattern :: patterns)
    else some []

/-- The states of the first `visits` visits, from a state on: the next state is the one drawn
from the row of the state before. -/
def walkStates : (visits : Nat) → Nat → Fin N → List (Fin N)
  | 0, _, _ => []
  | visits + 1, i, currentState =>
    currentState ::
      (picks.sample (transitions currentState) (draws i).next).elim []
        (walkStates visits (i + 1))

end Markov

/-- `NetworkPatternEmulator::add_markov_modulated_bandwidth`, for at most `fuel` visits. -/
def NetworkPatternEmulator.addMarkovModulatedBandwidth {N : Nat} (e : NetworkPatternEmulator)
    (picks : WeightedIndex N) (states : Fin N → MarkovBandwidthState)
    (transitions : Fin N → Fin N → ℚ) (overallStart overallEnd : Nat) (initialState : Fin N)
    (draws : Nat → MarkovDraws) (fuel : Nat) : Option NetworkPatternEmulator :=
  (markovSegments picks states transitions overallEnd draws fuel 0 initialState overallStart).map
    e.addPatterns

/-! ## The walk tiles the window -/

theorem genRange_mem {lo hi u : ℚ} (h : lo ≤ hi) (hu : 0 ≤ u ∧ u ≤ 1) :
    lo ≤ genRange lo hi u ∧ genRange lo hi u ≤ hi := by
  have hwidth := sub_nonneg.2 h
  have hle := mul_le_mul_of_nonneg_right hu.2 hwidth
  refine ⟨le_add_of_nonneg_right (mul_nonneg hu.1 hwidth), ?_⟩
  unfold genRange
  linarith

/-- A table that the program accepts: the dwell times are at least a nanosecond, and no longer
than a `Duration` can be; the mean is not negative; the least rate has a latency limit. -/
structure MarkovBandwidthState.Usable (s : MarkovBandwidthState) : Prop where
  dwell_pos : 1 / 1000000000 ≤ s.dwellRangeSecs.1
  dwell_le : s.dwellRangeSecs.1 ≤ s.dwellRangeSecs.2
  dwell_max : ∃ d, Duration.fromSecsF64 s.dwellRangeSecs.2 = some d
  mean_nonneg : 0 ≤ s.meanDwellSecs
  bps_min : ∃ d, Duration.fromQuotient (netemDefaultLimitPackets * netemReferencePacketBits)
    s.bpsMin = some d

instance (s : MarkovBandwidthState) : Decidable s.Usable :=
  decidable_of_iff (1 / 1000000000 ≤ s.dwellRangeSecs.1 ∧ s.dwellRangeSecs.1 ≤ s.dwellRangeSecs.2 ∧
      (Duration.fromSecsF64 s.dwellRangeSecs.2).isSome ∧ 0 ≤ s.meanDwellSecs ∧
      (Duration.fromQuotient (netemDefaultLimitPackets * netemReferencePacketBits)
        s.bpsMin).isSome)
    ⟨fun ⟨h₁, h₂, h₃, h₄, h₅⟩ =>
      ⟨h₁, h₂, Option.isSome_iff_exists.1 h₃, h₄, Option.isSome_iff_exists.1 h₅⟩,
    fun h => ⟨h.dwell_pos, h.dwell_le, Option.isSome_iff_exists.2 h.dwell_max, h.mean_nonneg,
      Option.isSome_iff_exists.2 h.bps_min⟩⟩

/-- The rate of a pattern lies in the range of a state. -/
def Bandwidth.InRange (b : Bandwidth) (s : MarkovBandwidthState) : Prop :=
  b.maxBps = b.tokenRefillRate ∧ s.bpsMin ≤ b.tokenRefillRate ∧ b.tokenRefillRate ≤ s.bpsMax

namespace MarkovBandwidthState.Usable

variable {s : MarkovBandwidthState}

theorem exists_dwell (h : s.Usable) (x : ℚ) :
    ∃ secs d, s.dwellSecs x = some secs ∧ Duration.fromSecsF64 secs = some d ∧ 1 ≤ d := by
  obtain ⟨dmax, hmax⟩ := h.dwell_max
  have hlower : s.dwellRangeSecs.1 ≤
      max s.dwellRangeSecs.1 (min (x * s.meanDwellSecs) s.dwellRangeSecs.2) := le_max_left _ _
  have hupper : max s.dwellRangeSecs.1 (min (x * s.meanDwellSecs) s.dwellRangeSecs.2) ≤
      s.dwellRangeSecs.2 := max_le h.dwell_le (min_le_right _ _)
  have hpos := h.dwell_pos.trans hlower
  obtain ⟨d, hd⟩ := Duration.exists_fromSecsF64_of_le (le_trans (by norm_num) hpos) hupper hmax
  refine ⟨_, d, ?_, hd, Duration.le_of_fromSecsF64 ?_ hd⟩
  · rw [dwellSecs, if_neg (not_lt.2 h.mean_nonneg), if_neg (not_lt.2 h.dwell_le)]
  · rw [secs, Nat.cast_one]
    exact hpos

theorem exists_bandwidth (h : s.Usable) {bps : ℚ} (hbps : s.bpsMin ≤ bps)
    (validFrom validUntil : Nat) :
    ∃ b : Bandwidth, NetworkPattern.newBandwidth bps bps validFrom validUntil =
        some (.bandwidth b) ∧
      b.maxBps = bps ∧ b.tokenRefillRate = bps ∧ b.validFrom = validFrom ∧
      b.validUntil = validUntil := by
  obtain ⟨dmax, hmax⟩ := h.bps_min
  have hlimit : (0 : ℚ) < netemDefaultLimitPackets * netemReferencePacketBits := by
    norm_num [netemDefaultLimitPackets, netemReferencePacketBits]
  have hmin := pos_of_fromQuotient hlimit hmax
  have hpos := hmin.trans_le hbps
  rw [Duration.fromQuotient, if_neg hmin.ne'] at hmax
  obtain ⟨d, hd⟩ := Duration.exists_fromSecsF64_of_le (div_pos hlimit hpos).le
    (div_le_div_of_nonneg_left hlimit.le hmin hbps) hmax
  have hquot : Duration.fromQuotient (netemDefaultLimitPackets * netemReferencePacketBits) bps =
      some d := by
    rw [Duration.fromQuotient, if_neg hpos.ne', hd]
  rw [NetworkPattern.newBandwidth, NetworkPattern.newBandwidthWithBurstMs, hquot]
  exact ⟨_, rfl, rfl, rfl, rfl, rfl⟩

end MarkovBandwidthState.Usable

section Walk

variable {N : Nat}

theorem TransitionRow.exists_next {weights : Fin N → ℚ} (h : TransitionRow weights)
    (picks : WeightedIndex N) {u : ℚ} (hu : u < 1) : ∃ i, picks.sample weights u = some i :=
  Option.isSome_iff_exists.1 ((picks.sample_isSome_iff weights u hu).2 h)

theorem segEnd_mem {overallEnd t d : Nat} (ht : t < overallEnd) (hd : 1 ≤ d) :
    t < segEnd overallEnd t d ∧ segEnd overallEnd t d ≤ overallEnd := by
  unfold segEnd
  split
  · rename_i t' hadd
    rw [checkedAdd_eq_some hadd]
    omega
  · exact ⟨ht, Nat.le_refl _⟩

variable {states : Fin N → MarkovBandwidthState} {transitions : Fin N → Fin N → ℚ}
  {overallEnd : Nat}

/-- **The walk**: with fuel for the nanoseconds that are left it ends, its patterns tile what is
left of the window, and each has a rate of the state visited. -/
theorem markovSegments_tile (hstates : ∀ i, (states i).Usable)
    (hrows : ∀ i, TransitionRow (transitions i)) (picks : WeightedIndex N)
    (draws : Nat → MarkovDraws) {fuel t : Nat}
    (ht : t ≤ overallEnd) (hfuel : overallEnd - t < fuel) (i : Nat) (current : Fin N) :
    ∃ bs : List Bandwidth,
      markovSegments picks states transitions overallEnd draws fuel i current t =
        some (bs.map .bandwidth) ∧
      Tiles t overallEnd (bs.map fun b => (b.validFrom, b.validUntil)) ∧
      List.Forall₂ (fun b j => b.InRange (states j)) bs
        (walkStates picks transitions draws bs.length i current) := by
  induction fuel generalizing i current t with
  | zero => omega
  | succ fuel ih =>
    rw [markovSegments]
    rcases ht.lt_or_eq with hlt | rfl
    · rw [if_pos hlt]
      -- The segment is at least a nanosecond long, so less fuel is left for less time.
      obtain ⟨secs, d, hsecs, hd, hpos⟩ := (hstates current).exists_dwell (draws i).dwell
      obtain ⟨hafter, hbefore⟩ := segEnd_mem hlt hpos
      have hends : (states current).bpsMin ≤ (states current).bpsMax := min_le_max
      have hbps := genRange_mem hends (draws i).bps_mem
      obtain ⟨b, hb, hmaxBps, hrate, hfrom, huntil⟩ := (hstates current).exists_bandwidth hbps.1 t
        (segEnd overallEnd t d)
      obtain ⟨next, hnext⟩ := (hrows current).exists_next picks (draws i).next_mem.2
      obtain ⟨bs, hrest, htiles, hrange⟩ := ih hbefore (by omega) (i + 1) next
      refine ⟨b :: bs, ?_, ?_, ?_⟩
      · simp [hsecs, hd, hb, hnext, hrest]
      · rw [List.map_cons, hfrom, huntil]
        exact .cons hafter htiles
      · -- the walk goes on from the state that the loop goes on with
        rw [List.length_cons, walkStates, hnext, Option.elim_some]
        exact .cons ⟨by rw [hmaxBps, hrate], by rw [hrate]; exact hbps⟩ hrange
    · exact ⟨[], by simp, .nil, .nil⟩

end Walk

/-- **Markov-modulated bandwidth**: for every table of usable states and transition rows with a
positive sum, and whatever is drawn, the generator ends, after at most one visit for each
nanosecond of the window, and the patterns it appends tile the window; each has a rate in
the range of the state visited. -/
theorem markov_bandwidth_tiles {N : Nat} (e : NetworkPatternEmulator) (picks : WeightedIndex N)
    (states : Fin N → MarkovBandwidthState) (transitions : Fin N → Fin N → ℚ)
    (overallStart overallEnd : Nat) (initialState : Fin N) (draws : Nat → MarkovDraws) (fuel : Nat)
    (hstates : ∀ i, (states i).Usable) (hrows : ∀ i, TransitionRow (transitions i))
    (hwindow : overallStart < overallEnd) (hfuel : overallEnd - overallStart < fuel) :
    ∃ bs : List Bandwidth,
      e.addMarkovModulatedBandwidth picks states transitions overallStart overallEnd initialState
        draws fuel = some (e.addPatterns (bs.map .bandwidth)) ∧
      Tiles overallStart overallEnd (bs.map fun b => (b.validFrom, b.validUntil)) ∧
      List.Forall₂ (fun b i => b.InRange (states i)) bs
        (walkStates picks transitions draws bs.length 0 initialState) := by
  obtain ⟨bs, hwalk, htiles, hrange⟩ :=
    markovSegments_tile hstates hrows picks draws hwindow.le hfuel 0 initialState
  exact ⟨bs, by rw [NetworkPatternEmulator.addMarkovModulatedBandwidth, hwalk]; rfl, htiles,
    hrange⟩

/-- `WIFI_CLOUD_VR_STATES`. -/
def wifiCloudVrStates : Fin 6 → MarkovBandwidthState
  | 0 => ⟨(90000000, 125000000), (3, 20), 8⟩
  | 1 => ⟨(80000000, 110000000), (3, 20), 10⟩
  | 2 => ⟨(40000000, 80000000), (3, 20), 10⟩
  | 3 => ⟨(35000000, 65000000), (3, 20), 10⟩
  | 4 => ⟨(35000000, 45000000), (2, 15), 6⟩
  | 5 => ⟨(15000000, 20000000), (1 / 10, 2), 6 / 10⟩

/-- `WIFI_CLOUD_VR_TRANSITIONS`. -/
def wifiCloudVrTransitions : Fin 6 → Fin 6 → ℚ
  | 0 => ![74 / 100, 20 / 100, 0, 0, 0, 6 / 100]
  | 1 => ![15 / 100, 54 / 100, 25 / 100, 0, 0, 6 / 100]
  | 2 => ![0, 20 / 100, 54 / 100, 20 / 100, 0, 6 / 100]
  | 3 => ![0, 0, 20 / 100, 54 / 100, 20 / 100, 6 / 100]
  | 4 => ![0, 0, 0, 20 / 100, 74 / 100, 6 / 100]
  | 5 => ![20 / 100, 20 / 100, 20 / 100, 20 / 100, 20 / 100, 0]

/-- Draws in the middle of every range. -/
def middleDraws : MarkovDraws :=
  ⟨1, 1 / 2, 1 / 2, evenDraws.gap_nonneg, by norm_num, evenDraws.uniform_mem⟩

/-- Draws with which the walk goes on to the next state of the preset. -/
def onwardDraws : MarkovDraws :=
  { middleDraws with next := 9 / 10, next_mem := by norm_num }

/-- A minute with the preset for cloud VR over Wi-Fi; the walk goes from one state to the next. -/
theorem markov_bandwidth_tiles_wifi : ∃ bs : List Bandwidth,
    NetworkPatternEmulator.addMarkovModulatedBandwidth {} .byShares wifiCloudVrStates
      wifiCloudVrTransitions 0 60000000000 0 (fun _ => onwardDraws) 60000000001 =
        some (NetworkPatternEmulator.addPatterns {} (bs.map .bandwidth)) ∧
    Tiles 0 60000000000 (bs.map fun b => (b.validFrom, b.validUntil)) ∧
    List.Forall₂ (fun b i => b.InRange (wifiCloudVrStates i)) bs
      (walkStates .byShares wifiCloudVrTransitions (fun _ => onwardDraws) bs.length 0 0) ∧
    walkStates .byShares wifiCloudVrTransitions (fun _ => onwardDraws) 6 0 0 =
      [0, 1, 2, 3, 4, 4] := by
  obtain ⟨bs, hwalk, htiles, hrange⟩ := markov_bandwidth_tiles {} .byShares wifiCloudVrStates
    wifiCloudVrTransitions 0 60000000000 0 (fun _ => onwardDraws) 60000000001 (by decide +kernel)
    (by decide +kernel) (by norm_num) (by norm_num)
  exact ⟨bs, hwalk, htiles, hrange, by decide +kernel⟩

/-- A state with a rate of zero: its dwell times are in order and the transitions have a
positive sum, but the program aborts, for a pattern of rate zero has no latency limit. -/
theorem markov_zero_rate_aborts :
    let state : MarkovBandwidthState := ⟨(0, 0), (1, 1), 1⟩
    (1 / 1000000000 ≤ state.dwellRangeSecs.1 ∧ state.dwellRangeSecs.1 ≤ state.dwellRangeSecs.2) ∧
      TransitionRow (fun _ : Fin 1 => 1) ∧
      ∀ picks fuel, NetworkPatternEmulator.addMarkovModulatedBandwidth {} picks
        (fun _ : Fin 1 => state) (fun _ _ => 1) 0 1 0 (fun _ => middleDraws) fuel = none := by
  refine ⟨by norm_num, by decide +kernel, fun picks fuel => ?_⟩
  have hpattern : ∀ validUntil, NetworkPattern.newBandwidth 0 0 0 validUntil = none :=
    fun _ => rfl
  cases fuel with
  | zero => rfl
  | succ fuel =>
    simp [NetworkPatternEmulator.addMarkovModulatedBandwidth, markovSegments, genRange,
      MarkovBandwidthState.bpsMin, MarkovBandwidthState.bpsMax, hpattern]

end SiestaVR.Emu
