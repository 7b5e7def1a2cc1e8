import Mathlib.Algebra.Order.Ring.Unbundled.Rat
import Mathlib.Data.Rat.Floor

/-!
# Network patterns (lib/models_mm1k.rs:528–682, 1489–1502, 1752–2003)

The emulator in front of a queue delays, drops and shapes packets by a list of
`NetworkPattern`s. Effects that hit a packet once, random drops and jitter, are
decided when it arrives (`applyArrivalEffects`); bandwidth is decided when it is to be
sent (`trySendBandwidth`), against the token buckets of every bandwidth pattern that is
valid at that moment.

Times and durations are in nanoseconds; what the source computes in floating point is
computed in exact rationals. `Duration::from_secs_f64` aborts on a negative or too large
argument and `Duration` addition on overflow: no result. The random generator hands out
at most one number for each pattern on an arrival, so its numbers enter as a function of
the pattern's position. Logging is left out.
-/

namespace SiestaVR.Emu

/-! ## Times -/

/-- A time or a duration in seconds (`as_secs_f64`). -/
def secs (t : Nat) : ℚ := t / 1000000000

namespace Duration

/-- `Duration::MAX`. -/
def max : Nat := 2 ^ 64 * 1000000000 - 1

/-- The nearest integer, the even one of two. -/
def roundEven (x : ℚ) : Int :=
  if x - ⌊x⌋ < 1 / 2 then ⌊x⌋
  else if 1 / 2 < x - ⌊x⌋ then ⌊x⌋ + 1
  else if ⌊x⌋ % 2 = 0 then ⌊x⌋ else ⌊x⌋ + 1

/-- `Duration::from_secs_f64`. -/
def fromSecsF64 (s : ℚ) : Option Nat :=
  let nanos := (roundEven (s * 1000000000)).toNat
  if 0 ≤ s ∧ nanos ≤ Duration.max then some nanos else none

theorem floor_le_roundEven (x : ℚ) : ⌊x⌋ ≤ roundEven x ∧ roundEven x ≤ ⌊x⌋ + 1 := by
  unfold roundEven
  split_ifs <;> omega

theorem roundEven_mono {x y : ℚ} (h : x ≤ y) : roundEven x ≤ roundEven y := by
  rcases (Int.floor_mono h).lt_or_eq with hlt | heq
  · calc roundEven x ≤ ⌊x⌋ + 1 := (floor_le_roundEven x).2
      _ ≤ ⌊y⌋ := hlt
      _ ≤ roundEven y := (floor_le_roundEven y).1
  · unfold roundEven
    rw [heq]
    have hxy : x - ⌊y⌋ ≤ y - ⌊y⌋ := sub_le_sub_right h _
    by_cases hx : x - ⌊y⌋ < 1 / 2
    · rw [if_pos hx]
      split_ifs <;> omega
    · have hy : ¬ y - ⌊y⌋ < 1 / 2 := fun hy => hx (hxy.trans_lt hy)
      rw [if_neg hx, if_neg hy]
      by_cases hx' : 1 / 2 < x - ⌊y⌋
      · rw [if_pos hx', if_pos (hx'.trans_le hxy)]
      · rw [if_neg hx']
        split_ifs <;> omega

theorem nonneg_of_fromSecsF64 {x : ℚ} {a : Nat} (h : fromSecsF64 x = some a) : 0 ≤ x := by
  simp only [fromSecsF64, Option.ite_none_right_eq_some] at h
  exact h.1.1

theorem fromSecsF64_mono {x y : ℚ} {a b : Nat} (h : x ≤ y) (ha : fromSecsF64 x = some a)
    (hb : fromSecsF64 y = some b) : a ≤ b := by
  simp only [fromSecsF64, Option.ite_none_right_eq_some, Option.some.injEq] at ha hb
  obtain ⟨-, rfl⟩ := ha
  obtain ⟨-, rfl⟩ := hb
  exact Int.toNat_le_toNat (roundEven_mono (mul_le_mul_of_nonneg_right h (by norm_num)))

theorem exists_fromSecsF64_of_le {x y : ℚ} {b : Nat} (hx : 0 ≤ x) (h : x ≤ y)
    (hb : fromSecsF64 y = some b) : ∃ a, fromSecsF64 x = some a := by
  simp only [fromSecsF64, Option.ite_none_right_eq_some, Option.some.injEq] at hb ⊢
  obtain ⟨⟨-, hmax⟩, -⟩ := hb
  have hle : roundEven (x * 1000000000) ≤ roundEven (y * 1000000000) :=
    roundEven_mono (mul_le_mul_of_nonneg_right h (by norm_num))
  exact ⟨_, ⟨hx, (Int.toNat_le_toNat hle).trans hmax⟩, rfl⟩

/-- `Duration::from_secs_f64` of a quotient, which is not a number if the divisor is zero. -/
def fromQuotient (a b : ℚ) : Option Nat := if b = 0 then none else fromSecsF64 (a / b)

/-- `Duration + Duration`. -/
def add (d d' : Nat) : Option Nat := if d + d' ≤ Duration.max then some (d + d') else none

end Duration

/-- `TaiTime::checked_add`. -/
def checkedAdd (t d : Nat) : Option Nat :=
  if t + d < 2 ^ 63 * 1000000000 then some (t + d) else none

/-! ## Patterns -/

/-- `BANDWIDTH_BURST_MIN_FPS`. -/
def bandwidthBurstMinFps : ℚ := 60

/-- `BANDWIDTH_BURST_FRAMES`. -/
def bandwidthBurstFrames : ℚ := 20

/-- `BANDWIDTH_BURST_MS`. -/
def bandwidthBurstMs : ℚ := 1000 * bandwidthBurstFrames / bandwidthBurstMinFps

/-- `NETEM_DEFAULT_LIMIT_PACKETS`. -/
def netemDefaultLimitPackets : ℚ := 1000

/-- `NETEM_REFERENCE_PACKET_BITS`. -/
def netemReferencePacketBits : ℚ := 1500 * 8

/-- `JitterDistributionType`. -/
inductive JitterDistributionType
  | gaussian
  | uniform
deriving DecidableEq, Repr

/-- `NetworkPattern::ProbabilisticDrop`. -/
structure ProbabilisticDrop where
  dropProbability : ℚ
  validFrom : Nat
  validUntil : Nat
deriving DecidableEq, Repr

/-- `NetworkPattern::Bandwidth`. -/
structure Bandwidth where
  maxBps : ℚ
  currentTokens : ℚ
  maxTokens : ℚ
  tokenRefillRate : ℚ
  lastRefill : ℚ
  maxLatency : Nat
  validFrom : Nat
  validUntil : Nat
deriving DecidableEq, Repr

/-- `NetworkPattern::Jitter`. -/
structure Jitter where
  meanDelay : Nat
  distributionType : JitterDistributionType
  variance : ℚ
  correlationPct : ℚ
  lastDelay : Nat
  validFrom : Nat
  validUntil : Nat
deriving DecidableEq, Repr

/-- `NetworkPattern`. -/
inductive NetworkPattern
  | constant
  | onOffPeriodic
  | probabilisticDrop (d : ProbabilisticDrop)
  | bandwidth (b : Bandwidth)
  | jitter (j : Jitter)
deriving DecidableEq, Repr

/-- `NetworkPattern::new_bandwidth_with_burst_ms`. The bucket starts empty. -/
def NetworkPattern.newBandwidthWithBurstMs (maxBps tokenRefillRate : ℚ)
    (validFrom validUntil : Nat) (burstMs : ℚ) : Option NetworkPattern := do
  let maxLatency ← Duration.fromQuotient
    (netemDefaultLimitPackets * netemReferencePacketBits) tokenRefillRate
  let bucketCapacity := tokenRefillRate * burstMs / 1000
  some (.bandwidth
    { maxBps, currentTokens := 0, maxTokens := bucketCapacity, tokenRefillRate,
      lastRefill := secs validFrom, maxLatency, validFrom, validUntil })

/-- `NetworkPattern::new_bandwidth`. -/
def NetworkPattern.newBandwidth (maxBps tokenRefillRate : ℚ) (validFrom validUntil : Nat) :
    Option NetworkPattern :=
  newBandwidthWithBurstMs maxBps tokenRefillRate validFrom validUntil bandwidthBurstMs

/-- `make_pacing_only` (lib/emu_nic_cap.rs): unless the legacy switch is set, a bandwidth
pattern loses its limit. -/
def makePacingOnly (legacy : Bool) : NetworkPattern → NetworkPattern
  | .bandwidth b => .bandwidth (if legacy then b else { b with maxLatency := Duration.max })
  | p => p

/-- `NetworkPatternEmulator`, without its name and its random generator. -/
structure NetworkPatternEmulator where
  patterns : List NetworkPattern := []
deriving DecidableEq, Repr

/-! ## Arrival effects -/

/-- `ArrivalOutcome`. -/
inductive ArrivalOutcome
  | drop
  | delay (d : Nat)
deriving DecidableEq, Repr

/-- `now` lies in the interval, its ends included. -/
def validAt (validFrom validUntil now : Nat) : Bool := validFrom ≤ now && now ≤ validUntil

/-- The delay a jitter pattern adds, for the number the generator hands out. -/
def Jitter.newDelay (j : Jitter) (draw : ℚ) : Option Nat :=
  let randomComponent := match j.distributionType with
    | .gaussian => draw
    | .uniform => if 0 < j.variance then draw else 0
  let correlatedOffset :=
    if 0 < j.correlationPct then
      (secs j.lastDelay - secs j.meanDelay) * (j.correlationPct / 100)
    else 0
  Duration.fromSecsF64 (max (secs j.meanDelay + randomComponent + correlatedOffset) 0)

/-- The loop of `apply_arrival_effects_labeled` over the patterns from position `i` on. A
drop returns at once, so that the patterns behind it stay as they are. -/
def arrivalEffects (draws : Nat → ℚ) (now : Nat) :
    Nat → Nat → List NetworkPattern → Option (ArrivalOutcome × List NetworkPattern)
  | _, totalDelay, [] => some (.delay totalDelay, [])
  | i, totalDelay, .probabilisticDrop d :: ps =>
    if validAt d.validFrom d.validUntil now ∧ draws i < d.dropProbability then
      some (.drop, .probabilisticDrop d :: ps)
    else
      (arrivalEffects draws now (i + 1) totalDelay ps).map
        fun (o, ps') => (o, .probabilisticDrop d :: ps')
  | i, totalDelay, .jitter j :: ps =>
    if validAt j.validFrom j.validUntil now then do
      let newDelay ← j.newDelay (draws i)
      let totalDelay ← Duration.add totalDelay newDelay
      let (o, ps') ← arrivalEffects draws now (i + 1) totalDelay ps
      some (o, .jitter { j with lastDelay := newDelay } :: ps')
    else
      (arrivalEffects draws now (i + 1) totalDelay ps).map fun (o, ps') => (o, .jitter j :: ps')
  | i, totalDelay, p :: ps =>
    (arrivalEffects draws now (i + 1) totalDelay ps).map fun (o, ps') => (o, p :: ps')

/-- `NetworkPatternEmulator::apply_arrival_effects`. -/
def NetworkPatternEmulator.applyArrivalEffects (e : NetworkPatternEmulator) (draws : Nat → ℚ)
    (now : Nat) : Option (ArrivalOutcome × NetworkPatternEmulator) :=
  (arrivalEffects draws now 0 0 e.patterns).map fun (o, ps) => (o, { e with patterns := ps })

/-! ## Bandwidth -/

/-- `BandwidthOutcome`. -/
inductive BandwidthOutcome
  | sent
  | wait (d : Nat)
  | exceedsLimit
deriving DecidableEq, Repr

/-- The pattern is valid now. -/
def Bandwidth.active (b : Bandwidth) (now : Nat) : Bool := validAt b.validFrom b.validUntil now

/-- The tokens gained since the last refill. -/
def Bandwidth.refill (b : Bandwidth) (now : Nat) : Bandwidth :=
  let dt := secs now - b.lastRefill
  { b with
    currentTokens := min (b.currentTokens + dt * b.tokenRefillRate) b.maxTokens
    lastRefill := secs now }

/-- What the first loop of `try_send_bandwidth` finds out. -/
structure Peek where
  anyActive : Bool := false
  allSufficient : Bool := true
  maxWait : Nat := 0
  minLimit : Option Nat := none
deriving DecidableEq, Repr

/-- An active pattern, refilled, is checked for `bits` tokens. Only one that is short of
tokens has its limit count. -/
def Peek.check (k : Peek) (bits : ℚ) (b : Bandwidth) : Option Peek :=
  if b.currentTokens < bits then do
    let need := bits - b.currentTokens
    let wait ← Duration.fromQuotient need b.tokenRefillRate
    some
      { anyActive := true
        allSufficient := false
        maxWait := max k.maxWait wait
        minLimit := some (k.minLimit.elim b.maxLatency fun m => min m b.maxLatency) }
  else some { k with anyActive := true }

/-- The first loop of `try_send_bandwidth`: refill and check. -/
def peek (now : Nat) (bits : ℚ) :
    Peek → List NetworkPattern → Option (Peek × List NetworkPattern)
  | k, [] => some (k, [])
  | k, .bandwidth b :: ps =>
    if b.active now then do
      let k ← k.check bits (b.refill now)
      let (k, ps') ← peek now bits k ps
      some (k, .bandwidth (b.refill now) :: ps')
    else (peek now bits k ps).map fun (k, ps') => (k, .bandwidth b :: ps')
  | k, p :: ps => (peek now bits k ps).map fun (k, ps') => (k, p :: ps')

/-- The second loop of `try_send_bandwidth`: every active pattern pays. -/
def debit (now : Nat) (bits : ℚ) : NetworkPattern → NetworkPattern
  | .bandwidth b =>
    if b.active now then .bandwidth { b with currentTokens := b.currentTokens - bits }
    else .bandwidth b
  | p => p

/-- `NetworkPatternEmulator::try_send_bandwidth`. -/
def NetworkPatternEmulator.trySendBandwidth (e : NetworkPatternEmulator) (now : Nat) (bits : ℚ)
    (elapsedWait : Nat) : Option (BandwidthOutcome × NetworkPatternEmulator) := do
  let (k, ps) ← peek now bits {} e.patterns
  if !k.anyActive then
    some (.sent, { e with patterns := ps })
  else if k.allSufficient then
    some (.sent, { e with patterns := ps.map (debit now bits) })
  else
    let limit ← k.minLimit
    let total ← Duration.add elapsedWait k.maxWait
    if limit < total then some (.exceedsLimit, { e with patterns := ps })
    else some (.wait k.maxWait, { e with patterns := ps })

end SiestaVR.Emu
