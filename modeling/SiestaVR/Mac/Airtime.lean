import SiestaVR.Mac.Types
import Mathlib.Tactic.NormNum
import Mathlib.Algebra.Order.Ring.Unbundled.Rat

/-!
# Airtime of an A-MPDU (lib/mod.rs:3269–3421)

Exact-arithmetic reading of `airtime_ampdu` and `collision_delay`, in
nanoseconds. The one part that is not integer arithmetic is the path loss (a
square root and a logarithm of the distance); it enters as a function
`pathLoss` of the two positions.

For a channel width outside {20, 40, 80, 160, 320} MHz the source divides by a
rate of zero and gets an infinite airtime, which no limit admits; here it is
`airtimeUnbounded`, the least value that no limit admits.
-/

namespace SiestaVR.Mac

/-- `DEFAULT_TMAX_AGG`, in nanoseconds. -/
def defaultTmaxAgg : Nat := 5484000

/-- `LEGACY_PHY_DURATION`, in nanoseconds. -/
def legacyPhyDuration : Nat := 20000

/-- `SYMBOL_TIME_LEGACY`, in nanoseconds. -/
def symbolTimeLegacy : Nat := 4000

/-- `SYMBOL_TIME_11AX`, in nanoseconds. -/
def symbolTime11ax : Nat := 16000

/-- `⌈a / b⌉`. -/
def ceilDiv (a b : Nat) : Nat := (a + b - 1) / b

/-- Duration of a control frame of `bits` payload bits at the basic rate of 96
bits a symbol (service field 16 bits, tail 18 bits). -/
def controlFrame (bits : Nat) : Nat :=
  legacyPhyDuration + ceilDiv (16 + bits + 18) 96 * symbolTimeLegacy

/-- `collision_delay`: RTS, SIFS, CTS. -/
def collisionDelay : Nat := controlFrame 160 + sifs + controlFrame 112

/-- `padded_mpdu_bits`: payload, network stack and MAC header, padded to 32 bits. -/
def paddedMpduBits (appPayloadBits : Nat) : Nat := ceilDiv (appPayloadBits + 288 + 288) 32 * 32

/-- Transmission power in dBm for a channel width. -/
def pTxCheated : Nat → ℚ
  | 160 => 23
  | 320 => 601 / 20
  | _ => 20

/-- Noise of a wider channel relative to 20 MHz, in dB. -/
def noiseAdjustmentDb : Nat → ℚ
  | 40 => 301 / 100
  | 80 => 602 / 100
  | 160 => 903 / 100
  | 320 => 1204 / 100
  | _ => 0

/-- Bits a symbol, coding rate (numerator, denominator) and MCS index for a
received power in dBm. -/
def mcsOf (pr : ℚ) : Nat × (Nat × Nat) × Nat :=
  if pr < -79 then (1, (1, 2), 0)
  else if pr < -77 then (2, (1, 2), 1)
  else if pr < -74 then (2, (3, 4), 2)
  else if pr < -70 then (4, (1, 2), 3)
  else if pr < -66 then (4, (3, 4), 4)
  else if pr < -65 then (6, (1, 2), 5)
  else if pr < -64 then (6, (2, 3), 6)
  else if pr < -59 then (6, (3, 4), 7)
  else if pr < -57 then (8, (3, 4), 8)
  else if pr < -55 then (8, (5, 6), 9)
  else if pr < -53 then (10, (3, 4), 10)
  else if pr < -49 then (10, (5, 6), 11)
  else if pr < -46 then (12, (3, 4), 12)
  else (12, (5, 6), 13)

/-- Data subcarriers of a channel width, zero for an unsupported one. -/
def subcarriers : Nat → Nat
  | 320 => 3920
  | 160 => 1960
  | 80 => 980
  | 40 => 468
  | 20 => 234
  | _ => 0

/-- Stands for the infinite airtime of an unsupported channel width. -/
def airtimeUnbounded : Nat := defaultTmaxAgg

/-- The settings of the PHY formula that come from the environment:
`XRSIM_SU_NSS` (1 to 8 streams) and `XRSIM_EHT_PHY_US` (a positive preamble). -/
structure PhySettings where
  suSpatialStreams : Nat := 2
  ehtPhyDuration : Nat := 76000
  streams_pos : 0 < suSpatialStreams := by decide
  phy_pos : 0 < ehtPhyDuration := by decide

/-- Duration of the data part of an A-MPDU. -/
def dataDuration (phy : PhySettings) (bitsSymbol : Nat) (rate : Nat × Nat) (width : Nat)
    (paddedPayloadBitsSum nMpdus : Nat) : Nat :=
  phy.ehtPhyDuration
    + ceilDiv ((16 + nMpdus * 32 + paddedPayloadBitsSum + 18) * rate.2)
        (phy.suSpatialStreams * bitsSymbol * rate.1 * subcarriers width) * symbolTime11ax

/-- `airtime_ampdu`: RTS, CTS, data and block acknowledgement with the SIFS
between them, and the MCS index. -/
def airtimeAmpdu (phy : PhySettings) (pathLoss : Coords → Coords → ℚ)
    (paddedPayloadBitsSum nMpdus : Nat) (src dest : Coords) (channelWidth : Nat) : Nat × Nat :=
  let pr := pTxCheated channelWidth - pathLoss src dest - noiseAdjustmentDb channelWidth
  let (bitsSymbol, rate, mcs) := mcsOf pr
  if subcarriers channelWidth = 0 then (airtimeUnbounded, mcs)
  else
    let blockAckBits := (24 + if nMpdus ≤ 64 then 8 else 32) * 8
    (controlFrame 160 + sifs + controlFrame 112 + sifs
      + dataDuration phy bitsSymbol rate channelWidth paddedPayloadBitsSum nMpdus
      + sifs + controlFrame blockAckBits, mcs)

theorem airtimeAmpdu_pos (phy : PhySettings) (pathLoss : Coords → Coords → ℚ)
    (bits n : Nat) (src dest : Coords) (width : Nat) :
    0 < (airtimeAmpdu phy pathLoss bits n src dest width).1 := by
  simp only [airtimeAmpdu]
  split
  · show 0 < airtimeUnbounded
    decide
  · have hsifs : 0 < sifs := by decide
    show 0 < _ + sifs + controlFrame _
    omega

/-- A collision occupies the link for 76 µs. -/
theorem collisionDelay_eq : collisionDelay = 76000 := by decide

end SiestaVR.Mac
