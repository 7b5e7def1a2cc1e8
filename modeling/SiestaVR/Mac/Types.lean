import Mathlib.Data.Rat.Defs

/-!
# Packets, keys and EDCA parameters of the MAC (lib/mod.rs, lib/models_mm1k.rs)

Conventions of the whole MAC model:

- Times (`TaiTime<0>`) and durations are nanoseconds since the epoch, as `Nat`.
  The source keeps airtimes as `f64` seconds; here they are exact.
- Station ids (`i32`) are integers, `-1` being the access point; link ids
  (`u8`) and packet ids (`usize`) are naturals. None of them is computed with.
- `MacKey` names a contention function and its queue: station or access point,
  access category, link.
-/

namespace SiestaVR.Mac

/-- Access categories (`EdcaAc`). -/
inductive EdcaAc
  | voice
  | video
  | bestEffort
  | background
  deriving DecidableEq, Repr

/-- The four categories in the order the source's loops list them. -/
def EdcaAc.all : List EdcaAc := [.voice, .video, .bestEffort, .background]

theorem EdcaAc.mem_all (ac : EdcaAc) : ac ∈ EdcaAc.all := by
  cases ac <;> decide

/-- `ac_prio`: the smaller, the earlier served. -/
def acPrio : EdcaAc → Nat
  | .voice => 0
  | .video => 1
  | .bestEffort => 2
  | .background => 3

/-- `MacKey = (i32, EdcaAc, u8)`: station (or `-1`), category, link. -/
structure MacKey where
  sta : Int
  ac : EdcaAc
  link : Nat
  deriving DecidableEq, Repr

/-- `WindowKey = (i32, u8)`: station and link. -/
abbrev WindowKey := Int × Nat

/-- `Coords`. -/
structure Coords where
  x : ℚ := 0
  y : ℚ := 0
  z : ℚ := 0
  deriving DecidableEq, Repr

/-- `BG_TRAFFIC_STREAM_ID`, the stream id of a default header. -/
def bgTrafficStreamId : Nat := 7

/-- `HeaderALVRStream`: the stream header of the payload, copied by the MAC into
its statistics. -/
structure HeaderALVRStream where
  packetLengthBytes : Nat := 0
  streamId : Nat := bgTrafficStreamId
  nextPacketIndex : Nat := 0
  shardsCount : Nat := 0
  shardIndex : Nat := 0
  txInstant : ℚ := 0
  frameLosses : Option (List Nat) := none
  deriving DecidableEq, Repr

/-- `MpduPacket`, with the fields the MAC reads, writes or hands on. -/
structure MpduPacket where
  packetId : Nat
  lengthPacketBits : Nat
  queueInInstant : Nat := 0
  queueOutInstant : Nat := 0
  tQ : Nat := 0
  tS : Nat := 0
  staSrcId : Int
  staDestId : Int
  staSrcCoords : Coords := {}
  queueLengthWhenOut : Nat := 0
  dataInner : List UInt8 := []
  headerAlvr : HeaderALVRStream := {}
  edcaAc : EdcaAc := .bestEffort
  macKeyCached : Option MacKey := none
  assignedLinkId : Option Nat := none
  deriving DecidableEq, Repr

/-- A packet of 1000 bytes to run the MAC with. -/
def plainPacket (src dest : Int) (id : Nat) : MpduPacket :=
  { packetId := id, lengthPacketBits := 8000, staSrcId := src, staDestId := dest }

namespace MpduPacket

/-- Direction of a packet: `sta_src_id > sta_dest_id` is uplink. -/
def isUl (p : MpduPacket) : Bool := p.staDestId < p.staSrcId

/-- The station whose queues a packet waits in: its source (uplink) or the
access point. -/
def queueSta (p : MpduPacket) : Int := if p.isUl then p.staSrcId else -1

/-- The key of `active_mac_key_counts` a packet is counted under. -/
def acKey (p : MpduPacket) : Int × EdcaAc := (p.queueSta, p.edcaAc)

/-- The flow of a packet, the key of `sta_stats_cache`. -/
def flow (p : MpduPacket) : Int × Int := (p.staSrcId, p.staDestId)

/-- Source, destination and packet id: what names a packet among all stations. -/
def triple (p : MpduPacket) : Int × Int × Nat := (p.staSrcId, p.staDestId, p.packetId)

/-- The packet without what the MAC stamps on it while it is aggregated
(`queue_out_instant`, `T_q`, `T_s`, `queue_length_when_out`, `mac_key_cached`).
A packet that fails its loss draw goes back into the queue with new stamps. -/
def withoutStamps (p : MpduPacket) : MpduPacket :=
  { p with queueOutInstant := 0, tQ := 0, tS := 0, queueLengthWhenOut := 0, macKeyCached := none }

@[simp] theorem withoutStamps_flow (p : MpduPacket) : p.withoutStamps.flow = p.flow := rfl
@[simp] theorem withoutStamps_triple (p : MpduPacket) : p.withoutStamps.triple = p.triple := rfl

end MpduPacket

/-- `AmpduPacket`: an aggregate of MPDUs on one link. -/
structure AmpduPacket where
  mpduPackets : List MpduPacket := []
  totalLength : Nat := 0
  paddedBitsSum : Nat := 0
  staSrcId : Int := -1
  staDestId : Int := -1
  size : Nat := 0
  coordinates : Coords := {}
  macKey : MacKey := ⟨0, .bestEffort, 0⟩
  linkId : Nat := 0
  mcsAssigned : Nat := 0
  deriving DecidableEq, Repr

/-- `EdcaParam`; a `txop_limit_us` of zero means no limit. -/
structure EdcaParam where
  cwMin : Nat
  cwMax : Nat
  aifsn : Nat
  txopLimitUs : Nat
  deriving DecidableEq, Repr

/-- `EDCA_TABLE`. -/
def edcaTable : EdcaAc → EdcaParam
  | .voice => ⟨3, 7, 2, 1504⟩
  | .video => ⟨7, 15, 2, 3008⟩
  | .bestEffort => ⟨15, 1023, 3, 0⟩
  | .background => ⟨15, 1023, 7, 0⟩

/-- `SIFS_US`, in nanoseconds. -/
def sifs : Nat := 16000

/-- `SLOT_TIME_US`, in nanoseconds. -/
def slotTime : Nat := 9000

/-- `aifs`: SIFS plus `aifsn` slots. -/
def aifs (p : EdcaParam) : Nat := sifs + p.aifsn * slotTime

/-- `MAX_RETRIES_MAC`. -/
def maxRetriesMac : Nat := 10

/-- `STR_PLUS_MODE_MLO`: every link of a station may send from every queue of
its category. Both values of the constant are modelled where it is tested. -/
def strPlusModeMlo : Bool := true

/-- `MpduPacket::assign_link`; no result when the assertion fails. -/
def MpduPacket.assignLink (p : MpduPacket) (linkId : Nat) : Option MpduPacket :=
  if strPlusModeMlo then some { p with assignedLinkId := none }
  else if p.assignedLinkId.isNone then some { p with assignedLinkId := some linkId }
  else none

/-- `LinkSelectionStrategy`. -/
inductive LinkSelectionStrategy
  | opportunistic
  | primaryFirst
  | loadBalanced
  | qualityBased
  | roundRobin
  | lowestLatency
  | lyapunovBackpressure
  deriving DecidableEq, Repr

end SiestaVR.Mac
