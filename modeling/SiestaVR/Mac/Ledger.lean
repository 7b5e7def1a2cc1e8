import SiestaVR.Mac.Module
import Mathlib.Data.Multiset.Count
import Mathlib.Data.Multiset.OrderedMonoid
import Mathlib.Logic.Relation

/-!
# The ledger: an abstract model of what the MAC stores and counts

The MAC is a store of packets with counters beside it. `Ledger` keeps exactly
that: everything queued (labelled with its queue, order forgotten), the three
families of counters that are meant to follow the queues, and the counters of
arrivals, blocked packets and packets handed over.

An `Entry` is one booking; `Booked cfg L e L'` says what it does to the ledger
and under which circumstances it may occur. The handlers of the MAC book such
entries and do nothing else to the ledger (proved beside the handlers), so the
accounting results are proved here, once for each kind of entry:

- `Sound`: packets lie in the queues of their station and category, no queue
  exceeds its capacity, and no counter falls below what it counts. It holds
  without any assumption on the traffic.
- `Exact`: contention and flow counters are equal to what they count, for
  traffic without clashing ids.
- `DepthsExact` and `Balanced`: the same for the link depths and for the
  arrival counters, for the entries that respect them.
-/

namespace SiestaVR.Mac

open Lib

/-- The capacity of a queue: that of the access point or of a station. -/
def capacity (cfg : MacConfig) (k : MacKey) : Nat :=
  if k.sta = -1 then cfg.queueMaxsizeDl else cfg.ulCapacityQueueDevice

/-- What the MAC stores and counts. -/
structure Ledger where
  queued : Multiset (MacKey × MpduPacket)
  active : Int × EdcaAc → Nat
  flows : Int × Int → Nat
  flowKeys : List (Int × Int)
  depths : Nat → Nat
  arrived : Nat
  blocked : Nat
  handed : Nat

namespace Ledger

variable (L : Ledger)

/-- Packets waiting in the queues of a station and category, over all links. -/
def waiting (a : Int × EdcaAc) : Nat := L.queued.countP fun x => (x.1.sta, x.1.ac) = a

/-- Packets of a flow. -/
def ofFlow (f : Int × Int) : Nat := L.queued.countP fun x => x.2.flow = f

/-- Packets in the queues of a link. -/
def onLink (l : Nat) : Nat := L.queued.countP fun x => x.1.link = l

/-- Packets in a queue. -/
def inQueue (k : MacKey) : Nat := L.queued.countP fun x => x.1 = k

end Ledger

/-- Who sends a packet with this source, destination and id over the air. -/
def senderOf (t : Int × Int × Nat) : Int := if t.2.1 < t.1 then t.1 else -1

theorem queueSta_eq (p : MpduPacket) : p.queueSta = senderOf p.triple := by
  by_cases h : p.staDestId < p.staSrcId <;>
    simp [MpduPacket.queueSta, MpduPacket.isUl, senderOf, MpduPacket.triple, h]

/-- Two packets that a build may confuse: same id, same sender and, if the
sender is the access point, same destination (or removal by bare id). -/
def Clash (cfg : MacConfig) (a b : Int × Int × Nat) : Prop :=
  a.2.2 = b.2.2 ∧ senderOf a = senderOf b ∧
    (senderOf a = -1 → a.2.1 = b.2.1 ∨ cfg.dlPacketIdLegacy = true)

/-- Where the packets of a ledger lie. -/
def Placed (cfg : MacConfig) (L : Ledger) : Prop :=
  ∀ x ∈ L.queued,
    x.1 ∈ cfg.macKeys ∧ (x.1.sta, x.1.ac) = x.2.acKey ∧ x.2.assignedLinkId = none

/-- No two queued packets clash. -/
def ClashFree (cfg : MacConfig) (L : Ledger) : Prop :=
  ∀ a b, ({a, b} : Multiset _) ≤ L.queued.map (fun x => x.2.triple) → ¬ Clash cfg a b

/-- The kinds of bookings. -/
inductive Entry
  /-- A packet is counted as arrived and not stored. -/
  | ignored
  /-- A packet is counted as arrived and as blocked. -/
  | refused
  /-- A packet is counted and stored. -/
  | stored (k : MacKey) (p : MpduPacket)
  /-- Packets of one queue are discarded; `flows` are taken from the flow counters. -/
  | dropped (k : MacKey) (ps : List MpduPacket) (flows : List (Int × Int))
  /-- A build: packets sent, packets that vanish, failed draws, and whether the
  A-MPDU is handed over. -/
  | built (sent lost : Multiset (MacKey × MpduPacket)) (failed : Nat) (handed : Bool)

/-- What an entry does to the ledger. -/
inductive Booked (cfg : MacConfig) : Ledger → Entry → Ledger → Prop
  | ignored (L : Ledger) : Booked cfg L .ignored { L with arrived := L.arrived + 1 }
  | refused (L : Ledger) :
      Booked cfg L .refused { L with arrived := L.arrived + 1, blocked := L.blocked + 1 }
  | stored (L : Ledger) (k : MacKey) (p : MpduPacket) (keys : List (Int × Int))
      (hk : k ∈ cfg.macKeys) (hp : (k.sta, k.ac) = p.acKey) (hl : p.assignedLinkId = none)
      (hroom : L.inQueue k < capacity cfg k)
      (hkeys : ∀ f ∈ keys, f = p.flow ∨ f ∈ L.flowKeys) :
      Booked cfg L (.stored k p) { L with
        queued := (k, p) ::ₘ L.queued
        active := fun a => L.active a + if a = p.acKey then 1 else 0
        flows := fun f => L.flows f + if f = p.flow then 1 else 0
        flowKeys := keys
        depths := fun l => L.depths l + if l = k.link then 1 else 0
        arrived := L.arrived + 1 }
  | dropped (L : Ledger) (rest : Multiset (MacKey × MpduPacket)) (k : MacKey)
      (ps : List MpduPacket) (flows : List (Int × Int))
      (hsplit : L.queued = rest + ↑(ps.map (Prod.mk k)))
      (hflows : flows = ps.map MpduPacket.flow ∨
        ∃ f ∈ L.flowKeys, (∀ p ∈ ps, p.staDestId = f.2) ∧ flows = List.replicate ps.length f) :
      Booked cfg L (.dropped k ps flows) { L with
        queued := rest
        active := fun a => L.active a - if a = (k.sta, k.ac) then ps.length else 0
        flows := fun f => L.flows f - flows.countP (· = f)
        depths := fun l => L.depths l - if l = k.link then ps.length else 0
        blocked := L.blocked + ps.length }
  | built (L : Ledger) (rest sent lost : Multiset (MacKey × MpduPacket)) (failed : Nat)
      (handed : Bool) (hsplit : L.queued = rest + sent + lost)
      (hlost : Placed cfg L → ClashFree cfg L → lost = 0) :
      Booked cfg L (.built sent lost failed handed) { L with
        queued := rest
        active := fun a => L.active a - sent.countP fun x => x.2.acKey = a
        flows := fun f => L.flows f - sent.countP fun x => x.2.flow = f
        depths := fun l => L.depths l - sent.countP fun x => x.2.assignedLinkId = some l
        blocked := L.blocked + failed
        handed := L.handed + if handed then Multiset.card sent else 0 }

/-- An entry that meets `Q` was booked. -/
def Booking (cfg : MacConfig) (Q : Entry → Prop) (L L' : Ledger) : Prop :=
  ∃ e, Q e ∧ Booked cfg L e L'

/-- Any number of entries, all meeting `Q`. -/
abbrev Bookings (cfg : MacConfig) (Q : Entry → Prop) : Ledger → Ledger → Prop :=
  Relation.ReflTransGen (Booking cfg Q)

/-- What every single entry keeps, a series of entries keeps. -/
theorem Bookings.preserves {cfg : MacConfig} {Q : Entry → Prop} {P : Ledger → Prop}
    (hP : ∀ L e L', P L → Q e → Booked cfg L e L' → P L') {L L' : Ledger}
    (h : Bookings cfg Q L L') (hL : P L) : P L' := by
  induction h with
  | refl => exact hL
  | tail _ hlast ih =>
    obtain ⟨e, hQ, hb⟩ := hlast
    exact hP _ e _ ih hQ hb

/-! ## Soundness -/

/-- Packets are where they belong, within capacity, and never undercounted. -/
structure Sound (cfg : MacConfig) (L : Ledger) : Prop where
  placed : Placed cfg L
  fits : ∀ k, L.inQueue k ≤ capacity cfg k
  active : ∀ a, L.waiting a ≤ L.active a
  depths : ∀ l, L.onLink l ≤ L.depths l

section Sound

variable {cfg : MacConfig} {L L' : Ledger} {e : Entry}

theorem countP_map_mk (k : MacKey) (ps : List MpduPacket) (q : MacKey → Prop) [DecidablePred q] :
    (↑(ps.map (Prod.mk k)) : Multiset (MacKey × MpduPacket)).countP (fun x => q x.1)
      = if q k then ps.length else 0 := by
  induction ps with
  | nil => simp
  | cons p ps ih =>
    rw [List.map_cons, ← Multiset.cons_coe, Multiset.countP_cons, ih]
    by_cases h : q k <;> simp [h]

theorem Placed.waiting_of_le (hp : Placed cfg L) {T : Multiset (MacKey × MpduPacket)}
    (hT : T ≤ L.queued) (a : Int × EdcaAc) :
    T.countP (fun x => (x.1.sta, x.1.ac) = a) = T.countP fun x => x.2.acKey = a := by
  refine Multiset.countP_congr rfl fun x hx => ?_
  rw [(hp x (Multiset.mem_of_le hT hx)).2.1]

theorem Placed.assigned_of_le (hp : Placed cfg L) {T : Multiset (MacKey × MpduPacket)}
    (hT : T ≤ L.queued) (l : Nat) : T.countP (fun x => x.2.assignedLinkId = some l) = 0 := by
  refine Multiset.countP_eq_zero.2 fun x hx h => ?_
  rw [(hp x (Multiset.mem_of_le hT hx)).2.2] at h
  cases h

theorem le_of_split {queued rest sent lost : Multiset (MacKey × MpduPacket)}
    (h : queued = rest + sent + lost) : rest ≤ queued ∧ sent ≤ queued := by
  subst h
  exact ⟨(Multiset.le_add_right _ _).trans (Multiset.le_add_right _ _),
    (Multiset.le_add_left _ _).trans (Multiset.le_add_right _ _)⟩

/-- Storing a packet keeps the ledger sound. -/
theorem Sound.stored {k : MacKey} {p : MpduPacket} (h : Sound cfg L)
    (hb : Booked cfg L (.stored k p) L') : Sound cfg L' := by
  cases hb with
  | stored k p keys hk hp hl hroom hkeys =>
    refine ⟨?_, ?_, ?_, ?_⟩
    · intro x hx
      rcases Multiset.mem_cons.1 hx with rfl | hx
      · exact ⟨hk, hp, hl⟩
      · exact h.placed x hx
    · intro j
      show Multiset.countP _ ((k, p) ::ₘ L.queued) ≤ _
      rw [Multiset.countP_cons]
      by_cases hjk : k = j
      · subst hjk
        have hroom' := hroom
        unfold Ledger.inQueue at hroom'
        simp only [if_true]
        omega
      · simp only [hjk, if_false]
        exact h.fits j
    · intro a
      show Multiset.countP _ ((k, p) ::ₘ L.queued) ≤ _
      rw [Multiset.countP_cons]
      have ha := h.active a
      unfold Ledger.waiting at ha
      simp only [hp, eq_comm (a := p.acKey)]
      omega
    · intro l
      show Multiset.countP _ ((k, p) ::ₘ L.queued) ≤ _
      rw [Multiset.countP_cons]
      have hl := h.depths l
      unfold Ledger.onLink at hl
      simp only [eq_comm (a := k.link)]
      omega

/-- Dropping packets keeps it sound. -/
theorem Sound.dropped {k : MacKey} {ps : List MpduPacket} {fs : List (Int × Int)}
    (h : Sound cfg L) (hb : Booked cfg L (.dropped k ps fs) L') : Sound cfg L' := by
  cases hb with
  | dropped rest k ps fs hsplit hflows =>
    have hle : rest ≤ L.queued := by rw [hsplit]; exact Multiset.le_add_right _ _
    refine ⟨fun x hx => h.placed x (Multiset.mem_of_le hle hx),
      fun j => (Multiset.countP_le_of_le _ hle).trans (h.fits j), ?_, ?_⟩
    · intro a
      have ha := h.active a
      unfold Ledger.waiting at ha ⊢
      rw [hsplit, Multiset.countP_add, countP_map_mk k ps fun j => (j.sta, j.ac) = a] at ha
      simp only [eq_comm (b := (k.sta, k.ac))]
      show _ ≤ _ - _
      omega
    · intro l
      have hl := h.depths l
      unfold Ledger.onLink at hl ⊢
      rw [hsplit, Multiset.countP_add, countP_map_mk k ps fun j => j.link = l] at hl
      simp only [eq_comm (b := k.link)]
      show _ ≤ _ - _
      omega

/-- A build keeps it sound. -/
theorem Sound.built {sent lost : Multiset (MacKey × MpduPacket)} {failed : Nat} {handed : Bool}
    (h : Sound cfg L) (hb : Booked cfg L (.built sent lost failed handed) L') : Sound cfg L' := by
  cases hb with
  | built rest sent lost failed handed hsplit hlost =>
    obtain ⟨hle, hsent⟩ := le_of_split hsplit
    refine ⟨fun x hx => h.placed x (Multiset.mem_of_le hle hx),
      fun j => (Multiset.countP_le_of_le _ hle).trans (h.fits j), ?_, ?_⟩
    · intro a
      have ha := h.active a
      unfold Ledger.waiting at ha ⊢
      have hs := h.placed.waiting_of_le hsent a
      rw [hsplit, Multiset.countP_add, Multiset.countP_add] at ha
      show rest.countP _ ≤ L.active a - _
      omega
    · intro l
      have hl := (Multiset.countP_le_of_le (fun x : MacKey × MpduPacket => x.1.link = l) hle).trans
        (h.depths l)
      show _ ≤ _ - _
      -- queued packets have no assigned link, so a build takes nothing from the depths
      rw [h.placed.assigned_of_le hsent l]
      exact hl

/-- **Every entry keeps the ledger sound.** -/
theorem Booked.sound (hL : Sound cfg L) (h : Booked cfg L e L') : Sound cfg L' := by
  cases e with
  | ignored => cases h; exact ⟨hL.placed, hL.fits, hL.active, hL.depths⟩
  | refused => cases h; exact ⟨hL.placed, hL.fits, hL.active, hL.depths⟩
  | stored k p => exact hL.stored h
  | dropped k ps fs => exact hL.dropped h
  | built sent lost failed handed => exact hL.built h

end Sound

/-! ## Exact counters -/

/-- Traffic in which no two packets clash and every downlink destination has one
source. -/
structure Disciplined (cfg : MacConfig) (offered : List (Int × Int × Nat)) : Prop where
  noClash : offered.Pairwise fun a b => ¬ Clash cfg a b
  oneSource : ∀ a ∈ offered, ∀ b ∈ offered, a.2.1 = b.2.1 → a.1 = b.1

/-- The ledger holds only packets that were offered, and counts them exactly. -/
structure Exact (offered : List (Int × Int × Nat)) (L : Ledger) : Prop where
  known : L.queued.map (fun x => x.2.triple) ≤ ↑offered
  keys : ∀ f ∈ L.flowKeys, ∃ t ∈ offered, (t.1, t.2.1) = f
  active : ∀ a, L.active a = L.waiting a
  flows : ∀ f, L.flows f = L.ofFlow f

section Exact

variable {cfg : MacConfig} {L L' : Ledger} {e : Entry} {offered : List (Int × Int × Nat)}

theorem Clash.symm {a b : Int × Int × Nat} (h : Clash cfg a b) : Clash cfg b a := by
  obtain ⟨hid, hsend, hdest⟩ := h
  refine ⟨hid.symm, hsend.symm, fun hap => ?_⟩
  exact (hdest (hsend.trans hap)).imp_left Eq.symm

theorem Disciplined.clashFree (hd : Disciplined cfg offered)
    (hk : L.queued.map (fun x => x.2.triple) ≤ ↑offered) : ClashFree cfg L := by
  intro a b hab hclash
  have hle : (↑[a, b] : Multiset (Int × Int × Nat)) ≤ ↑offered := by
    exact le_trans hab hk
  obtain ⟨l, hperm, hsub⟩ := Multiset.coe_le.1 hle
  have hpair := (hd.noClash.sublist hsub)
  have hpair' := (hperm.pairwise_iff fun h h' => h h'.symm).1 hpair
  exact (List.pairwise_cons.1 hpair').1 b (by simp) hclash

theorem Exact.mono {more : List (Int × Int × Nat)} (h : Exact offered L) :
    Exact (offered ++ more) L where
  known := h.known.trans (by simp [← Multiset.coe_add])
  keys := fun f hf => by
    obtain ⟨t, ht, heq⟩ := h.keys f hf
    exact ⟨t, List.mem_append_left _ ht, heq⟩
  active := h.active
  flows := h.flows

theorem Exact.flow_eq (hd : Disciplined cfg offered) (h : Exact offered L) {f : Int × Int}
    (hf : f ∈ L.flowKeys) {x : MacKey × MpduPacket} (hx : x ∈ L.queued)
    (hdest : x.2.staDestId = f.2) : x.2.flow = f := by
  obtain ⟨t, ht, rfl⟩ := h.keys f hf
  have hmem : x.2.triple ∈ offered :=
    Multiset.mem_coe.1 (Multiset.mem_of_le h.known (Multiset.mem_map_of_mem _ hx))
  have hsrc := hd.oneSource x.2.triple hmem t ht hdest
  exact Prod.ext hsrc hdest

/-- Storing a packet keeps the counters exact. -/
theorem Exact.stored {k : MacKey} {p : MpduPacket} (h : Exact offered L)
    (hb : Booked cfg L (.stored k p) L') : Exact (offered ++ [p.triple]) L' := by
  cases hb with
  | stored k p keys hk hp hl hroom hkeys =>
    refine ⟨?_, ?_, ?_, ?_⟩
    · show ((k, p) ::ₘ L.queued).map _ ≤ _
      rw [Multiset.map_cons, ← Multiset.coe_add, Multiset.coe_singleton, add_comm,
        Multiset.singleton_add]
      exact Multiset.cons_le_cons _ h.known
    · intro f hf
      rcases hkeys f hf with rfl | hf
      · exact ⟨p.triple, by simp, rfl⟩
      · exact h.mono.keys f hf
    · intro a
      show L.active a + _ = Multiset.countP _ ((k, p) ::ₘ L.queued)
      rw [Multiset.countP_cons, h.active a, hp]
      simp only [eq_comm (a := a), Ledger.waiting]
    · intro f
      show L.flows f + _ = Multiset.countP _ ((k, p) ::ₘ L.queued)
      rw [Multiset.countP_cons, h.flows f]
      simp only [eq_comm (a := f), Ledger.ofFlow]

/-- Dropping packets keeps them exact. -/
theorem Exact.dropped {k : MacKey} {ps : List MpduPacket} {fs : List (Int × Int)}
    (hd : Disciplined cfg offered) (h : Exact offered L)
    (hb : Booked cfg L (.dropped k ps fs) L') : Exact offered L' := by
  cases hb with
  | dropped rest k ps fs hsplit hflows =>
    have hle : rest ≤ L.queued := by rw [hsplit]; exact Multiset.le_add_right _ _
    -- in either case the flow counters lose exactly the dropped packets' flows
    have hfs : fs = ps.map MpduPacket.flow := by
      rcases hflows with hfs | ⟨f, hf, hdest, hfs⟩
      · exact hfs
      · rw [hfs, eq_comm, List.eq_replicate_iff]
        refine ⟨List.length_map _, fun g hg => ?_⟩
        obtain ⟨p, hp, rfl⟩ := List.mem_map.1 hg
        have hx : (k, p) ∈ L.queued := by
          rw [hsplit]
          exact Multiset.mem_add.2 (Or.inr (Multiset.mem_coe.2 (List.mem_map_of_mem hp)))
        exact h.flow_eq hd hf hx (hdest p hp)
    refine ⟨(Multiset.map_le_map hle).trans h.known, h.keys, ?_, ?_⟩
    · intro a
      have ha := h.active a
      unfold Ledger.waiting at ha ⊢
      rw [hsplit, Multiset.countP_add, countP_map_mk k ps fun j => (j.sta, j.ac) = a] at ha
      show L.active a - _ = rest.countP _
      simp only [eq_comm (a := a)]
      omega
    · intro f
      have hf := h.flows f
      unfold Ledger.ofFlow at hf ⊢
      rw [hsplit, Multiset.countP_add] at hf
      have hcount : (↑(ps.map (Prod.mk k)) : Multiset (MacKey × MpduPacket)).countP
          (fun x => x.2.flow = f) = fs.countP (· = f) := by
        rw [hfs, Multiset.coe_countP, List.countP_map, List.countP_map]
        rfl
      show L.flows f - _ = rest.countP _
      omega

/-- A build keeps them exact: nothing vanishes. -/
theorem Exact.built {sent lost : Multiset (MacKey × MpduPacket)} {failed : Nat} {handed : Bool}
    (hd : Disciplined cfg offered) (hs : Sound cfg L) (h : Exact offered L)
    (hb : Booked cfg L (.built sent lost failed handed) L') : Exact offered L' := by
  cases hb with
  | built rest sent lost failed handed hsplit hlost =>
    obtain ⟨hle, hsent⟩ := le_of_split hsplit
    obtain rfl := hlost hs.placed (hd.clashFree h.known)
    rw [add_zero] at hsplit
    refine ⟨(Multiset.map_le_map hle).trans h.known, h.keys, ?_, ?_⟩
    · intro a
      have ha := h.active a
      have hcount := hs.placed.waiting_of_le hsent a
      unfold Ledger.waiting at ha ⊢
      rw [hsplit, Multiset.countP_add] at ha
      show L.active a - _ = rest.countP _
      omega
    · intro f
      have hf := h.flows f
      unfold Ledger.ofFlow at hf ⊢
      rw [hsplit, Multiset.countP_add] at hf
      show L.flows f - _ = rest.countP _
      omega

theorem Booked.exact (hd : Disciplined cfg offered) (hs : Sound cfg L) (h : Exact offered L)
    (hb : Booked cfg L e L') (he : ∀ k p, e ≠ .stored k p) : Exact offered L' := by
  cases e with
  | ignored => cases hb; exact ⟨h.known, h.keys, h.active, h.flows⟩
  | refused => cases hb; exact ⟨h.known, h.keys, h.active, h.flows⟩
  | stored k p => exact absurd rfl (he k p)
  | dropped k ps fs => exact h.dropped hd hb
  | built sent lost failed handed => exact h.built hd hs hb

end Exact

/-! ## Link depths and arrival counters -/

/-- Every link depth is the number of packets in the link's queues. -/
def DepthsExact (L : Ledger) : Prop := ∀ l, L.depths l = L.onLink l

/-- Everything that arrived is queued, handed over, or counted as blocked, but for
`n` offers to the port of the other direction. -/
def Balanced (n : Nat) (L : Ledger) : Prop :=
  L.arrived = Multiset.card L.queued + L.handed + L.blocked + n

/-- The entries that leave link depths exact: no build sends or loses a packet. -/
def Entry.KeepsDepths : Entry → Prop
  | .built sent lost _ _ => sent = 0 ∧ lost = 0
  | _ => True

/-- The entries that keep the balance: nothing is ignored, and a build has no
failed draw, loses nothing and hands over what it sends. -/
def Entry.KeepsBalance : Entry → Prop
  | .ignored => False
  | .built sent lost failed handed => lost = 0 ∧ failed = 0 ∧ (handed = false → sent = 0)
  | _ => True

section Books

variable {cfg : MacConfig} {L L' : Ledger} {e : Entry}

theorem Booked.depthsExact (h : DepthsExact L) (he : e.KeepsDepths) (hb : Booked cfg L e L') :
    DepthsExact L' := by
  intro l
  have hl := h l
  cases hb with
  | ignored => exact hl
  | refused => exact hl
  | stored k p keys hk hp hroom hkeys =>
    show L.depths l + _ = Multiset.countP _ ((k, p) ::ₘ L.queued)
    rw [Multiset.countP_cons, hl]
    simp only [eq_comm (a := l), Ledger.onLink]
  | dropped rest k ps fs hsplit hflows =>
    unfold Ledger.onLink at hl ⊢
    rw [hsplit, Multiset.countP_add, countP_map_mk k ps fun j => j.link = l] at hl
    show L.depths l - _ = rest.countP _
    simp only [eq_comm (a := l)]
    omega
  | built rest sent lost failed handed hsplit hlost =>
    obtain ⟨rfl, rfl⟩ := he
    unfold Ledger.onLink at hl ⊢
    rw [hsplit, add_zero, add_zero] at hl
    show L.depths l - Multiset.countP _ 0 = rest.countP _
    rw [Multiset.countP_zero, hl]
    rfl

/-- A link whose depth exceeds what it stores. -/
def Drifted (L : Ledger) (l : Nat) : Prop := L.onLink l < L.depths l

/-- **A depth that has drifted stays so**, whatever is booked. -/
theorem Booked.drifted {l : Nat} (hs : Sound cfg L) (h : Drifted L l) (hb : Booked cfg L e L') :
    Drifted L' l := by
  unfold Drifted at h ⊢
  cases hb with
  | ignored => exact h
  | refused => exact h
  | stored k p keys hk hp hl hroom hkeys =>
    show Multiset.countP _ ((k, p) ::ₘ L.queued) < L.depths l + _
    rw [Multiset.countP_cons]
    simp only [eq_comm (a := l)]
    exact Nat.add_lt_add_right h _
  | dropped rest k ps fs hsplit hflows =>
    unfold Ledger.onLink at h ⊢
    rw [hsplit, Multiset.countP_add, countP_map_mk k ps fun j => j.link = l] at h
    show rest.countP _ < L.depths l - _
    simp only [eq_comm (a := l)]
    omega
  | built rest sent lost failed handed hsplit hlost =>
    obtain ⟨hle, hsent⟩ := le_of_split hsplit
    show rest.countP _ < L.depths l - _
    rw [hs.placed.assigned_of_le hsent l]
    exact Nat.lt_of_le_of_lt (Multiset.countP_le_of_le _ hle) h

theorem Booked.taken_mem {sent lost : Multiset (MacKey × MpduPacket)} {failed : Nat}
    {handed : Bool} {x : MacKey × MpduPacket} (hx : x ∈ sent + lost)
    (hb : Booked cfg L (.built sent lost failed handed) L') : x ∈ L.queued := by
  cases hb with
  | built rest sent lost failed handed hsplit hlost =>
    rw [hsplit, add_assoc]
    exact Multiset.mem_add.2 (Or.inr hx)

/-- A build that takes anything from the queues of a link makes its depth drift. -/
theorem Booked.drifted_of_built {sent lost : Multiset (MacKey × MpduPacket)} {failed : Nat}
    {handed : Bool} (hs : Sound cfg L) {x : MacKey × MpduPacket} (hx : x ∈ sent + lost)
    (hb : Booked cfg L (.built sent lost failed handed) L') : Drifted L' x.1.link := by
  cases hb with
  | built rest sent lost failed handed hsplit hlost =>
    obtain ⟨-, hsent⟩ := le_of_split hsplit
    have htaken : 0 < (sent + lost).countP fun y => y.1.link = x.1.link :=
      Multiset.countP_pos.2 ⟨x, hx, rfl⟩
    have hdepth := hs.depths x.1.link
    unfold Ledger.onLink at hdepth
    rw [hsplit, add_assoc, Multiset.countP_add] at hdepth
    show rest.countP _ < L.depths x.1.link - _
    rw [hs.placed.assigned_of_le hsent]
    show rest.countP _ < L.depths x.1.link
    omega

theorem Booked.balanced {n : Nat} (h : Balanced n L) (he : e.KeepsBalance)
    (hb : Booked cfg L e L') : Balanced n L' := by
  unfold Balanced at h ⊢
  cases hb with
  | ignored => exact he.elim
  | refused =>
    show L.arrived + 1 = Multiset.card L.queued + L.handed + (L.blocked + 1) + n
    omega
  | stored k p keys hk hp hroom hkeys =>
    show L.arrived + 1 = Multiset.card ((k, p) ::ₘ L.queued) + L.handed + L.blocked + n
    rw [Multiset.card_cons]
    omega
  | dropped rest k ps fs hsplit hflows =>
    rw [hsplit, Multiset.card_add, Multiset.coe_card, List.length_map] at h
    show L.arrived = Multiset.card rest + L.handed + (L.blocked + ps.length) + n
    omega
  | built rest sent lost failed handed hsplit hlost =>
    obtain ⟨rfl, rfl, hhanded⟩ := he
    rw [hsplit, add_zero, Multiset.card_add] at h
    show L.arrived = Multiset.card rest + (L.handed + _) + (L.blocked + 0) + n
    cases handed with
    | true =>
      simp only [if_true]
      omega
    | false =>
      obtain rfl := hhanded rfl
      simp only [Multiset.card_zero, Bool.false_eq_true, if_false] at h ⊢
      omega

/-- An offer that is counted and ignored tips the balance by one. -/
theorem Booked.balanced_ignored {n : Nat} (h : Balanced n L) (hb : Booked cfg L .ignored L') :
    Balanced (n + 1) L' := by
  unfold Balanced at h ⊢
  cases hb with
  | ignored =>
    show L.arrived + 1 = _
    rw [h]
    rfl

end Books

end SiestaVR.Mac
