import SiestaVR.Mac.Ampdu
import Mathlib.Data.List.Infix

/-!
# What building an A-MPDU takes, sends and leaves

The specification side of `buildNewAmpdu`, in terms of the queues and draws it
starts from and none of its accumulators:

- `candidates`: the packets the aggregation goes through, queue after queue.
- `aggregated`: their longest prefix within the limits; the two nested loops
  with their labelled break compute exactly this (`aggregate_taken`).
- `survivors` and `casualties`: the split of a list by successive loss draws.

Stamps are ignored throughout (`unstamp`): the loops copy packets and stamp the
copies.
-/

namespace SiestaVR.Mac

open Lib

/-- A labelled packet without its stamps. -/
def unstamp (x : MacKey × MpduPacket) : MacKey × MpduPacket := (x.1, x.2.withoutStamps)

@[simp] theorem unstamp_fst (x : MacKey × MpduPacket) : (unstamp x).1 = x.1 := rfl
@[simp] theorem unstamp_snd (x : MacKey × MpduPacket) : (unstamp x).2 = x.2.withoutStamps := rfl

/-- Labelled packets as a multiset, without their stamps. -/
def unstamped (T : List (MacKey × MpduPacket)) : Multiset (MacKey × MpduPacket) :=
  ↑(T.map unstamp)

section Spec

variable (cfg : MacConfig) (m : QueueModule) (first : MpduPacket) (linkId : Nat)

/-- The packets the aggregation may take from a list of queues, in order. -/
def candidatesOf (deqs : List MacKey) : List (MacKey × MpduPacket) :=
  deqs.flatMap fun d => ((m.perFlowQueues d).filter (wanted first)).map (Prod.mk d)

/-- The candidate sequence of a build. -/
def candidates : List (MacKey × MpduPacket) :=
  candidatesOf m first (sourceDeques cfg m first linkId)

/-- `p` cannot be the last of `size` MPDUs of `bits` padded bits. -/
def overLimit (size bits : Nat) (p : MpduPacket) : Bool :=
  match airtimeWith cfg m first linkId p bits size with
  | none => true
  | some (airtime, _) => exceedsLimits cfg m first linkId airtime size

/-- The longest prefix that fits after `size` MPDUs of `bits` padded bits. -/
def longestFit : Nat → Nat → List (MacKey × MpduPacket) → List (MacKey × MpduPacket)
  | _, _, [] => []
  | size, bits, x :: xs =>
    let bits' := bits + paddedMpduBits x.2.lengthPacketBits
    if overLimit cfg m first linkId (size + 1) bits' x.2 then []
    else x :: longestFit (size + 1) bits' xs

/-- What an A-MPDU for `first` on `linkId` aggregates. -/
def aggregated : List (MacKey × MpduPacket) :=
  longestFit cfg m first linkId 0 0 (candidates cfg m first linkId)

end Spec

/-! ## The loops compute the longest fitting prefix -/

section Loops

variable {cfg : MacConfig} {m : QueueModule} {first : MpduPacket} {linkId now : Nat}

variable (cfg m first linkId) in
theorem longestFit_initial (size bits : Nat) (xs : List (MacKey × MpduPacket)) :
    longestFit cfg m first linkId size bits xs <+: xs := by
  induction xs generalizing size bits with
  | nil => exact List.nil_prefix
  | cons x xs ih =>
    simp only [longestFit]
    split
    · exact List.nil_prefix
    · exact List.prefix_cons_inj x |>.2 (ih _ _)

/-- How an accumulator `a'` continues `a` by packets `T` of the queue `deq`,
`n` of which are counted but not yet recorded. -/
structure Extends (deq : MacKey) (n : Nat) (a a' : Aggregation) (T : List MpduPacket) : Prop where
  taken : a'.takenSnapshot = a.takenSnapshot ++ T.map (Prod.mk deq)
  mpdus : a'.ampdu.mpduPackets = a.ampdu.mpduPackets ++ T
  sources : ∀ k, (fiber a'.dequeSources k).sum
    = (fiber a.dequeSources k).sum + if k = deq then n + T.length else 0
  macKey : a'.ampdu.macKey = a.ampdu.macKey

theorem sum_fiber_record (a : Aggregation) (deq k : MacKey) (n : Nat) :
    (fiber (a.record deq n).dequeSources k).sum
      = (fiber a.dequeSources k).sum + if k = deq then n else 0 := by
  unfold Aggregation.record
  split
  · by_cases h : k = deq
    · subst h
      simp [fiber_append, fiber_cons]
    · have h' : deq ≠ k := fun e => h e.symm
      simp [fiber_append, fiber_cons, h, h']
  · have hn : n = 0 := by omega
    simp [hn]

theorem record_eq (a : Aggregation) (deq : MacKey) (n : Nat) :
    (a.record deq n).takenSnapshot = a.takenSnapshot ∧ (a.record deq n).ampdu = a.ampdu
      ∧ (a.record deq n).limitReached = a.limitReached := by
  unfold Aggregation.record
  split <;> exact ⟨rfl, rfl, rfl⟩

theorem extends_record (a a₁ : Aggregation) (deq : MacKey) (n : Nat)
    (ht : a₁.takenSnapshot = a.takenSnapshot)
    (hm : a₁.ampdu.mpduPackets = a.ampdu.mpduPackets)
    (hkey : a₁.ampdu.macKey = a.ampdu.macKey)
    (hs : a₁.dequeSources = (a.record deq n).dequeSources) : Extends deq n a a₁ [] where
  taken := by simpa using ht
  mpdus := by simpa using hm
  sources := fun k => by rw [hs, sum_fiber_record]; simp
  macKey := hkey

/-- **Inner loop**: it extends the accumulator by the stamped copies of a list
`T₀` that is the part of the longest fit taken from this queue, whatever
candidates follow. -/
theorem aggDeque_spec {deq : MacKey} {ps : List MpduPacket} {n : Nat} {a a' : Aggregation}
    (ha : a.limitReached = false) (h : aggDeque cfg m first linkId now deq ps n a = some a') :
    ∃ T T₀ : List MpduPacket, Extends deq n a a' T ∧
      T.map MpduPacket.withoutStamps = T₀.map MpduPacket.withoutStamps ∧
      ∀ ys, longestFit cfg m first linkId a.ampdu.size a.ampdu.paddedBitsSum
          ((ps.filter (wanted first)).map (Prod.mk deq) ++ ys)
        = T₀.map (Prod.mk deq) ++ if a'.limitReached then []
            else longestFit cfg m first linkId a'.ampdu.size a'.ampdu.paddedBitsSum ys := by
  induction ps generalizing n a with
  | nil =>
    obtain rfl : a.record deq n = a' := by simpa [aggDeque] using h
    obtain ⟨ht, hm, hl⟩ := record_eq a deq n
    refine ⟨[], [], extends_record a _ deq n ht (by rw [hm]) (by rw [hm]) rfl, rfl, fun ys => ?_⟩
    simp [hl, ha, hm]
  | cons p ps ih =>
    rw [aggDeque] at h
    split at h
    · -- `p` goes to another station
      rename_i hw
      obtain ⟨T, T₀, hext, hT, hfit⟩ := ih ha h
      refine ⟨T, T₀, hext, hT, fun ys => ?_⟩
      rw [← hfit ys, List.filter_cons_of_neg (by simpa using hw)]
    · rename_i hw
      have hp : wanted first p = true := by simpa using hw
      simp only at h
      split at h
      · cases h
      · rename_i airtime mcs hair
        split at h
        · -- the limit: the loop stops in front of `p`
          rename_i hlim
          obtain rfl := Option.some.inj h
          obtain ⟨ht, hm, -⟩ := record_eq
            { a with resultz := airtime, ampdu := { a.ampdu with mcsAssigned := mcs } } deq n
          refine ⟨[], [], extends_record a _ deq n ht (by rw [hm]) (by rw [hm]) ?_, rfl,
            fun ys => ?_⟩
          · show (Aggregation.record _ deq n).dequeSources = _
            unfold Aggregation.record
            split <;> rfl
          · simp [List.filter_cons_of_pos hp, longestFit, overLimit, hair, hlim]
        · -- `p` is taken
          rename_i hlim
          obtain ⟨T, T₀, hext, hT, hfit⟩ := ih (by exact ha) h
          refine ⟨stamp first linkId now
            { a with resultz := airtime, ampdu := { a.ampdu with mcsAssigned := mcs } } p :: T,
            p :: T₀, ⟨?_, ?_, ?_, hext.macKey⟩, ?_, fun ys => ?_⟩
          · rw [hext.taken]
            simp [Aggregation.take]
          · rw [hext.mpdus]
            simp [Aggregation.take]
          · intro k
            rw [hext.sources k]
            have : n + 1 + T.length = n + (T.length + 1) := by omega
            simp [Aggregation.take, this]
          · rw [List.map_cons, List.map_cons, hT]
            rfl
          · have hstep := hfit ys
            simp only [Aggregation.take] at hstep
            simp [List.filter_cons_of_pos hp, longestFit, overLimit, hair, hlim, hstep]

/-- **Outer loop**: over any list of queues, the accumulator grows by the longest
fit of their candidates. -/
theorem aggDeques_spec {deqs : List MacKey} {a a' : Aggregation} (ha : a.limitReached = false)
    (h : aggDeques cfg m first linkId now deqs a = some a') :
    ∃ T : List (MacKey × MpduPacket),
      a'.takenSnapshot = a.takenSnapshot ++ T ∧
      a'.ampdu.mpduPackets = a.ampdu.mpduPackets ++ T.map Prod.snd ∧
      (∀ k, (fiber a'.dequeSources k).sum
        = (fiber a.dequeSources k).sum + (fiber T k).length) ∧
      T.map unstamp = (longestFit cfg m first linkId a.ampdu.size a.ampdu.paddedBitsSum
        (candidatesOf m first deqs)).map unstamp ∧
      a'.ampdu.macKey = a.ampdu.macKey := by
  induction deqs generalizing a with
  | nil =>
    obtain rfl : a = a' := by simpa [aggDeques] using h
    exact ⟨[], by simp, by simp, by simp, rfl, rfl⟩
  | cons deq deqs ih =>
    obtain ⟨a₁, h₁, h₂⟩ := Option.bind_eq_some_iff.1 h
    obtain ⟨T, T₀, hext, hT, hfit⟩ := aggDeque_spec ha h₁
    have hcount : ∀ k, (if k = deq then T.length else 0)
        = (fiber (T.map (Prod.mk deq)) k).length := by
      intro k
      rw [fiber_map_mk]
      by_cases hk : k = deq
      · simp [hk]
      · have hk' : deq ≠ k := fun e => hk e.symm
        simp [hk, hk']
    have hTu : (T.map (Prod.mk deq)).map unstamp = (T₀.map (Prod.mk deq)).map unstamp := by
      have : ∀ l : List MpduPacket, (l.map (Prod.mk deq)).map unstamp
          = (l.map MpduPacket.withoutStamps).map (Prod.mk deq) := by simp [unstamp]
      rw [this, this, hT]
    have hcand := hfit (candidatesOf m first deqs)
    have hcons : candidatesOf m first (deq :: deqs)
        = ((m.perFlowQueues deq).filter (wanted first)).map (Prod.mk deq)
          ++ candidatesOf m first deqs := by simp [candidatesOf]
    -- `break 'agg` leaves both loops
    by_cases hlim : a₁.limitReached = true
    · rw [if_pos hlim] at h₂
      obtain rfl := Option.some.inj h₂
      refine ⟨T.map (Prod.mk deq), hext.taken, ?_, ?_, ?_, hext.macKey⟩
      · rw [hext.mpdus]
        simp
      · intro k
        rw [hext.sources k, ← hcount k]
        simp
      · rw [hcons, hcand, if_pos hlim, List.append_nil, hTu]
    · rw [if_neg hlim] at h₂
      obtain ⟨T', ht, hm, hs, hu, hkey⟩ := ih (by simpa using hlim) h₂
      refine ⟨T.map (Prod.mk deq) ++ T', ?_, ?_, ?_, ?_, hkey.trans hext.macKey⟩
      · rw [ht, hext.taken, List.append_assoc]
      · rw [hm, hext.mpdus]
        simp
      · intro k
        rw [hs k, hext.sources k, fiber_append, List.length_append, ← hcount k]
        simp [Nat.add_assoc]
      · rw [hcons, hcand, if_neg hlim, List.map_append, List.map_append, hu, hTu]

/-- The aggregation takes stamped copies of `aggregated`, and records for each
queue how many it took from it. -/
theorem aggregate_spec {a : Aggregation} (h : aggregate cfg m first linkId now = some a) :
    a.takenSnapshot.map unstamp = (aggregated cfg m first linkId).map unstamp ∧
      a.ampdu.mpduPackets = a.takenSnapshot.map Prod.snd ∧
      ∀ k, (fiber a.dequeSources k).sum = (fiber a.takenSnapshot k).length := by
  obtain ⟨T, ht, hm, hs, hu, -⟩ := aggDeques_spec rfl h
  rw [List.nil_append] at ht
  refine ⟨by rw [ht]; exact hu, ?_, fun k => ?_⟩
  · rw [hm, ht]
    rfl
  · rw [hs k, ht]
    simp

end Loops

/-! ## What is taken from one queue -/

section Fibers

variable {cfg : MacConfig} {m : QueueModule} {first : MpduPacket} {linkId : Nat}

theorem sourceDeques_nodup : (sourceDeques cfg m first linkId).Nodup := by
  unfold sourceDeques
  refine List.nodup_cons.2 ⟨?_, ?_⟩
  · intro hmem
    split at hmem
    · obtain ⟨l, hl, heq⟩ := List.mem_map.1 (List.mem_filter.1 hmem).1
      have hne := (cfg.mem_otherLinks.1 hl).2
      have hlink : (ampduKey first linkId).link = linkId := by
        unfold ampduKey
        split <;> rfl
      exact hne (by rw [← hlink, ← heq])
    · simp at hmem
  · split
    · exact ((cfg.otherLinks_nodup linkId).map fun _ _ h => (MacKey.mk.inj h).2.2).filter _
    · exact List.nodup_nil

theorem mem_sourceDeques_hasKey (hk : cfg.hasKey (ampduKey first linkId) = true) {d : MacKey}
    (hd : d ∈ sourceDeques cfg m first linkId) : cfg.hasKey d = true := by
  unfold sourceDeques at hd
  rcases List.mem_cons.1 hd with rfl | hd
  · exact hk
  · split at hd
    · have := (List.mem_filter.1 hd).2
      simp only [Bool.and_eq_true] at this
      exact this.1
    · simp at hd

theorem fiber_candidatesOf {deqs : List MacKey} (hn : deqs.Nodup) (k : MacKey) :
    fiber (candidatesOf m first deqs) k
      = if k ∈ deqs then (m.perFlowQueues k).filter (wanted first) else [] := by
  induction deqs with
  | nil => rfl
  | cons d ds ih =>
    obtain ⟨hd, hds⟩ := List.nodup_cons.1 hn
    have hcons : candidatesOf m first (d :: ds)
        = ((m.perFlowQueues d).filter (wanted first)).map (Prod.mk d)
          ++ candidatesOf m first ds := by simp [candidatesOf]
    rw [hcons, fiber_append, fiber_map_mk, ih hds]
    by_cases hk : d = k
    · subst hk
      simp [hd]
    · have hk' : k ≠ d := fun e => hk e.symm
      simp [hk, hk']

theorem fiber_initial {κ α : Type} [DecidableEq κ] {T U : List (κ × α)} (h : T <+: U) (k : κ) :
    fiber T k <+: fiber U k := by
  obtain ⟨V, rfl⟩ := h
  exact ⟨fiber V k, (fiber_append T V k).symm⟩

variable (cfg m first linkId) in
/-- What is taken from a queue is a prefix of the packets wanted from it. -/
theorem fiber_aggregated_initial (k : MacKey) :
    fiber (aggregated cfg m first linkId) k <+: (m.perFlowQueues k).filter (wanted first) := by
  have h := fiber_initial (longestFit_initial cfg m first linkId 0 0
    (candidates cfg m first linkId)) k
  refine h.trans ?_
  rw [candidates, fiber_candidatesOf sourceDeques_nodup]
  split
  · exact List.prefix_rfl
  · exact List.nil_prefix

variable (cfg m linkId) in
theorem fiber_aggregated_uplink (hul : first.isUl = true) (k : MacKey) :
    fiber (aggregated cfg m first linkId) k <+: m.perFlowQueues k := by
  have h := fiber_aggregated_initial cfg m first linkId k
  rwa [List.filter_eq_self.2 fun p _ => by simp [wanted, hul]] at h

theorem aggregated_hasKey (hk : cfg.hasKey (ampduKey first linkId) = true)
    {x : MacKey × MpduPacket} (hx : x ∈ aggregated cfg m first linkId) :
    cfg.hasKey x.1 = true := by
  have hc := (longestFit_initial cfg m first linkId 0 0 (candidates cfg m first linkId)).subset hx
  obtain ⟨d, hd, hxd⟩ := List.mem_flatMap.1 hc
  obtain ⟨p, -, rfl⟩ := List.mem_map.1 hxd
  exact mem_sourceDeques_hasKey hk hd

theorem aggregated_sta {x : MacKey × MpduPacket} (hx : x ∈ aggregated cfg m first linkId) :
    x.1.sta = (ampduKey first linkId).sta := by
  have hc := (longestFit_initial cfg m first linkId 0 0 (candidates cfg m first linkId)).subset hx
  obtain ⟨d, hd, hxd⟩ := List.mem_flatMap.1 hc
  obtain ⟨p, -, rfl⟩ := List.mem_map.1 hxd
  unfold sourceDeques at hd
  rcases List.mem_cons.1 hd with rfl | hd
  · rfl
  · split at hd
    · obtain ⟨l, -, rfl⟩ := List.mem_map.1 (List.mem_filter.1 hd).1
      rfl
    · cases hd

theorem mem_queue_of_aggregated {x : MacKey × MpduPacket}
    (hx : x ∈ aggregated cfg m first linkId) :
    x.2 ∈ m.perFlowQueues x.1 ∧ wanted first x.2 = true := by
  have h := (fiber_aggregated_initial cfg m first linkId x.1).subset (mem_fiber.2 hx)
  exact List.mem_filter.1 h

end Fibers

/-! ## Loss draws -/

section Draws

variable {α β : Type}

/-- What survives successive loss draws, one for each element. -/
def survivors (pl : ℚ) : DrawStream ℚ → List α → List α
  | _, [] => []
  | r, a :: as =>
    if r.peek ≤ pl then survivors pl (r.skip 1) as else a :: survivors pl (r.skip 1) as

/-- What does not. -/
def casualties (pl : ℚ) : DrawStream ℚ → List α → List α
  | _, [] => []
  | r, a :: as =>
    if r.peek ≤ pl then a :: casualties pl (r.skip 1) as else casualties pl (r.skip 1) as

theorem survivors_map (pl : ℚ) (r : DrawStream ℚ) (f : α → β) (as : List α) :
    survivors pl r (as.map f) = (survivors pl r as).map f := by
  induction as generalizing r with
  | nil => rfl
  | cons a as ih =>
    simp only [List.map_cons, survivors, ih]
    split <;> rfl

theorem casualties_map (pl : ℚ) (r : DrawStream ℚ) (f : α → β) (as : List α) :
    casualties pl r (as.map f) = (casualties pl r as).map f := by
  induction as generalizing r with
  | nil => rfl
  | cons a as ih =>
    simp only [List.map_cons, casualties, ih]
    split <;> rfl

theorem survivors_add_casualties (pl : ℚ) (r : DrawStream ℚ) (as : List α) :
    (survivors pl r as : Multiset α) + (casualties pl r as : Multiset α) = as := by
  induction as generalizing r with
  | nil => rfl
  | cons a as ih =>
    have h := ih (r.skip 1)
    simp only [survivors, casualties]
    split
    · rw [← Multiset.cons_coe, ← Multiset.cons_coe, Multiset.add_cons, h]
    · rw [← Multiset.cons_coe, ← Multiset.cons_coe, Multiset.cons_add, h]

end Draws

end SiestaVR.Mac
