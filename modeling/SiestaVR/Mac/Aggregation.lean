import SiestaVR.Lib.Prefixes
import SiestaVR.Mac.ServiceTime

/-!
# The aggregation as a longest prefix (lib/models_mm1k.rs:2941–2950, 3840–3957)

The two nested loops of `build_new_ampdu` go through the winning queue and then the
other links' queues, pass over packets to other stations, keep running totals of
size and padded bits, and are left at the first packet over a limit. Stated without
them: the packets taken are the longest prefix of the candidate sequence whose own
non-empty prefixes are all within the limits (`LongestFit` at `WithinLimits`), for
any airtime function.

The build has a result whenever the first packet's station ids are valid, its queue
exists, and the position of a downlink destination is known as soon as a packet for
it is met.
-/

namespace SiestaVR.Mac

open Lib

section Spec

variable (cfg : MacConfig) (m : QueueModule) (first : MpduPacket) (linkId : Nat)

/-- The winning queue, then those of the same station and category on the other links, in
ascending order of the links. -/
def candidateQueues : List MacKey :=
  ampduKey first linkId ::
    (cfg.otherLinks linkId).map fun l => { ampduKey first linkId with link := l }

/-- The packets of these queues in order, for downlink those to the first packet's
destination. -/
def candidateSequence : List (MacKey × MpduPacket) :=
  candidatesOf m first (candidateQueues cfg first linkId)

/-- An A-MPDU of these packets is below the aggregation time limit, below the TXOP limit
and not above the packet limit. -/
def WithinLimits (T : List (MacKey × MpduPacket)) : Prop :=
  T.length ≤ cfg.packsPerAmpdu ∧
    ∃ airtime, airtimeOf cfg m first linkId T = some airtime ∧ airtime < defaultTmaxAgg ∧
      ∀ cap ∈ m.txopCap (ampduKey first linkId), airtime < cap

end Spec

variable {cfg : MacConfig} {m : QueueModule} {first : MpduPacket} {linkId now : Nat}

/-! ## The candidates -/

variable (m first) in
theorem candidatesOf_filter {ks : List MacKey} (hkeys : ∀ k ∈ ks, cfg.hasKey k = true) :
    candidatesOf m first (ks.filter fun k => cfg.hasKey k && !(m.perFlowQueues k).isEmpty) =
      candidatesOf m first ks := by
  induction ks with
  | nil => rfl
  | cons k ks ih =>
    have hk := hkeys k (by simp)
    have hrest := ih fun k' hk' => hkeys k' (by simp [hk'])
    unfold candidatesOf at hrest ⊢
    rw [List.filter_cons, hk, Bool.true_and, List.flatMap_cons, ← hrest]
    cases hq : m.perFlowQueues k with
    | nil => simp
    | cons p ps => simp [hq]

/-- Skipping empty queues changes nothing, and no link is without a queue. -/
theorem candidates_eq_sequence (hkey : cfg.hasKey (ampduKey first linkId) = true) :
    candidates cfg m first linkId = candidateSequence cfg m first linkId := by
  have hother : ∀ k ∈ (cfg.otherLinks linkId).map fun l =>
      ({ ampduKey first linkId with link := l } : MacKey), cfg.hasKey k = true := by
    intro k hk
    obtain ⟨l, hl, rfl⟩ := List.mem_map.1 hk
    rw [← cfg.mem_macKeys] at hkey ⊢
    exact cfg.mem_macKeys_of_link hkey (cfg.mem_otherLinks.1 hl).1
  have hskip := candidatesOf_filter m first hother
  unfold candidates candidateSequence candidateQueues sourceDeques
  rw [if_pos (by decide : strPlusModeMlo = true)]
  unfold candidatesOf at hskip ⊢
  rw [List.flatMap_cons, List.flatMap_cons, hskip]

/-! ## The longest prefix -/

theorem overLimit_concat (T : List (MacKey × MpduPacket)) (x : MacKey × MpduPacket) :
    overLimit cfg m first linkId (T.length + 1) (paddedSum T + paddedMpduBits x.2.lengthPacketBits)
      x.2 = false ↔ WithinLimits cfg m first linkId (T ++ [x]) := by
  have hsum : paddedSum (T ++ [x]) = paddedSum T + paddedMpduBits x.2.lengthPacketBits := by
    simp [paddedSum]
  unfold overLimit WithinLimits airtimeOf
  rw [List.getLast?_concat, Option.bind_some, hsum, List.length_append, List.length_singleton]
  cases airtimeWith cfg m first linkId x.2
      (paddedSum T + paddedMpduBits x.2.lengthPacketBits) (T.length + 1) with
  | none => simp
  | some r =>
    obtain ⟨airtime, mcs⟩ := r
    cases hcap : m.txopCap (ampduKey first linkId) <;>
      simp [exceedsLimits, hcap, and_comm, and_assoc]

variable (cfg m first linkId) in
/-- The greedy loop behind the packets `T` finds the longest prefix that fits behind them. -/
theorem longestFit_longest (T xs : List (MacKey × MpduPacket)) :
    LongestFit (fun us => WithinLimits cfg m first linkId (T ++ us)) xs
      (longestFit cfg m first linkId T.length (paddedSum T) xs) := by
  induction xs generalizing T with
  | nil => exact .nil
  | cons x xs ih =>
    simp only [longestFit]
    split
    · rename_i hover
      refine .stop fun hfits => ?_
      rw [(overLimit_concat T x).2 hfits] at hover
      cases hover
    · rename_i hover
      refine .cons ((overLimit_concat T x).1 (by simpa using hover)) ?_
      have hrest := ih (T ++ [x])
      simp only [List.append_assoc, List.singleton_append, List.length_append,
        List.length_singleton] at hrest
      have hsum : paddedSum (T ++ [x]) = paddedSum T + paddedMpduBits x.2.lengthPacketBits := by
        simp [paddedSum]
      rwa [hsum] at hrest

/-! ## When there is no result -/

variable (cfg m linkId) in
/-- The airtime of a wanted packet is missing only for want of the destination's position. -/
theorem airtimeWith_eq_none_iff {p : MpduPacket} (hw : wanted first p = true) (bits size : Nat) :
    airtimeWith cfg m first linkId p bits size = none ↔
      first.isUl = false ∧ m.staCoordsMap first.staDestId = none := by
  unfold airtimeWith
  cases hul : first.isUl with
  | true => simp
  | false =>
    have hdest : p.staDestId = first.staDestId := by simpa [wanted, hul] using hw
    simp [hdest]

variable (cfg linkId now) in
theorem aggDeque_isSome
    (hknown : ¬ (first.isUl = false ∧ m.staCoordsMap first.staDestId = none))
    (deq : MacKey) (ps : List MpduPacket) (n : Nat) (a : Aggregation) :
    ∃ a', aggDeque cfg m first linkId now deq ps n a = some a' := by
  induction ps generalizing n a with
  | nil => exact ⟨_, rfl⟩
  | cons p ps ih =>
    rw [aggDeque]
    split
    · exact ih n a
    · rename_i hw
      simp only
      split
      · rename_i hnone
        exact absurd ((airtimeWith_eq_none_iff cfg m linkId (by simpa using hw) _ _).1 hnone) hknown
      · split
        · exact ⟨_, rfl⟩
        · exact ih _ _

variable (cfg linkId now) in
theorem aggDeques_isSome
    (hknown : ¬ (first.isUl = false ∧ m.staCoordsMap first.staDestId = none))
    (deqs : List MacKey) (a : Aggregation) :
    ∃ a', aggDeques cfg m first linkId now deqs a = some a' := by
  induction deqs generalizing a with
  | nil => exact ⟨a, rfl⟩
  | cons deq deqs ih =>
    obtain ⟨a₁, h₁⟩ := aggDeque_isSome cfg linkId now hknown deq (m.perFlowQueues deq) 0 a
    rw [aggDeques, h₁, Option.bind_some]
    split
    · exact ⟨a₁, rfl⟩
    · exact ih a₁

/-- Without the position, the loop ends at the first packet it wants. -/
theorem aggDeque_unknown (hdl : first.isUl = false) (hnone : m.staCoordsMap first.staDestId = none)
    (deq : MacKey) (ps : List MpduPacket) (n : Nat) (a : Aggregation) :
    aggDeque cfg m first linkId now deq ps n a =
      if ps.filter (wanted first) = [] then some (a.record deq n) else none := by
  induction ps with
  | nil => rfl
  | cons p ps ih =>
    rw [aggDeque]
    by_cases hw : wanted first p = true
    · have hair := fun bits size =>
        (airtimeWith_eq_none_iff cfg m linkId hw bits size).2 ⟨hdl, hnone⟩
      simp [hw, hair]
    · simp [hw, ih]

theorem aggDeques_unknown (hdl : first.isUl = false)
    (hnone : m.staCoordsMap first.staDestId = none) {deqs : List MacKey} {a : Aggregation}
    (ha : a.limitReached = false) :
    aggDeques cfg m first linkId now deqs a = none ↔ candidatesOf m first deqs ≠ [] := by
  induction deqs generalizing a with
  | nil => simp [aggDeques, candidatesOf]
  | cons deq deqs ih =>
    rw [aggDeques, aggDeque_unknown hdl hnone, candidatesOf, List.flatMap_cons, ← candidatesOf]
    by_cases hempty : (m.perFlowQueues deq).filter (wanted first) = []
    · have hrec : (a.record deq 0).limitReached = false := by rw [(record_eq a deq 0).2.2, ha]
      simp [hempty, hrec, ih hrec]
    · simp [hempty]

theorem aggregate_eq_none_iff :
    aggregate cfg m first linkId now = none ↔
      first.isUl = false ∧ m.staCoordsMap first.staDestId = none ∧
        candidates cfg m first linkId ≠ [] := by
  by_cases hknown : first.isUl = false ∧ m.staCoordsMap first.staDestId = none
  · rw [aggregate, aggDeques_unknown hknown.1 hknown.2 rfl, candidates]
    simp [hknown]
  · obtain ⟨a, ha⟩ := aggDeques_isSome cfg linkId now hknown (sourceDeques cfg m first linkId)
      { ampdu := emptyAmpdu first linkId
        flowBacklog := (m.perFlowQueues (ampduKey first linkId)).length }
    rw [aggregate, ha]
    simp only [reduceCtorEq, false_iff]
    exact fun h => hknown ⟨h.1, h.2.1⟩

/-! ## What a build takes -/

theorem aggregate_size {a : Aggregation} (h : aggregate cfg m first linkId now = some a) :
    a.ampdu.size = a.takenSnapshot.length := by
  rcases aggDeques_times (T := []) ⟨rfl, rfl, rfl, (absurd rfl ·), fun _ => rfl⟩ rfl rfl h with
    ⟨-, hacc, -⟩ | ⟨-, T', x, C', -, hacc, -⟩
  · rw [hacc.size, hacc.taken]
  · rw [hacc.size, hacc.taken]

theorem build_aggregate {ampdu : AmpduPacket} {airtime : Nat} {m' : QueueModule}
    (h : buildNewAmpdu cfg m first linkId now = some (ampdu, airtime, m')) :
    ∃ a, aggregate cfg m first linkId now = some a ∧ ampdu.size = a.takenSnapshot.length := by
  obtain ⟨a, ha, hsize, -⟩ := (buildEffect_of_build h).aggregation
  exact ⟨a, ha, hsize.trans (aggregate_size ha)⟩

theorem build_eq_none_iff :
    buildNewAmpdu cfg m first linkId now = none ↔
      (first.staSrcId ≤ 0 ∨ first.staDestId ≤ 0) ∨ cfg.hasKey (ampduKey first linkId) = false ∨
        aggregate cfg m first linkId now = none := by
  unfold buildNewAmpdu
  split
  · rename_i hids
    simp [hids]
  · rename_i hids
    cases hkey : cfg.hasKey (ampduKey first linkId) <;> simp [hids]

/-- **The packets taken for an A-MPDU** are the longest prefix of the candidate sequence
whose non-empty prefixes are all within the limits, for every airtime function, queue
state, first packet and link. The A-MPDU has the size of that prefix and carries those
of its packets that survive their loss draws. -/
theorem build_takes_longest_fit (cfg : MacConfig) (m : QueueModule) (first : MpduPacket)
    (linkId now : Nat) :
    (buildNewAmpdu cfg m first linkId now = none ↔
      (first.staSrcId ≤ 0 ∨ first.staDestId ≤ 0) ∨ cfg.hasKey (ampduKey first linkId) = false ∨
        (first.isUl = false ∧ m.staCoordsMap first.staDestId = none ∧
          candidateSequence cfg m first linkId ≠ [])) ∧
    ∀ ampdu airtime m', buildNewAmpdu cfg m first linkId now = some (ampdu, airtime, m') →
      ∃ a taken, aggregate cfg m first linkId now = some a ∧
        LongestFit (WithinLimits cfg m first linkId) (candidateSequence cfg m first linkId) taken ∧
        a.takenSnapshot.map unstamp = taken.map unstamp ∧
        ampdu.size = taken.length ∧
        ampdu.mpduPackets.map MpduPacket.withoutStamps =
          (survivors cfg.plProbability m.rng taken).map fun x => x.2.withoutStamps := by
  refine ⟨?_, fun ampdu airtime m' h => ?_⟩
  · rw [build_eq_none_iff, aggregate_eq_none_iff]
    refine or_congr_right ?_
    cases hkey : cfg.hasKey (ampduKey first linkId) with
    | false => simp
    | true => rw [candidates_eq_sequence hkey]
  · have heffect := buildEffect_of_build h
    obtain ⟨a, ha, hsize⟩ := build_aggregate h
    have hlongest := longestFit_longest cfg m first linkId [] (candidates cfg m first linkId)
    rw [candidates_eq_sequence heffect.hasKey] at hlongest
    have htaken := (aggregate_spec ha).1
    refine ⟨a, aggregated cfg m first linkId, ha, ?_, htaken, ?_, heffect.packets⟩
    · rw [aggregated, candidates_eq_sequence heffect.hasKey]
      exact hlongest
    · rw [hsize]
      simpa using congrArg List.length htaken

end SiestaVR.Mac
