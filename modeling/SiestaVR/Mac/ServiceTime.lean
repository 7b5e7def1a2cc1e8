import SiestaVR.Mac.Occupancy

/-!
# The service time of a contention win

Two variables carry the airtime through `build_new_ampdu`: `last_service_duration` is set
when a packet is taken and ends up as the airtime of what was aggregated, while `resultz` is
set before the limits are checked and so ends up as the airtime with the packet that was
refused, if the aggregation ended that way (`aggregate_times`). The medium is occupied for
the first; the second is what the packets and the statistics are told. And the medium is not
occupied at all if no MPDU survives its loss draw, since the A-MPDU is empty by then.

`service_time_iff` says exactly when a win is accounted for by one airtime all the same.
-/

namespace SiestaVR.Mac

open Lib

section Spec

variable (cfg : MacConfig) (m : QueueModule) (first : MpduPacket) (linkId : Nat)

/-- The padded bits of the packets of an A-MPDU. -/
def paddedSum (T : List (MacKey × MpduPacket)) : Nat :=
  (T.map fun x => paddedMpduBits x.2.lengthPacketBits).sum

/-- The airtime of an A-MPDU of these packets, by the position of the last. -/
def airtimeOf (T : List (MacKey × MpduPacket)) : Option Nat :=
  T.getLast?.bind fun x => (airtimeWith cfg m first linkId x.2 (paddedSum T) T.length).map Prod.fst

/-- The airtime of what a build aggregates. -/
def aggregatedAirtime : Option Nat := airtimeOf cfg m first linkId (aggregated cfg m first linkId)

/-- The candidate the aggregation ends at, if it does not take all of them. -/
def refused : Option (MacKey × MpduPacket) :=
  (candidates cfg m first linkId)[(aggregated cfg m first linkId).length]?

/-- The airtime with that candidate as well. -/
def refusedAirtime : Option Nat :=
  (refused cfg m first linkId).bind fun x =>
    airtimeOf cfg m first linkId (aggregated cfg m first linkId ++ [x])

end Spec

/-! ## The two airtimes of the aggregation -/

section Loops

variable {cfg : MacConfig} {m : QueueModule} {first : MpduPacket} {linkId now : Nat}

/-- An accumulator that has taken copies of the candidates `T`. -/
structure Accounts (cfg : MacConfig) (m : QueueModule) (first : MpduPacket) (linkId : Nat)
    (a : Aggregation) (T : List (MacKey × MpduPacket)) : Prop where
  taken : a.takenSnapshot.length = T.length
  size : a.ampdu.size = T.length
  bits : a.ampdu.paddedBitsSum = paddedSum T
  last : T ≠ [] → airtimeOf cfg m first linkId T = some a.lastServiceDuration
  none_yet : T = [] → a.lastServiceDuration = 0

/-- After the candidates `C` behind `T`: all of them were taken, or one of them was refused, and
then `resultz` is the airtime with that one. -/
def Ended (cfg : MacConfig) (m : QueueModule) (first : MpduPacket) (linkId : Nat)
    (a : Aggregation) (T C : List (MacKey × MpduPacket)) : Prop :=
  (a.limitReached = false ∧ Accounts cfg m first linkId a (T ++ C) ∧
      a.resultz = a.lastServiceDuration) ∨
    (a.limitReached = true ∧ ∃ T' x C', C = T' ++ x :: C' ∧
      Accounts cfg m first linkId a (T ++ T') ∧
      airtimeOf cfg m first linkId (T ++ T' ++ [x]) = some a.resultz)

variable {a : Aggregation} {T : List (MacKey × MpduPacket)} {airtime : Nat}

theorem Accounts.record (h : Accounts cfg m first linkId a T) (deq : MacKey) (n : Nat) :
    Accounts cfg m first linkId (a.record deq n) T := by
  unfold Aggregation.record
  split
  · exact ⟨h.taken, h.size, h.bits, h.last, h.none_yet⟩
  · exact h

theorem airtimeOf_concat (deq : MacKey) {p : MpduPacket}
    {mcs : Nat} (h : airtimeWith cfg m first linkId p
      (paddedSum T + paddedMpduBits p.lengthPacketBits) (T.length + 1) = some (airtime, mcs)) :
    airtimeOf cfg m first linkId (T ++ [(deq, p)]) = some airtime := by
  have hsum : paddedSum (T ++ [(deq, p)]) = paddedSum T + paddedMpduBits p.lengthPacketBits := by
    simp [paddedSum]
  rw [airtimeOf, List.getLast?_concat, Option.bind_some, hsum, List.length_append,
    List.length_singleton, h]
  rfl

theorem Accounts.take {deq : MacKey}
    {p : MpduPacket} {mcs : Nat} (h : Accounts cfg m first linkId a T)
    (hair : airtimeOf cfg m first linkId (T ++ [(deq, p)]) = some airtime) :
    Accounts cfg m first linkId
      (Aggregation.take first linkId now
        { a with resultz := airtime, ampdu := { a.ampdu with mcsAssigned := mcs } } deq p
        (a.ampdu.paddedBitsSum + paddedMpduBits p.lengthPacketBits) airtime)
      (T ++ [(deq, p)]) := by
  refine ⟨?_, ?_, ?_, fun _ => hair, fun hnil => absurd hnil (by simp)⟩
  · simp [Aggregation.take, h.taken]
  · simp [Aggregation.take, h.size]
  · simp [Aggregation.take, h.bits, paddedSum]

theorem Accounts.refuse {deq : MacKey} {mcs : Nat} (h : Accounts cfg m first linkId a T) (n : Nat) :
    Accounts cfg m first linkId
      { Aggregation.record { a with
          resultz := airtime, ampdu := { a.ampdu with mcsAssigned := mcs } } deq n with
        limitReached := true } T := by
  have hsame : Accounts cfg m first linkId
      { a with resultz := airtime, ampdu := { a.ampdu with mcsAssigned := mcs } } T :=
    ⟨h.taken, h.size, h.bits, h.last, h.none_yet⟩
  have hrec := hsame.record deq n
  exact ⟨hrec.taken, hrec.size, hrec.bits, hrec.last, hrec.none_yet⟩

/-- What holds behind the first candidate, which was taken, holds behind all. -/
theorem Ended.cons {C : List (MacKey × MpduPacket)} {x : MacKey × MpduPacket}
    (h : Ended cfg m first linkId a (T ++ [x]) C) : Ended cfg m first linkId a T (x :: C) := by
  rcases h with ⟨hlim, hacc, hres⟩ | ⟨hlim, T', y, C', rfl, hacc, hres⟩
  · refine .inl ⟨hlim, ?_, hres⟩
    rwa [List.append_assoc] at hacc
  · refine .inr ⟨hlim, x :: T', y, C', rfl, ?_, ?_⟩
    · rwa [List.append_assoc] at hacc
    · rwa [List.append_assoc T] at hres

theorem aggDeque_times {deq : MacKey} {ps : List MpduPacket} {n : Nat} {a' : Aggregation}
    (ha : Accounts cfg m first linkId a T)
    (hlim : a.limitReached = false) (hres : a.resultz = a.lastServiceDuration)
    (h : aggDeque cfg m first linkId now deq ps n a = some a') :
    Ended cfg m first linkId a' T ((ps.filter (wanted first)).map (Prod.mk deq)) := by
  induction ps generalizing n a T with
  | nil =>
    obtain rfl : a.record deq n = a' := by simpa [aggDeque] using h
    refine .inl ⟨?_, by simpa using ha.record deq n, ?_⟩
    · rw [(record_eq a deq n).2.2, hlim]
    · unfold Aggregation.record
      split <;> exact hres
  | cons p ps ih =>
    rw [aggDeque] at h
    split at h
    · rename_i hw
      rw [List.filter_cons_of_neg (by simpa using hw)]
      exact ih ha hlim hres h
    · rename_i hw
      rw [List.filter_cons_of_pos (by simpa using hw), List.map_cons]
      simp only at h
      split at h
      · cases h
      · rename_i airtime mcs hair
        rw [ha.bits, ha.size] at hair
        have hconcat := airtimeOf_concat deq hair
        split at h
        · obtain rfl := Option.some.inj h
          refine .inr ⟨rfl, [], (deq, p), _, rfl, ?_, ?_⟩
          · rw [List.append_nil]
            exact ha.refuse n
          · rw [List.append_nil, hconcat]
            unfold Aggregation.record
            split <;> rfl
        · -- both airtimes are that with `p`
          exact (ih (ha.take hconcat) hlim rfl h).cons

theorem aggDeques_times {deqs : List MacKey} {a' : Aggregation}
    (ha : Accounts cfg m first linkId a T)
    (hlim : a.limitReached = false) (hres : a.resultz = a.lastServiceDuration)
    (h : aggDeques cfg m first linkId now deqs a = some a') :
    Ended cfg m first linkId a' T (candidatesOf m first deqs) := by
  induction deqs generalizing a T with
  | nil =>
    obtain rfl : a = a' := by simpa [aggDeques] using h
    exact .inl ⟨hlim, by simpa [candidatesOf] using ha, hres⟩
  | cons deq deqs ih =>
    obtain ⟨a₁, h₁, h₂⟩ := Option.bind_eq_some_iff.1 h
    rw [candidatesOf, List.flatMap_cons, ← candidatesOf]
    rcases aggDeque_times ha hlim hres h₁ with
      ⟨hlim₁, hacc, hres₁⟩ | ⟨hlim₁, T', x, C', hC, hacc, hres₁⟩
    · rw [if_neg (by simp [hlim₁])] at h₂
      rcases ih hacc hlim₁ hres₁ h₂ with
        ⟨hlim', hacc', hres'⟩ | ⟨hlim', T', x, C', hC, hacc', hres'⟩
      · exact .inl ⟨hlim', by rwa [← List.append_assoc], hres'⟩
      · refine .inr ⟨hlim', _ ++ T', x, C', by rw [hC, List.append_assoc], ?_, ?_⟩
        · rwa [← List.append_assoc]
        · rwa [← List.append_assoc]
    · rw [if_pos hlim₁] at h₂
      obtain rfl := Option.some.inj h₂
      refine .inr ⟨hlim₁, T', x, C' ++ candidatesOf m first deqs, ?_, hacc, hres₁⟩
      rw [hC, List.append_assoc, List.cons_append]

/-- **Both airtimes of an aggregation**: that of what was aggregated, and that with the refused
candidate if there is one. -/
theorem aggregate_times (h : aggregate cfg m first linkId now = some a)
    (hne : aggregated cfg m first linkId ≠ []) :
    aggregatedAirtime cfg m first linkId = some a.lastServiceDuration ∧
      (refusedAirtime cfg m first linkId).getD a.lastServiceDuration = a.resultz := by
  obtain ⟨htaken, -, -⟩ := aggregate_spec h
  have hlen := congrArg List.length htaken
  rw [List.length_map, List.length_map] at hlen
  -- What was taken is an initial part of the candidates, so its length tells it.
  have hagg {T C : List (MacKey × MpduPacket)} (hT : Accounts cfg m first linkId a T)
      (hcand : candidates cfg m first linkId = T ++ C) : aggregated cfg m first linkId = T := by
    have hinit : aggregated cfg m first linkId <+: T ++ C :=
      hcand ▸ longestFit_initial cfg m first linkId 0 0 (candidates cfg m first linkId)
    rw [List.prefix_iff_eq_take.1 hinit, ← hlen, hT.taken, List.take_left]
  rcases aggDeques_times (T := []) ⟨rfl, rfl, rfl, (absurd rfl ·), fun _ => rfl⟩ rfl rfl h with
    ⟨-, hacc, hres⟩ | ⟨-, T', x, C', hC, hacc, hres⟩
  · have heq := hagg hacc (List.append_nil _).symm
    have hnone : refused cfg m first linkId = none := by
      rw [refused, heq]
      exact List.getElem?_eq_none le_rfl
    refine ⟨by rw [aggregatedAirtime, heq]; exact hacc.last (heq ▸ hne), ?_⟩
    rw [refusedAirtime, hnone, hres]
    rfl
  · have heq := hagg hacc hC
    have hsome : refused cfg m first linkId = some x := by
      rw [refused, heq, show candidates cfg m first linkId = T' ++ x :: C' from hC]
      simp
    refine ⟨by rw [aggregatedAirtime, heq]; exact hacc.last (heq ▸ hne), ?_⟩
    rw [refusedAirtime, hsome, Option.bind_some, heq, hres]
    rfl

/-! ## What packets and statistics are told -/

/-- **What a build tells**: the airtime of what was aggregated to its caller, `resultz` to the
packets sent and to the statistics. -/
theorem build_times {ampdu : AmpduPacket} {m' : QueueModule}
    (h : buildNewAmpdu cfg m first linkId now = some (ampdu, airtime, m'))
    (hne : aggregated cfg m first linkId ≠ []) :
    aggregatedAirtime cfg m first linkId = some airtime ∧
      (ampdu.mpduPackets.length = (sentOf cfg m first linkId).length ∧
        ∀ p ∈ ampdu.mpduPackets, p.tS = (refusedAirtime cfg m first linkId).getD airtime) ∧
      ∃ new, m'.statsChannel = m.statsChannel ++ new ∧
        new.length = (sentOf cfg m first linkId).length ∧
        ∀ u ∈ new, u.tS = (refusedAirtime cfg m first linkId).getD airtime := by
  have heffect := buildEffect_of_build h
  have hlength : ampdu.mpduPackets.length = (sentOf cfg m first linkId).length := by
    simpa using congrArg List.length heffect.packets
  obtain ⟨records, hstats, hrecords⟩ := heffect.records
  obtain ⟨a, ha, -, rfl, htold⟩ := heffect.aggregation
  obtain ⟨htime, hresultz⟩ := aggregate_times ha hne
  rw [hresultz]
  refine ⟨htime, ⟨hlength, htold⟩, records, hstats, ?_, fun u hu => ?_⟩
  · rw [← hlength]
    simpa using congrArg List.length hrecords
  · obtain ⟨p, hp, heq⟩ := List.mem_map.1 (hrecords ▸ List.mem_map_of_mem hu)
    rw [← htold p hp]
    exact (Prod.mk.inj heq).1.symm

section Positive

variable (hair : ∀ bits n src dest width, 0 < (cfg.airtimeAmpdu bits n src dest width).1)

include hair

theorem airtimeWith_pos {p : MpduPacket} {bits size airtime mcs : Nat}
    (h : airtimeWith cfg m first linkId p bits size = some (airtime, mcs)) : 0 < airtime := by
  unfold airtimeWith at h
  split at h
  · have hpos := hair bits size p.staSrcCoords cfg.coordsQueue (cfg.linkChannelWidths linkId)
    rw [Option.some.inj h] at hpos
    exact hpos
  · obtain ⟨dest, -, hd⟩ := Option.map_eq_some_iff.1 h
    have hpos := hair bits size cfg.coordsQueue dest (cfg.linkChannelWidths linkId)
    rw [hd] at hpos
    exact hpos

/-- An A-MPDU with packets has an airtime if every airtime is positive. -/
theorem build_airtime_pos {ampdu : AmpduPacket} {m' : QueueModule}
    (h : buildNewAmpdu cfg m first linkId now = some (ampdu, airtime, m'))
    (hne : ampdu.mpduPackets ≠ []) : 0 < airtime := by
  have hagg : aggregated cfg m first linkId ≠ [] := by
    intro hnil
    have hpackets := (buildEffect_of_build h).packets
    rw [sentOf, hnil] at hpackets
    exact hne (List.map_eq_nil_iff.1 hpackets)
  obtain ⟨x, -, hx⟩ := Option.bind_eq_some_iff.1 (build_times h hagg).1
  obtain ⟨⟨_, mcs⟩, hwith, rfl⟩ := Option.map_eq_some_iff.1 hx
  exact airtimeWith_pos hair hwith

end Positive

end Loops

/-! ## The contention win -/

section Win

variable (cfg : MacConfig)

/-- For how long a link was newly occupied between two states. -/
def occupiedFor (s s' : Sim) (link : Nat) : Nat :=
  (((s'.occupations.take (s'.occupations.length - s.occupations.length)).filter
    (·.link = link)).map fun o => o.stop - o.start).sum

/-- The win is accounted for by the airtime of the aggregated MPDUs: the link is occupied that
long, and the packets transmitted and the statistics recorded say so. -/
def OneAirtime (s s' : Sim) (first : MpduPacket) (link : Nat) : Prop :=
  ∃ airtime, aggregatedAirtime cfg s.mac first link = some airtime ∧
    occupiedFor s s' link = airtime ∧
    (∀ c ∈ s'.completions.drop s.completions.length, ∀ p ∈ c.2.mpduPackets, p.tS = airtime) ∧
    ∀ u ∈ s'.mac.statsChannel.drop s.mac.statsChannel.length, u.tS = airtime

/-- Some aggregated MPDU survives its loss draw. -/
def SomeSurvives (m : QueueModule) (first : MpduPacket) (link : Nat) : Prop :=
  ∃ i < (aggregated cfg m first link).length, cfg.plProbability < (m.rng.skip i).peek

/-- Some MPDU survives, or there is no airtime; and if one survives, no candidate is refused that
would change the airtime. -/
def Accountable (m : QueueModule) (first : MpduPacket) (link : Nat) : Prop :=
  (SomeSurvives cfg m first link ∨ aggregatedAirtime cfg m first link = some 0) ∧
    (SomeSurvives cfg m first link →
      ∀ r ∈ refusedAirtime cfg m first link, aggregatedAirtime cfg m first link = some r)

variable {cfg} {s s' : Sim} {first : MpduPacket} {link : Nat} {winner : MacKey}

theorem survivors_eq_nil_iff {α : Type} (pl : ℚ) (r : DrawStream ℚ) (as : List α) :
    survivors pl r as = [] ↔ ¬ ∃ i < as.length, pl < (r.skip i).peek := by
  induction as generalizing r with
  | nil => simp [survivors]
  | cons a as ih =>
    have hskip : ∀ i, (r.skip 1).skip i = r.skip (i + 1) := by
      intro i
      simp [DrawStream.skip, Nat.add_assoc, Nat.add_comm 1]
    simp only [survivors]
    split
    · rename_i hlost
      rw [ih, not_iff_not]
      constructor
      · rintro ⟨i, hi, hlt⟩
        exact ⟨i + 1, Nat.succ_lt_succ hi, hskip i ▸ hlt⟩
      · rintro ⟨i, hi, hlt⟩
        cases i with
        | zero => exact absurd hlt (not_lt.2 hlost)
        | succ i => exact ⟨i, Nat.lt_of_succ_lt_succ hi, hskip i ▸ hlt⟩
    · rename_i hkept
      refine iff_of_false (List.cons_ne_nil _ _) (not_not.2 ⟨0, Nat.succ_pos _, not_le.1 hkept⟩)

theorem someSurvives_iff (m : QueueModule) :
    SomeSurvives cfg m first link ↔ sentOf cfg m first link ≠ [] := by
  rw [Ne, sentOf, survivors_eq_nil_iff, not_not]
  rfl

/-- What a win leaves: it is skipped or transmitted, for the airtime of what was aggregated. -/
theorem serveWinner_cases (hfirst : firstPacket cfg s.mac winner = some first)
    (h : serveWinner cfg s link winner = some s') :
    ∃ ampdu airtime m', buildNewAmpdu cfg s.mac first link s.now = some (ampdu, airtime, m') ∧
      s'.mac.statsChannel = m'.statsChannel ∧
      (((ampdu.mpduPackets = [] ∨ airtime = 0) ∧ s'.occupations = s.occupations ∧
          s'.completions = s.completions) ∨
        ((ampdu.mpduPackets ≠ [] ∧ airtime ≠ 0) ∧
          s'.occupations = ⟨link, s.now, s.now + airtime, [winner], false⟩ :: s.occupations ∧
          s'.completions =
            s.completions ++ [(s.now + airtime, { ampdu with linkId := link })])) := by
  rw [serveWinner, hfirst] at h
  obtain ⟨⟨ampdu, airtime, m'⟩, hbuild, hs'⟩ := Option.map_eq_some_iff.1 h
  refine ⟨ampdu, airtime, m', hbuild, ?_⟩
  simp only at hs'
  split at hs'
  · rename_i hskip
    subst hs'
    have hskip : ampdu.mpduPackets = [] ∨ airtime = 0 := by simpa using hskip
    unfold skipTransmission scheduleTick
    split
    · exact ⟨rfl, .inl ⟨hskip, rfl, rfl⟩⟩
    · exact ⟨rfl, .inl ⟨hskip, rfl, rfl⟩⟩
  · rename_i hstart
    subst hs'
    have hstart : ampdu.mpduPackets ≠ [] ∧ airtime ≠ 0 := by simpa using hstart
    exact ⟨rfl, .inr ⟨hstart, rfl, rfl⟩⟩

/-- A win in which MPDUs were aggregated, by the airtime of those, the packets `sent` and the
`records` about them. -/
structure Won (cfg : MacConfig) (s s' : Sim) (first : MpduPacket) (link airtime : Nat)
    (sent : List MpduPacket) (records : List StatsUpdate) : Prop where
  airtime_eq : aggregatedAirtime cfg s.mac first link = some airtime
  sent_eq_nil : sent = [] ↔ ¬ SomeSurvives cfg s.mac first link
  sent_tS : ∀ p ∈ sent, p.tS = (refusedAirtime cfg s.mac first link).getD airtime
  recorded : s'.mac.statsChannel = s.mac.statsChannel ++ records
  records_eq_nil : records = [] ↔ ¬ SomeSurvives cfg s.mac first link
  records_tS : ∀ u ∈ records, u.tS = (refusedAirtime cfg s.mac first link).getD airtime
  skipped_or_transmitted :
    ((sent = [] ∨ airtime = 0) ∧ s'.occupations = s.occupations ∧
        s'.completions = s.completions) ∨
      (sent ≠ [] ∧
        (∃ owners, s'.occupations =
          ⟨link, s.now, s.now + airtime, owners, false⟩ :: s.occupations) ∧
        ∃ c, c.2.mpduPackets = sent ∧ s'.completions = s.completions ++ [c])

theorem exists_won (hfirst : firstPacket cfg s.mac winner = some first)
    (h : serveWinner cfg s link winner = some s')
    (hne : aggregated cfg s.mac first link ≠ []) :
    ∃ airtime sent records, Won cfg s s' first link airtime sent records := by
  obtain ⟨ampdu, airtime, m', hbuild, hstats, hcases⟩ := serveWinner_cases hfirst h
  obtain ⟨hair, ⟨hlen, hpackets⟩, new, hnew, hnewlen, hrecords⟩ := build_times hbuild hne
  have hnil {α : Type} {l : List α} (hl : l.length = (sentOf cfg s.mac first link).length) :
      l = [] ↔ ¬ SomeSurvives cfg s.mac first link := by
    rw [someSurvives_iff, not_not, ← List.length_eq_zero_iff, hl, List.length_eq_zero_iff]
  refine ⟨airtime, ampdu.mpduPackets, new, hair, hnil hlen, hpackets, hstats.trans hnew,
    hnil hnewlen, hrecords, hcases.imp_right ?_⟩
  rintro ⟨⟨hsent, -⟩, hocc, hcompl⟩
  exact ⟨hsent, ⟨_, hocc⟩, ⟨_, rfl, hcompl⟩⟩

namespace Won

variable {airtime : Nat} {sent : List MpduPacket} {records : List StatsUpdate}

/-- The link is occupied for the airtime, unless everything is lost. -/
theorem occupiedFor_iff (h : Won cfg s s' first link airtime sent records) :
    occupiedFor s s' link = airtime ↔ SomeSurvives cfg s.mac first link ∨ airtime = 0 := by
  rcases h.skipped_or_transmitted with ⟨hskip, hocc, -⟩ | ⟨hsent, ⟨owners, hocc⟩, -⟩
  · have hzero : occupiedFor s s' link = 0 := by simp [occupiedFor, hocc]
    rw [hzero, eq_comm]
    rcases hskip with hskip | hskip
    · exact ⟨.inr, fun hor => hor.resolve_left (h.sent_eq_nil.1 hskip)⟩
    · exact iff_of_true hskip (.inr hskip)
  · refine iff_of_true ?_ (.inl (not_not.1 fun hlost => hsent (h.sent_eq_nil.2 hlost)))
    simp [occupiedFor, hocc]

/-- The records say the airtime, unless a candidate was refused with another one. -/
theorem recorded_iff (h : Won cfg s s' first link airtime sent records) :
    (∀ u ∈ s'.mac.statsChannel.drop s.mac.statsChannel.length, u.tS = airtime) ↔
      (SomeSurvives cfg s.mac first link →
        (refusedAirtime cfg s.mac first link).getD airtime = airtime) := by
  rw [h.recorded, List.drop_left]
  constructor
  · intro hall hsurvive
    obtain ⟨u, hu⟩ := List.exists_mem_of_ne_nil _ fun hnil => h.records_eq_nil.1 hnil hsurvive
    exact (h.records_tS u hu).symm.trans (hall u hu)
  · intro hsame u hu
    refine (h.records_tS u hu).trans (hsame (not_not.1 fun hlost => ?_))
    rw [h.records_eq_nil.2 hlost] at hu
    exact absurd hu List.not_mem_nil

theorem transmitted (h : Won cfg s s' first link airtime sent records)
    (hsame : SomeSurvives cfg s.mac first link →
      (refusedAirtime cfg s.mac first link).getD airtime = airtime) :
    ∀ c ∈ s'.completions.drop s.completions.length, ∀ p ∈ c.2.mpduPackets, p.tS = airtime := by
  rcases h.skipped_or_transmitted with ⟨-, -, hcompl⟩ | ⟨hsent, -, c, hc, hcompl⟩
  · simp [hcompl]
  · rw [hcompl, List.drop_left]
    intro c' hc' p hp
    obtain rfl := List.mem_singleton.1 hc'
    rw [hc] at hp
    exact (h.sent_tS p hp).trans (hsame (not_not.1 fun hlost => hsent (h.sent_eq_nil.2 hlost)))

theorem accountable_iff (h : Won cfg s s' first link airtime sent records) :
    Accountable cfg s.mac first link ↔
      (SomeSurvives cfg s.mac first link ∨ airtime = 0) ∧
      (SomeSurvives cfg s.mac first link →
        (refusedAirtime cfg s.mac first link).getD airtime = airtime) := by
  rw [Accountable, h.airtime_eq, Option.some.injEq]
  refine and_congr_right fun _ => imp_congr_right fun _ => ?_
  cases refusedAirtime cfg s.mac first link with
  | none => simp
  | some r => simp [eq_comm]

end Won

/-- **A win is accounted for by one airtime exactly if** some MPDU survives (or there is no
airtime), and no candidate was refused with another airtime. Any airtime function, any draws. -/
theorem service_time_iff (hfirst : firstPacket cfg s.mac winner = some first)
    (h : serveWinner cfg s link winner = some s')
    (hne : aggregated cfg s.mac first link ≠ []) :
    OneAirtime cfg s s' first link ↔ Accountable cfg s.mac first link := by
  obtain ⟨airtime, sent, records, hwon⟩ := exists_won hfirst h hne
  rw [hwon.accountable_iff]
  constructor
  · rintro ⟨airtime', hair, hocc, -, hrec⟩
    obtain rfl : airtime = airtime' := Option.some.inj (hwon.airtime_eq.symm.trans hair)
    exact ⟨hwon.occupiedFor_iff.1 hocc, hwon.recorded_iff.1 hrec⟩
  · rintro ⟨hsurvive, hsame⟩
    exact ⟨airtime, hwon.airtime_eq, hwon.occupiedFor_iff.2 hsurvive,
      hwon.transmitted hsame, hwon.recorded_iff.2 hsame⟩

end Win

/-! ## Wins in concrete runs -/

/-- Packets for the station before the first slot tick. -/
def arrivals (n : Nat) : List Event :=
  .coords 0 200 {} :: (List.range n).map fun id => .input 0 (plainPacket 100 200 id)

/-- The state in which the first slot tick serves its link. -/
def atFirstTick (cfg : MacConfig) (s : Sim) : Sim := beginTick cfg .insertion (s.atTick 9000)

/-- The contention function of the access point that sends them. -/
def accessPoint : MacKey := ⟨-1, .bestEffort, 0⟩

/-- Airtime of what the win aggregates, and what its link, packets and statistics say. -/
def airtimes (cfg : MacConfig) (s : Sim) : Option (Option Nat × Nat × List Nat × List Nat) :=
  (firstPacket cfg s.mac accessPoint).bind fun first =>
    (serveWinner cfg s 0 accessPoint).map fun s' =>
      (aggregatedAirtime cfg s.mac first 0, occupiedFor s s' 0,
        (s'.completions.drop s.completions.length).flatMap fun c => c.2.mpduPackets.map (·.tS),
        (s'.mac.statsChannel.drop s.mac.statsChannel.length).map (·.tS))

theorem airtimes_spec {cfg : MacConfig} {s : Sim} {airtime occupied : Nat} {sent told : List Nat}
    (h : airtimes cfg s = some (some airtime, occupied, sent, told)) :
    ∃ first s', firstPacket cfg s.mac accessPoint = some first ∧
      serveWinner cfg s 0 accessPoint = some s' ∧ aggregated cfg s.mac first 0 ≠ [] ∧
      (OneAirtime cfg s s' first 0 ↔
        occupied = airtime ∧ (∀ t ∈ sent, t = airtime) ∧ ∀ t ∈ told, t = airtime) := by
  obtain ⟨first, hfirst, h⟩ := Option.bind_eq_some_iff.1 h
  obtain ⟨s', hs', heq⟩ := Option.map_eq_some_iff.1 h
  simp only [Prod.mk.injEq] at heq
  obtain ⟨hair, rfl, rfl, rfl⟩ := heq
  refine ⟨first, s', hfirst, hs', fun hnil => ?_, ?_⟩
  · rw [aggregatedAirtime, hnil] at hair
    cases hair
  · rw [OneAirtime, hair]
    simp only [Option.some.injEq, exists_eq_left', List.forall_mem_flatMap, List.forall_mem_map]

/-- The win of the access point: the tick of a run serves its link. -/
def Wins (cfg : MacConfig) (es : List Event) (s : Sim) : Prop :=
  ∃ s₀, MacRun cfg es s₀ ∧ tickLinks cfg .insertion (s₀.atTick 9000) = [(0, [accessPoint])] ∧
    s = atFirstTick cfg s₀

theorem exists_wins (cfg : MacConfig) (es : List Event) (airtime occupied : Nat)
    (sent told : List Nat)
    (hlinks : (runs (step cfg) (Sim.new cfg) es).map
      (fun s => tickLinks cfg .insertion (s.atTick 9000)) = some [(0, [accessPoint])])
    (hair : (runs (step cfg) (Sim.new cfg) es).bind (fun s => airtimes cfg (atFirstTick cfg s)) =
      some (some airtime, occupied, sent, told)) :
    ∃ s first s', Wins cfg es s ∧ firstPacket cfg s.mac accessPoint = some first ∧
      serveWinner cfg s 0 accessPoint = some s' ∧ aggregated cfg s.mac first 0 ≠ [] ∧
      (OneAirtime cfg s s' first 0 ↔
        occupied = airtime ∧ (∀ t ∈ sent, t = airtime) ∧ ∀ t ∈ told, t = airtime) := by
  obtain ⟨s, hs, hlinks⟩ := Option.map_eq_some_iff.1 hlinks
  rw [hs, Option.bind_some] at hair
  obtain ⟨first, s', hspec⟩ := airtimes_spec hair
  exact ⟨_, first, s', ⟨s, .of_runs (allOk_true _ _ _) hs, hlinks, rfl⟩, hspec⟩

theorem service_time_two : ∃ s first s', Wins oneStation (arrivals 2) s ∧
    serveWinner oneStation s 0 accessPoint = some s' ∧
    OneAirtime oneStation s s' first 0 ∧ Accountable oneStation s.mac first 0 := by
  obtain ⟨s, first, s', hwin, hfirst, hs', hne, hone⟩ :=
    exists_wins oneStation (arrivals 2) 236000 236000 [236000, 236000] [236000, 236000]
      (by decide +kernel) (by decide +kernel)
  have hone : OneAirtime oneStation s s' first 0 := hone.2 (by decide)
  exact ⟨s, first, s', hwin, hs', hone, (service_time_iff hfirst hs' hne).1 hone⟩

/-- A configuration of two MPDUs at most. -/
def pairsOnly : MacConfig := { oneStation with packsPerAmpdu := 2 }

/-- A configuration in which every MPDU is lost. -/
def allLost : MacConfig := { oneStation with plProbability := 1 }

/-- With a third packet in the queue, two MPDUs of 236 µs are reported with the 252 µs of three;
and if both are lost, the medium is not occupied at all. -/
theorem service_time_overwritten :
    (∃ s first s', Wins pairsOnly (arrivals 3) s ∧
      serveWinner pairsOnly s 0 accessPoint = some s' ∧
      aggregated pairsOnly s.mac first 0 ≠ [] ∧ ¬ OneAirtime pairsOnly s s' first 0) ∧
    ∃ s first s', Wins allLost (arrivals 2) s ∧ serveWinner allLost s 0 accessPoint = some s' ∧
      aggregated allLost s.mac first 0 ≠ [] ∧ ¬ OneAirtime allLost s s' first 0 := by
  constructor
  · obtain ⟨s, first, s', hwin, -, hs', hne, hone⟩ :=
      exists_wins pairsOnly (arrivals 3) 236000 236000 [252000, 252000] [252000, 252000]
        (by decide +kernel) (by decide +kernel)
    exact ⟨s, first, s', hwin, hs', hne, fun h => absurd (hone.1 h) (by decide)⟩
  · obtain ⟨s, first, s', hwin, -, hs', hne, hone⟩ :=
      exists_wins allLost (arrivals 2) 236000 0 [] [] (by decide +kernel) (by decide +kernel)
    exact ⟨s, first, s', hwin, hs', hne, fun h => absurd (hone.1 h) (by decide)⟩

end SiestaVR.Mac
