import SiestaVR.Mac.AmpduSpec

/-!
# The effect of one build on the MAC

`BuildEffect` states everything `buildNewAmpdu` does to the state in terms of
`aggregated` and its split into survivors and casualties: which packets leave
in the A-MPDU, what each queue holds afterwards, how the counters move, and
what the packets sent and the statistics are told, and that nothing else changes.
`buildEffect_of_build` proves it once; no later proof about what a build returns
unfolds it.
-/

namespace SiestaVR.Mac

open Lib

section

variable (cfg : MacConfig) (m : QueueModule) (first : MpduPacket) (linkId : Nat)

/-- What is sent: the aggregated packets that survive their loss draw. -/
def sentOf : List (MacKey × MpduPacket) :=
  survivors cfg.plProbability m.rng (aggregated cfg m first linkId)

/-- What was aggregated and fails its loss draw. -/
def failedOf : List (MacKey × MpduPacket) :=
  casualties cfg.plProbability m.rng (aggregated cfg m first linkId)

/-- Some sent packet has this packet's bare id. -/
def idSent (p : MpduPacket) : Bool :=
  p.packetId ∈ (sentOf cfg m first linkId).map fun x => x.2.packetId

/-- What is pushed back to the front of the queues. -/
def putBackOf : List (MacKey × MpduPacket) :=
  (aggregated cfg m first linkId).filter fun x => !idSent cfg m first linkId x.2

/-- Some aggregated packet has this packet's removal key. -/
def keyTaken (p : MpduPacket) : Bool :=
  ((aggregated cfg m first linkId).map fun x => idKey cfg x.2).contains (idKey cfg p)

/-- Some packet was aggregated from this queue. -/
def involved (k : MacKey) : Bool := k ∈ (aggregated cfg m first linkId).map Prod.fst

/-- What stays in a queue while the aggregated packets are removed. -/
def keptIn (k : MacKey) : List MpduPacket :=
  if first.isUl then
    (m.perFlowQueues k).drop (fiber (aggregated cfg m first linkId) k).length
  else if involved cfg m first linkId k then
    (m.perFlowQueues k).filter fun p => !keyTaken cfg m first linkId p
  else m.perFlowQueues k

end

/-- The effect of a build that returned `ampdu`, `airtime` and the state `m'`. -/
structure BuildEffect (cfg : MacConfig) (m : QueueModule) (first : MpduPacket) (linkId now : Nat)
    (ampdu : AmpduPacket) (airtime : Nat) (m' : QueueModule) : Prop where
  srcPos : 0 < first.staSrcId
  hasKey : cfg.hasKey (ampduKey first linkId) = true
  macKey : ampdu.macKey = ampduKey first linkId
  packets : ampdu.mpduPackets.map MpduPacket.withoutStamps
    = (sentOf cfg m first linkId).map fun x => x.2.withoutStamps
  queues : ∀ k, (m'.perFlowQueues k).map MpduPacket.withoutStamps
    = ((fiber (putBackOf cfg m first linkId) k)
        ++ keptIn cfg m first linkId k).map MpduPacket.withoutStamps
  state : m' = { m with
    perFlowQueues := m'.perFlowQueues
    rng := m.rng.skip (aggregated cfg m first linkId).length
    statsChannel := m'.statsChannel
    blockedPacketCounter := m.blockedPacketCounter + (failedOf cfg m first linkId).length
    linkQueueDepths := m.linkQueueDepths.decrAll
      ((sentOf cfg m first linkId).filterMap fun x => x.2.assignedLinkId)
    activeMacKeyCounts := m.activeMacKeyCounts.decrAll
      ((sentOf cfg m first linkId).map fun x => x.2.acKey)
    staStatsCache := m.staStatsCache.decrAll
      ((sentOf cfg m first linkId).map fun x => x.2.flow)
    linkIsTransmitting := Function.update m.linkIsTransmitting linkId true }
  records : ∃ records, m'.statsChannel = m.statsChannel ++ records ∧
    records.map (fun u => (u.tS, u.tQ)) = ampdu.mpduPackets.map fun p => (p.tS, p.tQ)
  aggregation : ∃ a, aggregate cfg m first linkId now = some a ∧ ampdu.size = a.ampdu.size ∧
    airtime = a.lastServiceDuration ∧ ∀ p ∈ ampdu.mpduPackets, p.tS = a.resultz

section Lemmas

variable {cfg : MacConfig} {m : QueueModule} {first : MpduPacket} {linkId now : Nat}

variable (cfg linkId now) in
/-- The draws decide which MPDUs are kept and recorded, and how many count as blocked. -/
theorem lossLoop_spec (resultz : Nat) (ps : List MpduPacket) (m : QueueModule)
    (acc : List MpduPacket) :
    (lossLoop cfg linkId now resultz ps m acc).2
        = acc ++ (survivors cfg.plProbability m.rng ps).map (fun p => { p with tS := resultz }) ∧
      ∃ records, (lossLoop cfg linkId now resultz ps m acc).1 = { m with
          rng := m.rng.skip ps.length
          statsChannel := m.statsChannel ++ records
          blockedPacketCounter :=
            m.blockedPacketCounter + (casualties cfg.plProbability m.rng ps).length } ∧
        records.map (fun u => (u.tS, u.tQ)) =
          (survivors cfg.plProbability m.rng ps).map fun p => (resultz, p.tQ) := by
  induction ps generalizing m acc with
  | nil => exact ⟨by simp [lossLoop, survivors], [], by rw [List.append_nil]; rfl, rfl⟩
  | cons p ps ih =>
    have hskip : ∀ r : DrawStream ℚ, (r.skip 1).skip ps.length = r.skip (ps.length + 1) := by
      intro r
      simp [DrawStream.skip, Nat.add_assoc, Nat.add_comm 1]
    simp only [lossLoop, survivors, casualties]
    split
    · obtain ⟨hsent, records, hst, htold⟩ := ih
        { m with rng := m.rng.skip 1, blockedPacketCounter := m.blockedPacketCounter + 1 } acc
      refine ⟨hsent, records, ?_, htold⟩
      rw [hst]
      simp [hskip, Nat.add_assoc, Nat.add_comm 1]
    · let record :=
        sentStats { m with rng := m.rng.skip 1 } linkId now resultz { p with tS := resultz }
      obtain ⟨hsent, records, hst, htold⟩ := ih
        { m with rng := m.rng.skip 1, statsChannel := m.statsChannel ++ [record] }
        (acc ++ [{ p with tS := resultz }])
      refine ⟨by rw [hsent]; simp, record :: records, ?_, ?_⟩
      · rw [hst]
        simp [hskip]
      · rw [List.map_cons, List.map_cons, htold]
        rfl

theorem popSources_apply (srcs : List (MacKey × Nat)) (queues : MacKey → List MpduPacket)
    (k : MacKey) : popSources srcs queues k = (queues k).drop (fiber srcs k).sum := by
  induction srcs generalizing queues with
  | nil => simp [popSources]
  | cons src srcs ih =>
    rw [popSources, List.foldl_cons]
    refine (ih _).trans ?_
    rw [fiber_cons]
    by_cases hk : src.1 = k
    · subst hk
      simp [List.drop_drop]
    · have hk' : k ≠ src.1 := fun e => hk e.symm
      simp [hk, hk']

theorem pushFrontAll_reverse (q ps : List MpduPacket) : pushFrontAll q ps.reverse = ps ++ q := by
  simp [pushFrontAll]

/-- A property that ignores stamps selects corresponding elements of two lists
that agree up to stamps. -/
theorem filter_unstamp_congr {T U : List (MacKey × MpduPacket)} {f : MpduPacket → Bool}
    (hf : ∀ p : MpduPacket, f p.withoutStamps = f p) (h : T.map unstamp = U.map unstamp) :
    (T.filter fun x => f x.2).map unstamp = (U.filter fun x => f x.2).map unstamp := by
  have hT : ∀ V : List (MacKey × MpduPacket),
      (V.filter fun x => f x.2).map unstamp = (V.map unstamp).filter fun x => f x.2 := by
    intro V
    rw [List.filter_map]
    congr 1
    exact List.filter_congr fun x _ => (hf x.2).symm
  rw [hT, hT, h]

theorem fiber_unstamp (T : List (MacKey × MpduPacket)) (k : MacKey) :
    (fiber T k).map MpduPacket.withoutStamps = fiber (T.map unstamp) k := by
  induction T with
  | nil => rfl
  | cons x T ih =>
    rw [List.map_cons, fiber_cons, fiber_cons, ← ih]
    by_cases hk : x.1 = k <;> simp [hk]

/-- Lists that agree up to stamps have the same stamp-free projections. -/
theorem map_snd_congr {β : Type} {T U : List (MacKey × MpduPacket)} {f : MpduPacket → β}
    (hf : ∀ p : MpduPacket, f p.withoutStamps = f p) (h : T.map unstamp = U.map unstamp) :
    (T.map fun x => f x.2) = U.map fun x => f x.2 := by
  have hT : ∀ V : List (MacKey × MpduPacket),
      (V.map fun x => f x.2) = (V.map unstamp).map fun x => f x.2 := by
    intro V
    simp [hf]
  rw [hT T, hT U, h]

theorem aggregate_macKey {a : Aggregation} (h : aggregate cfg m first linkId now = some a) :
    a.ampdu.macKey = ampduKey first linkId := by
  obtain ⟨T, -, -, -, -, hkey⟩ := aggDeques_spec rfl h
  exact hkey

section Aggregated

variable {a : Aggregation} (ha : aggregate cfg m first linkId now = some a)

include ha

theorem length_mpduPackets :
    a.ampdu.mpduPackets.length = (aggregated cfg m first linkId).length := by
  obtain ⟨htaken, hmpdus, -⟩ := aggregate_spec ha
  have h := congrArg List.length htaken
  rw [List.length_map, List.length_map] at h
  rw [hmpdus, List.length_map, h]

theorem length_casualties :
    (casualties cfg.plProbability m.rng a.ampdu.mpduPackets).length =
      (failedOf cfg m first linkId).length := by
  obtain ⟨htaken, hmpdus, -⟩ := aggregate_spec ha
  have h := congrArg (fun l => (casualties cfg.plProbability m.rng l).length) htaken
  simp only [casualties_map, List.length_map] at h
  rw [hmpdus, casualties_map, List.length_map, h, failedOf]

/-- The survivors of the packets taken, by anything that the build does not stamp. -/
theorem map_survivors {β : Type} {f : MpduPacket → β} (hf : ∀ p, f p.withoutStamps = f p)
    (hts : ∀ p : MpduPacket, f { p with tS := a.resultz } = f p) :
    ((survivors cfg.plProbability m.rng a.ampdu.mpduPackets).map
      fun p => { p with tS := a.resultz }).map f =
        (sentOf cfg m first linkId).map fun x => f x.2 := by
  obtain ⟨htaken, hmpdus, -⟩ := aggregate_spec ha
  have hsurvive : (survivors cfg.plProbability m.rng a.takenSnapshot).map unstamp =
      (sentOf cfg m first linkId).map unstamp := by
    rw [sentOf, ← survivors_map, htaken, survivors_map]
  rw [hmpdus, survivors_map, List.map_map, List.map_map, ← map_snd_congr hf hsurvive]
  exact List.map_congr_left fun x _ => hts x.2

/-- What the build leaves in the queues before it puts back what failed. -/
theorem removeTaken_eq (k : MacKey) :
    removeTaken cfg first.isUl a m.perFlowQueues k = keptIn cfg m first linkId k := by
  obtain ⟨htaken, -, hsources⟩ := aggregate_spec ha
  have hfst : a.takenSnapshot.map Prod.fst = (aggregated cfg m first linkId).map Prod.fst := by
    have := congrArg (List.map Prod.fst) htaken
    simpa [List.map_map, Function.comp_def] using this
  have hkeys := map_snd_congr (f := idKey cfg) (fun _ => rfl) htaken
  have hlen : (fiber a.takenSnapshot k).length =
      (fiber (aggregated cfg m first linkId) k).length := by
    have h := congrArg (fun l => (fiber l k).length) htaken
    simpa only [← fiber_unstamp, List.length_map] using h
  unfold removeTaken keptIn
  split
  · rw [popSources_apply, hsources k, hlen]
  · simp only [retainUntaken, involved, keyTaken, List.contains_eq_mem, hfst, hkeys,
      decide_eq_true_eq]

theorem map_putBack {sent : List MpduPacket}
    (hids : sent.map MpduPacket.packetId =
      (sentOf cfg m first linkId).map fun x => x.2.packetId) :
    (a.takenSnapshot.filter fun x =>
        !(x.2.packetId ∈ sent.map MpduPacket.packetId)).map unstamp =
      (putBackOf cfg m first linkId).map unstamp := by
  rw [hids]
  exact filter_unstamp_congr (f := fun p => !idSent cfg m first linkId p) (fun _ => rfl)
    (aggregate_spec ha).1

end Aggregated

/-- **What a build does**, whenever it returns. -/
theorem buildEffect_of_build {ampdu : AmpduPacket} {airtime : Nat} {m' : QueueModule}
    (h : buildNewAmpdu cfg m first linkId now = some (ampdu, airtime, m')) :
    BuildEffect cfg m first linkId now ampdu airtime m' := by
  unfold buildNewAmpdu at h
  split at h
  · cases h
  rename_i hids₀
  have hsrc : 0 < first.staSrcId := by omega
  split at h
  · cases h
  rename_i hkey
  have hkey : cfg.hasKey (ampduKey first linkId) = true := by simpa using hkey
  obtain ⟨a, ha, heq⟩ := Option.map_eq_some_iff.1 h
  obtain ⟨hsent, records, hm₁, htold⟩ := lossLoop_spec cfg linkId now
    a.resultz a.ampdu.mpduPackets m []
  rcases hloop : lossLoop cfg linkId now a.resultz a.ampdu.mpduPackets m [] with ⟨m₁, sent⟩
  rw [hloop] at hsent hm₁ heq
  obtain ⟨rfl, rfl, rfl⟩ : _ = ampdu ∧ _ = airtime ∧ _ = m' := by simpa using heq
  obtain rfl : m₁ = _ := hm₁
  -- What neither the aggregation nor the loss loop stamps can be read off `sentOf`.
  have hproj {β : Type} (f : MpduPacket → β) (hf : ∀ p, f p.withoutStamps = f p)
      (hts : ∀ p : MpduPacket, f { p with tS := a.resultz } = f p) :
      sent.map f = (sentOf cfg m first linkId).map fun x => f x.2 := by
    rw [show sent = _ from hsent, List.nil_append]
    exact map_survivors ha hf hts
  refine ⟨hsrc, hkey, aggregate_macKey ha, ?_, ?_, ?_, ⟨records, rfl, ?_⟩, a, ha, rfl, rfl, ?_⟩
  · exact hproj _ (fun _ => rfl) fun _ => rfl
  · intro k
    show (pushBackFailed a.takenSnapshot sent
      (removeTaken cfg first.isUl a m.perFlowQueues) k).map _ = _
    rw [pushBackFailed, pushFrontAll_reverse, List.map_append, List.map_append, fiber_unstamp,
      map_putBack ha (hproj _ (fun _ => rfl) fun _ => rfl), ← fiber_unstamp, removeTaken_eq ha]
  · have hassigned : sent.filterMap MpduPacket.assignedLinkId
        = (sentOf cfg m first linkId).filterMap fun x => x.2.assignedLinkId := by
      have := congrArg (List.filterMap id)
        (hproj MpduPacket.assignedLinkId (fun _ => rfl) fun _ => rfl)
      simpa [List.filterMap_map, Function.comp_def] using this
    simp only [lowerCounters, QueueModule.setTransmitting, hassigned, length_casualties ha,
      length_mpduPackets ha, hproj MpduPacket.acKey (fun _ => rfl) fun _ => rfl,
      hproj MpduPacket.flow (fun _ => rfl) fun _ => rfl]
  · show _ = sent.map _
    rw [htold, show sent = _ from hsent, List.nil_append, List.map_map]
    rfl
  · intro p hp
    rw [show ({ a.ampdu with mpduPackets := sent } : AmpduPacket).mpduPackets = _ from hsent,
      List.nil_append] at hp
    obtain ⟨p', -, rfl⟩ := List.mem_map.1 hp
    rfl

end Lemmas

end SiestaVR.Mac
