import SiestaVR.Mac.Overflow
import SiestaVR.Mac.ServiceTime

/-!
# Attribution of transmission times (lib/models_mm1k.rs:2382–2397, 2749–2804, 3703–3732)

Every packet sent and every contender of a collision puts a record into one
channel. Whichever A-MPDU completes next drains all of it: every record becomes a
sample of the cumulative statistics, and the window of the sender gets the service
time of the *first* record, whosever it is. So a completed A-MPDU is told from the
channel only if nothing but its own records is in there.

An observer keeps the account that the windows should agree with (`Account`): the
airtimes of the A-MPDUs in flight and completed, and the transmission time of the
windows that were closed. `statistics_attributed` says that windows and samples
agree with it in every run without collisions in which no transmission starts
while another one is in flight on any link.
-/

namespace SiestaVR.Mac

open Lib

/-! ## The account of an observer -/

/-- What attribution reads of a state. -/
structure Tally where
  now : Nat
  completions : List (Nat × AmpduPacket)
  delivered : List AmpduPacket
  channel : List StatsUpdate
  cumulative : QueueStats
  windows : WindowKey → WindowMetrics

/-- The tally of a state. -/
def Sim.tally (s : Sim) : Tally :=
  ⟨s.now, s.completions, s.delivered, s.mac.statsChannel, s.mac.cumulativeStatsQueue,
    s.mac.windowMetricsMcsUtil⟩

/-- What an observer of a run keeps beside the MAC. -/
structure Account where
  /-- Airtimes of the A-MPDUs in flight, in the order of `Sim.completions`. -/
  inFlight : List Nat := []
  /-- Airtime of the completed A-MPDUs of a station on a link. -/
  completed : WindowKey → Nat := fun _ => 0
  /-- Transmission time of the closed windows of a station on a link. -/
  closed : WindowKey → Nat := fun _ => 0

/-- The station and the link of an A-MPDU. -/
def AmpduPacket.sender (a : AmpduPacket) : WindowKey := (a.macKey.sta, a.linkId)

/-- The account after an event between two tallies: an A-MPDU is in flight from its
tick to its completion, and a window is closed when it gets a new start. -/
def Account.next (g : Account) (t : Tally) (e : Event) (t' : Tally) : Account where
  inFlight :=
    match e with
    | .completion i => g.inFlight.eraseIdx i
    | _ => g.inFlight ++ (t'.completions.drop t.completions.length).map fun c => c.1 - t'.now
  completed :=
    match e with
    | .completion i => fun w => g.completed w +
        if (t.completions[i]?).map (fun c => c.2.sender) = some w then (g.inFlight[i]?).getD 0
        else 0
    | _ => g.completed
  closed := fun w => g.closed w +
    if (t'.windows w).windowStart = (t.windows w).windowStart then 0 else (t.windows w).staTxTime

/-- The account after a list of events. -/
def account (cfg : MacConfig) (es : List Event) : Account :=
  observe (step cfg) (fun g s e s' => g.next s.tally e s'.tally) {} (Sim.new cfg) es

/-- Windows and samples agree with an account: the transmission time of a station on
a link over all its windows is the airtime of its completed A-MPDUs, and there is
one sample for each packet delivered, with its times. -/
structure Attributed (g : Account) (t : Tally) : Prop where
  txTime : ∀ w, g.closed w + (t.windows w).staTxTime = g.completed w
  service : t.cumulative.serviceTimeCum.values
    = t.delivered.flatMap fun a => a.mpduPackets.map MpduPacket.tS
  waiting : t.cumulative.waitingTimeCum.values
    = t.delivered.flatMap fun a => a.mpduPackets.map MpduPacket.tQ

/-! ## Runs that keep transmissions apart -/

instance (cfg : MacConfig) (m : QueueModule) (first : MpduPacket) (link : Nat) :
    Decidable (SomeSurvives cfg m first link) :=
  inferInstanceAs (Decidable (∃ i < _, _))

/-- The aggregated MPDUs take time, and no candidate is refused that would change it. -/
def PlainAirtime (cfg : MacConfig) (m : QueueModule) (first : MpduPacket) (link : Nat) : Prop :=
  aggregatedAirtime cfg m first link ≠ some 0 ∧
    ∀ r ∈ refusedAirtime cfg m first link, aggregatedAirtime cfg m first link = some r

instance (cfg : MacConfig) (m : QueueModule) (first : MpduPacket) (link : Nat) :
    Decidable (PlainAirtime cfg m first link) :=
  inferInstanceAs (Decidable (_ ∧ ∀ r ∈ refusedAirtime cfg m first link, _))

/-- An iteration of the link loop without a collision, which starts a transmission
only if none is in flight on any link. -/
def Separate (cfg : MacConfig) (order : HashOrder) (s : Sim) (x : Nat × List MacKey) : Prop :=
  (contendersOf order s x).length ≤ 1 ∧
    EachBuild cfg order (fun m first link => SomeSurvives cfg m first link →
      s.completions = [] ∧ PlainAirtime cfg m first link) s x

instance (cfg : MacConfig) (order : HashOrder) (s : Sim) (x : Nat × List MacKey) :
    Decidable (Separate cfg order s x) :=
  inferInstanceAs (Decidable (_ ∧ EachBuild cfg order _ s x))

/-- The link loop of the tick, if the event is one, has only such iterations. -/
def Separated (cfg : MacConfig) (s : Sim) : Event → Prop
  | .tick t order => TickAll cfg order (Separate cfg order) (s.atTick t)
  | _ => True

instance (cfg : MacConfig) (s : Sim) : ∀ e, Decidable (Separated cfg s e)
  | .tick t order =>
    inferInstanceAs (Decidable (TickAll cfg order (Separate cfg order) (s.atTick t)))
  | .input _ _ | .inputUL _ _ | .coords _ _ _ | .completion _ => .isTrue True.intro

/-! ## What a tick tells -/

/-- An A-MPDU with airtime `d` is told by these records. -/
structure Told (a : AmpduPacket) (d : Nat) (records : List StatsUpdate) : Prop where
  link : a.macKey.link = a.linkId
  packets : a.mpduPackets ≠ []
  service : records.map StatsUpdate.tS = a.mpduPackets.map MpduPacket.tS
  waiting : records.map StatsUpdate.tQ = a.mpduPackets.map MpduPacket.tQ
  airtime : ∀ u ∈ records, u.tS = d

/-- Nothing happens to the tally, or a transmission starts while none is in flight
and leaves its records. -/
def Advances (t t' : Tally) : Prop :=
  t' = t ∨ t.completions = [] ∧ ∃ a d records, Told a d records ∧
    t' = { t with completions := [(t.now + d, a)], channel := t.channel ++ records }

theorem Advances.trans {t t' t'' : Tally} (h : Advances t t') (h' : Advances t' t'') :
    Advances t t'' := by
  rcases h with rfl | ⟨hnone, a, d, records, htold, rfl⟩
  · exact h'
  · rcases h' with rfl | ⟨hnone', -⟩
    · exact Or.inr ⟨hnone, a, d, records, htold, rfl⟩
    · cases hnone'

section Ticks

variable {cfg : MacConfig} {order : HashOrder}

theorem tally_scheduleTick (s : Sim) : (scheduleTick s).tally = s.tally := by
  unfold scheduleTick
  split <;> rfl

variable (order) in
theorem tally_resolve (s : Sim) (x : Nat × List MacKey) :
    ({ s with mac := (resolveVirtualCollision order x.1 s.mac x.2).2 } : Sim).tally = s.tally := by
  obtain ⟨⟨d, -, hm⟩, -⟩ := resolve_spec order x.1 s.mac x.2
  rw [hm]
  rfl

theorem tally_beginTick (s : Sim) : (beginTick cfg order s).tally = s.tally :=
  overflowPass_rel cfg (R := fun m m' => ({ s with mac := m' } : Sim).tally
    = ({ s with mac := m } : Sim).tally) (fun _ => rfl) (fun h h' => h'.trans h) order
    { s.mac with slotTickPending := false } fun x _ k st => by
      unfold overflowQueue
      dsimp only
      split
      · rfl
      · split <;> rfl

variable {m m' : QueueModule} {first : MpduPacket} {link now airtime : Nat} {ampdu : AmpduPacket}
  {s : Sim}

/-- **What a build records**: one record for each packet it sends. -/
theorem build_records (hb : buildNewAmpdu cfg m first link now = some (ampdu, airtime, m')) :
    ∃ records, m'.statsChannel = m.statsChannel ++ records ∧
      records.map StatsUpdate.tS = ampdu.mpduPackets.map MpduPacket.tS ∧
      records.map StatsUpdate.tQ = ampdu.mpduPackets.map MpduPacket.tQ := by
  obtain ⟨records, hchannel, htold⟩ := (buildEffect_of_build hb).records
  refine ⟨records, hchannel, ?_, ?_⟩
  · simpa [Function.comp_def] using congrArg (List.map Prod.fst) htold
  · simpa [Function.comp_def] using congrArg (List.map Prod.snd) htold

theorem tally_build (hb : buildNewAmpdu cfg m first link now = some (ampdu, airtime, m')) :
    ({ s with mac := m' } : Sim).tally
      = { ({ s with mac := m } : Sim).tally with channel := m'.statsChannel } := by
  rw [(buildEffect_of_build hb).state]
  rfl

/-- A build with survivors and a plain airtime is told by its records. -/
theorem told_of_build (hb : buildNewAmpdu cfg m first link now = some (ampdu, airtime, m'))
    (hsurv : SomeSurvives cfg m first link) (hplain : PlainAirtime cfg m first link) :
    ampdu.mpduPackets ≠ [] ∧ airtime ≠ 0 ∧ ∃ records,
      m'.statsChannel = m.statsChannel ++ records ∧
      Told { ampdu with linkId := link } airtime records := by
  have hsent := (someSurvives_iff m).1 hsurv
  have hagg : aggregated cfg m first link ≠ [] := fun hnil => hsent (by rw [sentOf, hnil]; rfl)
  obtain ⟨htime, ⟨hlen, htold⟩, -⟩ := build_times hb hagg
  obtain ⟨records, hchannel, htS, htQ⟩ := build_records hb
  have hpackets : ampdu.mpduPackets ≠ [] := by
    intro hnil
    rw [hnil, List.length_nil] at hlen
    exact hsent (List.eq_nil_of_length_eq_zero hlen.symm)
  have hrefused : (refusedAirtime cfg m first link).getD airtime = airtime := by
    cases hr : refusedAirtime cfg m first link with
    | none => rfl
    | some r =>
      have heq := hplain.2 r hr
      rw [htime] at heq
      exact (Option.some.inj heq).symm
  have hlink : (ampduKey first link).link = link := by
    unfold ampduKey
    split <;> rfl
  refine ⟨hpackets, fun hzero => hplain.1 (by rw [htime, hzero]), records, hchannel,
    ⟨?_, hpackets, htS, htQ, fun u hu => ?_⟩⟩
  · show ampdu.macKey.link = link
    rw [(buildEffect_of_build hb).macKey, hlink]
  · have hmem : u.tS ∈ ampdu.mpduPackets.map MpduPacket.tS := htS ▸ List.mem_map_of_mem hu
    obtain ⟨p, hp, heq⟩ := List.mem_map.1 hmem
    rw [← heq, htold p hp, hrefused]

theorem channel_of_not_survives
    (hb : buildNewAmpdu cfg m first link now = some (ampdu, airtime, m'))
    (hsurv : ¬ SomeSurvives cfg m first link) :
    ampdu.mpduPackets = [] ∧ m'.statsChannel = m.statsChannel := by
  have hsent : sentOf cfg m first link = [] := by
    by_contra hne
    exact hsurv ((someSurvives_iff m).2 hne)
  have hpackets : ampdu.mpduPackets = [] := by
    have h := (buildEffect_of_build hb).packets
    rw [hsent] at h
    exact List.map_eq_nil_iff.1 h
  obtain ⟨records, hchannel, htS, -⟩ := build_records hb
  rw [hpackets, List.map_nil, List.map_eq_nil_iff] at htS
  rw [hchannel, htS, List.append_nil]
  exact ⟨hpackets, rfl⟩

/-- **One iteration of the link loop** that keeps transmissions apart. -/
theorem serveLink_advances {s' : Sim} {x : Nat × List MacKey}
    (hsep : Separate cfg order s x) (h : serveLink cfg order s x = some s') :
    Advances s.tally s'.tally := by
  have hserved := serveLink_cases h
  have hres := tally_resolve order s x
  have hbuild : ∀ {winner first}, contendersOf order s x = [winner] →
      firstPacket cfg (resolveVirtualCollision order x.1 s.mac x.2).2 winner = some first →
      SomeSurvives cfg (resolveVirtualCollision order x.1 s.mac x.2).2 first x.1 →
      s.completions = [] ∧
        PlainAirtime cfg (resolveVirtualCollision order x.1 s.mac x.2).2 first x.1 :=
    fun hc hf => hsep.2 _ (soleContender_eq_some.2 hc) _ hf
  generalize (resolveVirtualCollision order x.1 s.mac x.2).2 = m at hserved hres hbuild
  -- `Separate` excludes collisions, and what goes out finds nothing else in flight.
  cases hserved with
  | idle hc => exact Or.inl hres
  | unused winner hc hf => exact Or.inl hres
  | collided hc => exact absurd hsep.1 (by omega)
  | skipped winner hc first hf ampdu airtime m' hb hskip =>
    by_cases hsurv : SomeSurvives cfg m first x.1
    · obtain ⟨hpackets, hair, -⟩ := told_of_build hb hsurv (hbuild hc hf hsurv).2
      exact absurd hskip (by simp [hpackets, hair])
    · have htally : (skipTransmission { s with mac := m' } x.1 winner).tally = s.tally := by
        refine (tally_scheduleTick _).trans ((tally_build (s := s) hb).trans ?_)
        rw [(channel_of_not_survives hb hsurv).2]
        exact hres
      exact Or.inl htally
  | transmitted winner hc first hf ampdu airtime m' hb hne hair =>
    by_cases hsurv : SomeSurvives cfg m first x.1
    · obtain ⟨hnone, hplain⟩ := hbuild hc hf hsurv
      obtain ⟨-, -, records, hchannel, htold⟩ := told_of_build hb hsurv hplain
      refine Or.inr ⟨hnone, _, airtime, records, htold, ?_⟩
      have hstart : (startTransmission { s with mac := m' } x.1 winner
          { ampdu with linkId := x.1 } airtime).tally
            = { ({ s with mac := m' } : Sim).tally with
                completions := s.completions ++
                  [(s.now + airtime, { ampdu with linkId := x.1 })] } :=
        rfl
      have hmine : m.statsChannel = s.tally.channel := congrArg Tally.channel hres
      rw [hstart, tally_build hb, hres, hchannel, hmine, hnone]
      rfl
    · exact absurd (channel_of_not_survives hb hsurv).1 hne

/-- **The link loop.** -/
theorem serveLinks_advances {xs : List (Nat × List MacKey)} {s' : Sim}
    (hsep : LoopAll cfg order (Separate cfg order) xs s)
    (h : serveLinks cfg order xs s = some s') : Advances s.tally s'.tally := by
  refine serveLinks_preserves (P := fun s' => Advances s.tally s'.tally) ?_ hsep h (Or.inl rfl)
  intro s₁ x s₂ hadvances hx h₁
  exact hadvances.trans (serveLink_advances hx h₁)

/-- **A slot tick** that keeps transmissions apart. -/
theorem tick_advances {s' : Sim} (hsep : TickAll cfg order (Separate cfg order) s)
    (h : dequeScheduleService cfg order s = some s') : Advances s.tally s'.tally := by
  obtain ⟨s₁, h₁, rfl⟩ := Option.map_eq_some_iff.1 h
  have hloop := serveLinks_advances hsep h₁
  have hend : (endTick cfg s₁).tally = s₁.tally := by
    unfold endTick
    split
    · exact tally_scheduleTick s₁
    · rfl
  rw [hend]
  rwa [tally_beginTick] at hloop

end Ticks

/-! ## What a completion drains -/

theorem samples_foldl (us : List StatsUpdate) (q : QueueStats) :
    (us.foldl QueueStats.updateCumstats q).serviceTimeCum.values
        = q.serviceTimeCum.values ++ us.map StatsUpdate.tS ∧
      (us.foldl QueueStats.updateCumstats q).waitingTimeCum.values
        = q.waitingTimeCum.values ++ us.map StatsUpdate.tQ := by
  induction us generalizing q with
  | nil => simp
  | cons u us ih =>
    obtain ⟨hservice, hwaiting⟩ := ih (q.updateCumstats u)
    rw [List.foldl_cons, hservice, hwaiting]
    simp [QueueStats.updateCumstats, CumulativeStats.add]

/-- A window with a success at `now` added, closed first if it is over. -/
def WindowMetrics.succeed (w : WindowMetrics) (mcs d now : Nat) : WindowMetrics :=
  (if w.windowDuration ≤ now - w.windowStart then (w.computeAndReset now).2
    else w).updateMetricsMcsUtil (some mcs) d true

theorem windows_updateWindowStats (m : QueueModule) (key : WindowKey) (mcs d now : Nat) :
    (updateWindowStats m key (some mcs) d true now).windowMetricsMcsUtil
      = Function.update m.windowMetricsMcsUtil key
          ((m.windowMetricsMcsUtil key).succeed mcs d now) := by
  unfold updateWindowStats WindowMetrics.succeed
  dsimp only
  split <;> rfl

/-- A success adds its duration to the transmission time over all windows, whether
or not the window is closed first. -/
theorem WindowMetrics.txTime_succeed (w : WindowMetrics) (mcs d now : Nat) :
    (if (w.succeed mcs d now).windowStart = w.windowStart then 0 else w.staTxTime)
      + (w.succeed mcs d now).staTxTime = w.staTxTime + d := by
  unfold succeed
  split
  · unfold computeAndReset
    dsimp only
    split
    · -- a window of no length is not reset
      simp [updateMetricsMcsUtil]
    · rename_i hlen
      have hstart : now ≠ w.windowStart := by omega
      simp [updateMetricsMcsUtil, reset, hstart]
  · simp [updateMetricsMcsUtil]

/-- The tally after the completion of `a`, whose first drained record is `u`. -/
def Tally.complete (t : Tally) (stop : Nat) (rest : List (Nat × AmpduPacket)) (a : AmpduPacket)
    (u : StatsUpdate) (us : List StatsUpdate) : Tally where
  now := stop
  completions := rest
  delivered := t.delivered ++ [a]
  channel := []
  cumulative := (u :: us).foldl QueueStats.updateCumstats t.cumulative
  windows := Function.update t.windows (a.macKey.sta, a.macKey.link)
    ((t.windows (a.macKey.sta, a.macKey.link)).succeed a.mcsAssigned u.tS stop)

variable {s : Sim}

theorem tally_settle {a : AmpduPacket} {u : StatsUpdate} {us : List StatsUpdate}
    (h : s.mac.statsChannel = u :: us) :
    (settle s a).tally = { s.tally with
      channel := []
      cumulative := (u :: us).foldl QueueStats.updateCumstats s.tally.cumulative
      windows := Function.update s.tally.windows (a.macKey.sta, a.macKey.link)
        ((s.tally.windows (a.macKey.sta, a.macKey.link)).succeed a.mcsAssigned u.tS s.now) } := by
  have hchannel : (s.mac.dcfMut a.macKey fun st => st.onSuccess st.param.cwMin).statsChannel
      = u :: us := h
  have hwindows := windows_updateWindowStats s.mac (a.macKey.sta, a.macKey.link) a.mcsAssigned
    u.tS s.now
  unfold settle drainStats
  rw [hchannel]
  exact congrArg (Tally.mk s.now s.completions s.delivered []
    ((u :: us).foldl QueueStats.updateCumstats s.mac.cumulativeStatsQueue)) hwindows

/-- **A completion** that finds records drains all of them. -/
theorem completed_tally {cfg : MacConfig} {s' : Sim} {i : Nat} (h : Completed cfg s i s') :
    ∃ stop a, s.completions[i]? = some (stop, a) ∧
      ∀ u us, s.mac.statsChannel = u :: us →
        s'.tally = s.tally.complete stop (s.completions.eraseIdx i) a u us := by
  cases h with
  | delivered t a hi hdue s₁ hs₁ =>
    refine ⟨t, a, hi, fun u us hus => ?_⟩
    have htally : (if s₁.mac.anyQueued cfg then scheduleTick s₁ else s₁).tally
        = { s.tally with
            now := t
            completions := s.completions.eraseIdx i
            delivered := s.delivered ++ [a] } := by
      rw [hs₁]
      split
      · exact tally_scheduleTick _
      · rfl
    generalize (if s₁.mac.anyQueued cfg then scheduleTick s₁ else s₁) = s₂ at htally ⊢
    have hchannel : s₂.mac.statsChannel = u :: us := (congrArg Tally.channel htally).trans hus
    have hnow : s₂.now = t := congrArg Tally.now htally
    rw [tally_settle hchannel, htally, hnow]
    rfl

/-! ## Runs -/

/-- The channel holds the records of the A-MPDU in flight, if there is one. -/
inductive InFlight : List Nat → List (Nat × AmpduPacket) → List StatsUpdate → Prop
  | none : InFlight [] [] []
  | one (stop : Nat) (a : AmpduPacket) (d : Nat) (records : List StatsUpdate)
      (htold : Told a d records) : InFlight [d] [(stop, a)] records

theorem InFlight.of_nil {ds : List Nat} {records : List StatsUpdate}
    (h : InFlight ds [] records) : ds = [] ∧ records = [] := by
  cases h
  exact ⟨rfl, rfl⟩

theorem InFlight.of_getElem {ds : List Nat} {cs : List (Nat × AmpduPacket)}
    {records : List StatsUpdate} (h : InFlight ds cs records) {i stop : Nat} {a : AmpduPacket}
    (hi : cs[i]? = some (stop, a)) :
    i = 0 ∧ cs = [(stop, a)] ∧ ∃ d, ds = [d] ∧ Told a d records := by
  cases h with
  | none => cases hi
  | one stop' a' d records htold =>
    rw [List.getElem?_singleton] at hi
    split at hi
    · rename_i hzero
      obtain ⟨rfl, rfl⟩ := Prod.mk.inj (Option.some.inj hi)
      exact ⟨hzero, rfl, d, rfl, htold⟩
    · cases hi

/-- Attribution is right so far, and will be at the next completion. -/
structure Kept (g : Account) (t : Tally) : Prop where
  attributed : Attributed g t
  flight : InFlight g.inFlight t.completions t.channel

/-- Events that complete nothing. -/
def Event.completes : Event → Bool
  | .completion _ => true
  | _ => false

theorem next_of_not_completes {e : Event} (he : e.completes = false) (g : Account) (t t' : Tally) :
    (g.next t e t').inFlight
        = g.inFlight ++ (t'.completions.drop t.completions.length).map (fun c => c.1 - t'.now) ∧
      (g.next t e t').completed = g.completed := by
  cases e <;> first | exact ⟨rfl, rfl⟩ | cases he

/-- **An event that completes nothing** and keeps transmissions apart. -/
theorem Kept.advance {g : Account} {t t' : Tally} {e : Event} {n : Nat} (h : Kept g t)
    (he : e.completes = false) (hadv : Advances { t with now := n } t') :
    Kept (g.next t e t') t' := by
  obtain ⟨hair, hcompleted⟩ := next_of_not_completes he g t t'
  have hclosed : ∀ w, t'.windows = t.windows → (g.next t e t').closed w = g.closed w := by
    intro w hw
    show g.closed w + (if (t'.windows w).windowStart = _ then 0 else _) = _
    rw [hw, if_pos rfl, Nat.add_zero]
  obtain ⟨⟨htx, hservice, hwaiting⟩, hflight⟩ := h
  -- Nothing happens on the air, or one A-MPDU goes out while none is in flight.
  rcases hadv with rfl | ⟨hnone, a, d, records, htold, rfl⟩
  · refine ⟨⟨fun w => ?_, hservice, hwaiting⟩, ?_⟩
    · rw [hclosed w rfl, hcompleted]
      exact htx w
    · rw [hair, List.drop_length, List.map_nil, List.append_nil]
      exact hflight
  · have hnone : t.completions = [] := hnone
    refine ⟨⟨fun w => ?_, hservice, hwaiting⟩, ?_⟩
    · rw [hclosed w rfl, hcompleted]
      exact htx w
    · rw [hnone] at hflight hair
      obtain ⟨hds, hchannel⟩ := hflight.of_nil
      have hflown : n + d - n = d := by omega
      rw [hair, hds]
      show InFlight [n + d - n] [(n + d, a)] (t.channel ++ records)
      rw [hchannel, List.nil_append, hflown]
      exact .one (n + d) a d records htold

/-- **A completion** while only its own records are in the channel. -/
theorem Kept.complete {g : Account} {t : Tally} {i stop : Nat} {a : AmpduPacket} (h : Kept g t)
    (hi : t.completions[i]? = some (stop, a)) :
    ∃ u us, t.channel = u :: us ∧
      let t' := t.complete stop (t.completions.eraseIdx i) a u us
      Kept (g.next t (.completion i) t') t' := by
  obtain ⟨⟨htx, hservice, hwaiting⟩, hflight⟩ := h
  obtain ⟨rfl, hone, d, hds, htold⟩ := hflight.of_getElem hi
  obtain ⟨u, us, hus⟩ : ∃ u us, t.channel = u :: us := by
    refine List.exists_cons_of_ne_nil fun hnil => htold.packets ?_
    have hnone := htold.service
    rw [hnil] at hnone
    exact List.map_eq_nil_iff.1 hnone.symm
  -- the first record is its own and carries its airtime
  have htS : u.tS = d := htold.airtime u (by rw [hus]; exact List.mem_cons_self)
  have hsender : (a.macKey.sta, a.macKey.link) = a.sender := by
    rw [htold.link]
    rfl
  obtain ⟨hnewS, hnewQ⟩ := samples_foldl (u :: us) t.cumulative
  have hcompleted : ∀ w, (g.next t (.completion 0)
      (t.complete stop (t.completions.eraseIdx 0) a u us)).completed w
        = g.completed w + if a.sender = w then d else 0 := by
    intro w
    simp [Account.next, hone, hds]
  refine ⟨u, us, hus, ⟨⟨fun w => ?_, ?_, ?_⟩, ?_⟩⟩
  · have hw := htx w
    rw [hcompleted w]
    show g.closed w + (if (Function.update t.windows _ _ w).windowStart = _ then 0 else _)
      + (Function.update t.windows _ _ w).staTxTime = _
    rw [hsender, htS]
    by_cases hkey : a.sender = w
    · subst hkey
      have hsum := (t.windows a.sender).txTime_succeed a.mcsAssigned d stop
      rw [Function.update_self, if_pos rfl]
      omega
    · rw [Function.update_of_ne fun e => hkey e.symm, if_pos rfl, if_neg hkey]
      omega
  · show ((u :: us).foldl QueueStats.updateCumstats t.cumulative).serviceTimeCum.values
      = (t.delivered ++ [a]).flatMap _
    rw [hnewS, hservice, List.flatMap_append, ← hus, htold.service, List.flatMap_singleton]
  · show ((u :: us).foldl QueueStats.updateCumstats t.cumulative).waitingTimeCum.values
      = (t.delivered ++ [a]).flatMap _
    rw [hnewQ, hwaiting, List.flatMap_append, ← hus, htold.waiting, List.flatMap_singleton]
  · show InFlight (g.inFlight.eraseIdx 0) (t.completions.eraseIdx 0) []
    rw [hds, hone]
    exact .none

theorem arrival_tally {cfg : MacConfig} {ul : Bool} {s' : Sim} {p : MpduPacket}
    (h : Arrived cfg ul s p s') : s'.tally = s.tally := by
  cases h with
  | ignored qlc rng why => rfl
  | refused qlc rng hdir => rfl
  | stored qlc rng k q hdir hk hown hl htriple hroom hap =>
    unfold enqueue
    dsimp only
    split
    · exact tally_scheduleTick _
    · rfl

/-- **One event** that keeps transmissions apart. -/
theorem Kept.step {cfg : MacConfig} {g : Account} {s' : Sim} {e : Event} (h : Kept g s.tally)
    (hsep : Separated cfg s e) (hstep : step cfg s e = some s') :
    Kept (g.next s.tally e s'.tally) s'.tally := by
  cases step_cases hstep with
  | offer ul t p hdue s' harr =>
    exact h.advance (n := t) (by cases ul <;> rfl) (Or.inl (arrival_tally harr))
  | coords t sta c hdue => exact h.advance (n := t) rfl (Or.inl rfl)
  | tick t order hdue ht s' htick =>
    have hadv : Advances (s.atTick t).tally s'.tally := tick_advances hsep htick
    exact h.advance rfl hadv
  | completion i s' hc =>
    obtain ⟨stop, a, hi, hdrained⟩ := completed_tally hc
    obtain ⟨u, us, hus, hkept⟩ := h.complete hi
    rw [hdrained u us hus]
    exact hkept

/-- **Transmission times and samples are attributed** in every run without
collisions in which no transmission starts while one is in flight, and none whose
aggregation is ended by a candidate with another airtime. -/
theorem statistics_attributed {cfg : MacConfig} {es : List Event} {s : Sim}
    (h : Run (step cfg) (Separated cfg) (Sim.new cfg) es s) :
    Attributed (account cfg es) s.tally := by
  have hstart : Kept {} (Sim.new cfg).tally := ⟨⟨fun _ => rfl, rfl, rfl⟩, .none⟩
  have hkept : Kept (observe (step cfg) (fun g s e s' => g.next s.tally e s'.tally) {}
      (Sim.new cfg) es) s.tally :=
    h.observe_invariant (P := fun g s => Kept g s.tally) hstart
      fun _ _ _ _ hk hsep hs => hk.step hsep hs
  exact hkept.attributed

/-- An A-MPDU of two packets from station 201, and later one from station 200. -/
def twoDeliveries : List Event :=
  [.inputUL 0 (plainPacket 201 100 0), .inputUL 0 (plainPacket 201 100 1), .tick 9000 .insertion,
    .completion 0, .inputUL 300000 (plainPacket 200 100 0), .tick 309000 .insertion, .completion 0]

/-- Each station has the airtime of its own A-MPDU, and there are three samples. -/
theorem statistics_attributed_two :
    ∃ s, Run (step twoStations) (Separated twoStations) (Sim.new twoStations) twoDeliveries s ∧
      [200, 201].map (fun sta => (s.tally.windows (sta, 0)).staTxTime) = [236000, 236000] ∧
      s.tally.delivered.map (fun a => a.mpduPackets.length) = [2, 1] ∧
      Attributed (account twoStations twoDeliveries) s.tally := by
  have hok : allOk (step twoStations) (Separated twoStations) (Sim.new twoStations)
      twoDeliveries := by
    decide +kernel
  have hruns : (runs (step twoStations) (Sim.new twoStations) twoDeliveries).map
      (fun s => ([200, 201].map fun sta => (s.tally.windows (sta, 0)).staTxTime,
        s.tally.delivered.map fun a => a.mpduPackets.length))
      = some ([236000, 236000], [2, 1]) := by
    decide +kernel
  obtain ⟨s, hs, heq⟩ := Option.map_eq_some_iff.1 hruns
  obtain ⟨htx, hdelivered⟩ := Prod.mk.inj heq
  have h := Run.of_runs hok hs
  exact ⟨s, h, htx, hdelivered, statistics_attributed h⟩

/-- Two stations of which the second draws longer back-offs after its first. -/
def contested : MacConfig :=
  { twoStations with
    edcafDraws := fun k n => if k.sta = 201 then 2 * n else 0 }

/-- Both stations collide in their first slot; then station 200 transmits. -/
def collisionThenDelivery : List Event :=
  [.inputUL 0 (plainPacket 200 100 0), .inputUL 0 (plainPacket 201 100 0), .tick 9000 .insertion,
    .tick 85000 .insertion, .tick 94000 .insertion, .tick 103000 .insertion,
    .tick 112000 .insertion, .tick 121000 .insertion, .tick 130000 .insertion, .completion 0]

/-- Two stations and two links, on which the access point transmits at once. -/
def parallelLinks : MacConfig :=
  plainConfig [200, 201] [0, 1] twoStations.staIds_nodup twoStations.ap_notMem twoLinks.links_nodup

/-- A short packet for station 200 and a long one for station 201. -/
def parallelDeliveries : List Event :=
  [.coords 0 200 {}, .coords 0 201 {}, .input 0 (plainPacket 100 200 0),
    .input 0 { plainPacket 101 201 0 with lengthPacketBits := 24000 }, .tick 9000 .insertion,
    .completion 0, .completion 0]

/-- After a collision the 236 µs of the A-MPDU are booked as the 0 of the collision's
first record, and its one packet gives three samples. On two links, the first
completion drains the records of both, and the 252 µs of the second are not booked. -/
theorem statistics_misattributed :
    (∃ s, MacRun contested collisionThenDelivery s ∧
      (account contested collisionThenDelivery).completed (200, 0) = 236000 ∧
      (account contested collisionThenDelivery).closed (200, 0)
        + (s.tally.windows (200, 0)).staTxTime = 0 ∧
      s.tally.cumulative.serviceTimeCum.values = [0, 0, 236000] ∧
      s.tally.delivered.map (fun a => a.mpduPackets.length) = [1]) ∧
    ∃ s, MacRun parallelLinks parallelDeliveries s ∧
      (account parallelLinks parallelDeliveries).completed (-1, 1) = 252000 ∧
      (account parallelLinks parallelDeliveries).closed (-1, 1)
        + (s.tally.windows (-1, 1)).staTxTime = 0 := by
  have hcollision : (runs (step contested) (Sim.new contested) collisionThenDelivery).map (fun s =>
      ((account contested collisionThenDelivery).completed (200, 0),
        (account contested collisionThenDelivery).closed (200, 0)
          + (s.tally.windows (200, 0)).staTxTime,
        s.tally.cumulative.serviceTimeCum.values,
        s.tally.delivered.map fun a => a.mpduPackets.length))
      = some (236000, 0, [0, 0, 236000], [1]) := by
    decide +kernel
  have hparallel : (runs (step parallelLinks) (Sim.new parallelLinks) parallelDeliveries).map
      (fun s => ((account parallelLinks parallelDeliveries).completed (-1, 1),
        (account parallelLinks parallelDeliveries).closed (-1, 1)
          + (s.tally.windows (-1, 1)).staTxTime)) = some (252000, 0) := by
    decide +kernel
  obtain ⟨s, hs, heq⟩ := exists_run_of_map hcollision
  obtain ⟨s', hs', heq'⟩ := exists_run_of_map hparallel
  simp only [Prod.mk.injEq] at heq heq'
  exact ⟨⟨s, hs, heq⟩, s', hs', heq'⟩

end SiestaVR.Mac
