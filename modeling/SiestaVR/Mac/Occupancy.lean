import SiestaVR.Mac.Radio
import SiestaVR.Lib.CarrierSense

/-!
# Occupations of a link exclude each other

The MAC refines the carrier sensing of `Lib.CarrierSense`: channels are links,
users are contention functions, the waiting time of a function is its
arbitration space. `Sim.channels` reads the abstract state off a state of the
MAC, and every event corresponds to a series of abstract steps
(`step_channels`). The refinement needs one invariant of the code, `Tuned`: the
`medium_free_since` of every contention function is the `busy_until` of its
link, so that the test in `tick_backoff` is the one of the abstract model.

A tick decides for all links with the functions that were ready when it began;
serving one link freezes only that link, so the others are still entitled when
their turn comes (`serveLinks_entitled`).
-/

namespace SiestaVR.Mac

open Lib

/-- The arbitration space of a contention function. -/
def arbitration (k : MacKey) : Nat := aifs (edcaTable k.ac)

/-- An occupation as the abstract model logs it. -/
def Occupation.use (o : Occupation) : Use MacKey Nat := ⟨o.link, o.start, o.stop, o.contenders⟩

/-- The channels of a state. -/
def Sim.channels (s : Sim) : Channels MacKey Nat where
  now := s.now
  busyUntil := fun l => (s.mac.linkMediums l).busyUntil
  frozen := fun k => (s.mac.dcfValues k).backoffFrozen
  log := s.occupations.map Occupation.use

/-- Series of abstract steps with the MAC's links and arbitration spaces. -/
abbrev AirSteps (s s' : Sim) : Prop := Channels.Steps MacKey.link arbitration s.channels s'.channels

/-- Every contention function has its category's parameters and knows since when
its link is free. -/
structure Tuned (m : QueueModule) : Prop where
  param : ∀ k, (m.dcfValues k).param = edcaTable k.ac
  freeSince : ∀ k, (m.dcfValues k).mediumFreeSince = (m.linkMediums k.link).busyUntil

/-! ## What leaves the air alone -/

/-- Nothing changed that carrier sensing reads. -/
structure SameAir (m m' : QueueModule) : Prop where
  busy : ∀ l, (m'.linkMediums l).busyUntil = (m.linkMediums l).busyUntil
  sensing : SameSensing m.dcfValues m'.dcfValues

section SameAir

variable {m m' m'' : QueueModule}

theorem SameAir.trans (h : SameAir m m') (h' : SameAir m' m'') : SameAir m m'' :=
  ⟨fun l => (h'.busy l).trans (h.busy l), h.sensing.trans h'.sensing⟩

theorem SameAir.of_eq (hm : m'.linkMediums = m.linkMediums) (hd : m'.dcfValues = m.dcfValues) :
    SameAir m m' :=
  ⟨fun _ => by rw [hm], by rw [hd]; exact .refl _⟩

theorem SameAir.of_radio (h : m'.radio = m.radio) : SameAir m m' :=
  .of_eq (congrArg Radio.mediums h) (congrArg Radio.dcf h)

theorem SameAir.tuned (h : SameAir m m') (ht : Tuned m) : Tuned m' where
  param := fun k => (h.sensing.param k).trans (ht.param k)
  freeSince := fun k => by rw [h.sensing.freeSince k, ht.freeSince k, h.busy k.link]

theorem SameAir.channels {s s' : Sim} (h : SameAir s.mac s'.mac) (hnow : s'.now = s.now)
    (hlog : s'.occupations = s.occupations) : s'.channels = s.channels := by
  unfold Sim.channels
  rw [hnow, hlog]
  congr 1
  · funext l
    exact h.busy l
  · funext k
    exact h.sensing.frozen k

theorem sameAir_scheduleTick (s : Sim) : SameAir s.mac (scheduleTick s).mac := by
  unfold scheduleTick
  split
  · exact .of_radio rfl
  · exact .of_eq rfl rfl

theorem scheduleTick_now (s : Sim) : (scheduleTick s).now = s.now := by
  unfold scheduleTick
  split <;> rfl

theorem scheduleTick_occupations (s : Sim) : (scheduleTick s).occupations = s.occupations := by
  unfold scheduleTick
  split <;> rfl

theorem scheduleTick_channels {s s₁ : Sim} (h : Tuned s₁.mac ∧ AirSteps s s₁) :
    Tuned (scheduleTick s₁).mac ∧ AirSteps s (scheduleTick s₁) := by
  have hair := sameAir_scheduleTick s₁
  refine ⟨hair.tuned h.1, ?_⟩
  rw [AirSteps, hair.channels (scheduleTick_now s₁) (scheduleTick_occupations s₁)]
  exact h.2

theorem sameAir_resolve (order : HashOrder) (link : Nat) (m : QueueModule) (ready : List MacKey) :
    SameAir m (resolveVirtualCollision order link m ready).2 := by
  obtain ⟨⟨d, hd, hm⟩, -⟩ := resolve_spec order link m ready
  rw [hm]
  exact ⟨fun _ => rfl, hd⟩

theorem sameAir_build {cfg : MacConfig} {first : MpduPacket} {link now airtime : Nat}
    {ampdu : AmpduPacket} (h : buildNewAmpdu cfg m first link now = some (ampdu, airtime, m')) :
    SameAir m m' := by
  have hr := radio_build h
  have hm : m'.linkMediums = m.linkMediums := congrArg Radio.mediums hr
  have hd : m'.dcfValues = m.dcfValues := congrArg Radio.dcf hr
  exact .of_eq hm hd

end SameAir

/-! ## What occupies a link -/

section Occupy

/-- Setting the medium busy and freezing the link is an occupation of the
abstract channel. -/
theorem occupy_channels (s s' : Sim) (o : Occupation) {d : MacKey → DcfStats} (ht : Tuned s.mac)
    (hne : o.contenders ≠ [])
    (hawake : ∀ k ∈ o.contenders, k.link = o.link ∧ (s.mac.dcfValues k).backoffFrozen = false)
    (hstart : o.start = s.now) (hstop : s.now ≤ o.stop) (hd : SameSensing s.mac.dcfValues d)
    (hbusy : ∀ l, (s'.mac.linkMediums l).busyUntil
      = if l = o.link then o.stop else (s.mac.linkMediums l).busyUntil)
    (hdcf : s'.mac.dcfValues = frozenFrom d o.link o.stop) (hnow : s'.now = s.now)
    (hlog : s'.occupations = o :: s.occupations) : Tuned s'.mac ∧ AirSteps s s' := by
  refine ⟨⟨fun k => ?_, fun k => ?_⟩, ?_⟩
  · rw [hdcf, frozenFrom]
    split
    · rw [DcfStats.freeze_param, hd.param k, ht.param k]
    · rw [hd.param k, ht.param k]
  · rw [hdcf, frozenFrom, hbusy]
    split
    · rfl
    · rw [hd.freeSince k, ht.freeSince k]
  · have hfrozen : ∀ k, (s'.mac.dcfValues k).backoffFrozen
        = if k.link = o.link then true else (s.mac.dcfValues k).backoffFrozen := by
      intro k
      rw [hdcf, frozenFrom]
      split
      · rfl
      · exact hd.frozen k
    -- This is the one step of the channel that needs awake contenders.
    have hstep : Channels.Step MacKey.link arbitration s.channels _ :=
      .occupy s.channels o.link o.stop o.contenders hne hawake hstop s'.channels.frozen hfrozen
    refine .single (Eq.mp (congrArg _ ?_) hstep)
    unfold Sim.channels
    rw [hnow, hlog, List.map_cons, Occupation.use, hstart]
    congr 1
    funext l
    rw [hbusy, Function.update_apply]

end Occupy

/-! ## The link loop -/

section Loop

variable {cfg : MacConfig} {order : HashOrder}

/-- The listed contention functions are on their link and not frozen. -/
def Entitled (s : Sim) (x : Nat × List MacKey) : Prop :=
  ∀ k ∈ x.2, k.link = x.1 ∧ (s.mac.dcfValues k).backoffFrozen = false

/-- What one iteration does to the air: it keeps the clock and concerns its own
link only. -/
structure LinkServed (s : Sim) (link : Nat) (s' : Sim) : Prop where
  tuned : Tuned s'.mac
  steps : AirSteps s s'
  others : ∀ k : MacKey, k.link ≠ link →
    (s'.mac.dcfValues k).backoffFrozen = (s.mac.dcfValues k).backoffFrozen

theorem LinkServed.of_sameAir {s s' : Sim} {link : Nat} (ht : Tuned s.mac)
    (h : SameAir s.mac s'.mac) (hnow : s'.now = s.now)
    (hlog : s'.occupations = s.occupations) : LinkServed s link s' :=
  ⟨h.tuned ht, by rw [AirSteps, h.channels hnow hlog], fun k _ => h.sensing.frozen k⟩

theorem sameAir_onFailure (m : QueueModule) (k : MacKey) :
    SameAir m (m.dcfMut k fun st => st.onFailure.2) :=
  ⟨fun _ => rfl, sameSensing_onFailure m.dcfValues k⟩

theorem sameAir_onSuccess (m : QueueModule) (k : MacKey) :
    SameAir m (m.dcfMut k fun st => st.onSuccess st.param.cwMin) :=
  ⟨fun _ => rfl, sameSensing_onSuccess m.dcfValues k _⟩

/-- An iteration that occupies the link, from a state with the same air. -/
theorem LinkServed.of_occupation {s s' : Sim} {m : QueueModule} {d : MacKey → DcfStats}
    (o : Occupation) (ht : Tuned s.mac) (hsame : SameAir s.mac m) (hne : o.contenders ≠ [])
    (hawake : ∀ k ∈ o.contenders, k.link = o.link ∧ (m.dcfValues k).backoffFrozen = false)
    (hstart : o.start = s.now) (hstop : s.now ≤ o.stop) (hd : SameSensing m.dcfValues d)
    (hbusy : ∀ l, (s'.mac.linkMediums l).busyUntil =
      if l = o.link then o.stop else (m.linkMediums l).busyUntil)
    (hdcf : s'.mac.dcfValues = frozenFrom d o.link o.stop) (hnow : s'.now = s.now)
    (hlog : s'.occupations = o :: s.occupations) : LinkServed s o.link s' := by
  obtain ⟨htuned, hsteps⟩ := occupy_channels { s with mac := m } s' o (hsame.tuned ht) hne hawake
    hstart hstop hd hbusy hdcf hnow hlog
  have hchannels : ({ s with mac := m } : Sim).channels = s.channels := hsame.channels rfl rfl
  refine ⟨htuned, ?_, fun k hk => ?_⟩
  · rwa [AirSteps, hchannels] at hsteps
  · rw [hdcf, frozenFrom, if_neg hk, hd.frozen k, hsame.sensing.frozen k]

theorem busyUntil_collideMac (m : QueueModule) (now link : Nat) (contenders : List MacKey)
    (l : Nat) :
    ((collideMac m now link contenders).linkMediums l).busyUntil =
      if l = link then now + collisionDelay else (m.linkMediums l).busyUntil := by
  obtain ⟨d, -, hradio⟩ := radio_collideMac m now link contenders
  have hm : (collideMac m now link contenders).linkMediums l =
      Function.update m.linkMediums link _ l := congrFun (congrArg Radio.mediums hradio) l
  rw [hm, Function.update_apply]
  split <;> rfl

/-- **One iteration of the link loop**, on the air. -/
theorem serveLink_channels {s s' : Sim} {x : Nat × List MacKey} (ht : Tuned s.mac)
    (hx : Entitled s x) (h : serveLink cfg order s x = some s') : LinkServed s x.1 s' := by
  have hserved := serveLink_cases h
  have hres := sameAir_resolve order x.1 s.mac x.2
  have hawake : ∀ k ∈ contendersOf order s x, k.link = x.1 ∧
      ((resolveVirtualCollision order x.1 s.mac x.2).2.dcfValues k).backoffFrozen = false := by
    intro k hk
    obtain ⟨hlink, hfrozen⟩ := hx k ((resolve_spec order x.1 s.mac x.2).2 k hk)
    exact ⟨hlink, (hres.sensing.frozen k).trans hfrozen⟩
  generalize (resolveVirtualCollision order x.1 s.mac x.2).2 = m at hserved hres hawake
  -- Collisions and transmissions occupy the channel; the other outcomes are not heard.
  cases hserved with
  | idle hc => exact .of_sameAir ht hres rfl rfl
  | unused winner hc hf => exact .of_sameAir ht (hres.trans (sameAir_onSuccess m winner)) rfl rfl
  | collided hc =>
    obtain ⟨d, hd, hradio⟩ := radio_collideMac m s.now x.1 (contendersOf order s x)
    have hne : contendersOf order s x ≠ [] :=
      List.ne_nil_of_length_pos (Nat.lt_of_lt_of_le Nat.zero_lt_two hc)
    exact .of_occupation ⟨x.1, s.now, s.now + collisionDelay, contendersOf order s x, true⟩ ht hres
      hne hawake rfl (Nat.le_add_right _ _) hd (busyUntil_collideMac m s.now x.1 _)
      (congrArg Radio.dcf hradio) rfl rfl
  | skipped winner hc first hf ampdu airtime m' hb hskip =>
    have hidle : SameAir m' (m'.setTransmitting x.1 false) := .of_eq rfl rfl
    have hfail := hidle.trans (sameAir_onFailure (m'.setTransmitting x.1 false) winner)
    have htick := sameAir_scheduleTick { s with
      mac := (m'.setTransmitting x.1 false).dcfMut winner fun st => st.onFailure.2 }
    have hair := ((hres.trans (sameAir_build hb)).trans hfail).trans htick
    exact .of_sameAir ht hair (scheduleTick_now _) (scheduleTick_occupations _)
  | transmitted winner hc first hf ampdu airtime m' hb hne hair =>
    have hbuild := sameAir_build hb
    have hbusy : ∀ l, (Function.update m'.linkMediums x.1
          ((m'.linkMediums x.1).startTxop s.now (s.now + airtime) winner) l).busyUntil
        = if l = x.1 then s.now + airtime else (m'.linkMediums l).busyUntil := by
      intro l
      rw [Function.update_apply]
      split <;> rfl
    have hwinner : ∀ k ∈ [winner], k.link = x.1 ∧ (m'.dcfValues k).backoffFrozen = false := by
      intro k hk
      obtain ⟨hlink, hfrozen⟩ := hawake k (by rw [hc]; exact hk)
      exact ⟨hlink, (hbuild.sensing.frozen k).trans hfrozen⟩
    exact .of_occupation ⟨x.1, s.now, s.now + airtime, [winner], false⟩ ht (hres.trans hbuild)
      (List.cons_ne_nil _ _) hwinner rfl (Nat.le_add_right _ _) (.refl m'.dcfValues) hbusy rfl rfl
      rfl

/-- **Rule for the link loop of a tick**: what every iteration keeps, given that
its functions are entitled, the loop keeps. Whoever was ready when the tick
began is still entitled when its link is served. -/
theorem serveLinks_entitled {R : Sim → Nat × List MacKey → Prop} {P : Sim → Prop}
    (hP : ∀ s x s', P s → Tuned s.mac → Entitled s x → R s x →
      serveLink cfg order s x = some s' → P s')
    {xs : List (Nat × List MacKey)} {s s' : Sim} (hn : (xs.map Prod.fst).Nodup)
    (ht : Tuned s.mac) (hx : ∀ x ∈ xs, Entitled s x) (hR : LoopAll cfg order R xs s)
    (h : serveLinks cfg order xs s = some s') (hs : P s) : P s' ∧ Tuned s'.mac := by
  induction xs generalizing s with
  | nil =>
    obtain rfl : s = s' := by simpa [serveLinks] using h
    exact ⟨hs, ht⟩
  | cons x xs ih =>
    obtain ⟨s₁, h₁, h₂⟩ := Option.bind_eq_some_iff.1 h
    rw [List.map_cons, List.nodup_cons] at hn
    have hx₀ := hx x List.mem_cons_self
    obtain ⟨ht₁, -, hothers⟩ := serveLink_channels ht hx₀ h₁
    have hxs : ∀ y ∈ xs, Entitled s₁ y := by
      intro y hy k hk
      obtain ⟨hlink, hfrozen⟩ := hx y (List.mem_cons_of_mem x hy) k hk
      have hne : k.link ≠ x.1 := fun heq =>
        hn.1 (List.mem_map.2 ⟨y, hy, hlink.symm.trans heq⟩)
      exact ⟨hlink, (hothers k hne).trans hfrozen⟩
    exact ih hn.2 ht₁ hxs (hR.2 s₁ h₁) h₂ (hP s x s₁ hs ht hx₀ hR.1 h₁)

end Loop

/-! ## Ticks -/

section Ticks

namespace DcfStats

variable (st : DcfStats) (idle : Bool) (now : Nat)

theorem slot_param : (st.slot idle now).param = st.param := by
  unfold slot unfreeze
  split <;> split <;> rfl

theorem slot_freeSince : (st.slot idle now).mediumFreeSince = st.mediumFreeSince := by
  unfold slot unfreeze
  split <;> split <;> rfl

/-- A slot wakes a contention function only after its arbitration space. -/
theorem slot_awake (h : (st.slot idle now).backoffFrozen = false) :
    st.backoffFrozen = false ∨ st.mediumFreeSince + aifs st.param ≤ now := by
  have hslot : (st.slot idle now).backoffFrozen = (st.unfreeze idle now).backoffFrozen := by
    unfold slot
    split <;> rfl
  rw [hslot, unfreeze] at h
  split at h
  · rename_i hcond
    simp only [Bool.and_eq_true, decide_eq_true_eq] at hcond
    exact Or.inr hcond.2
  · exact Or.inl h

end DcfStats

variable (cfg : MacConfig) (order : HashOrder) {s s' : Sim}

/-- `tick_backoff` does nothing to a contention function, or gives it one slot. -/
theorem tickBackoff_slot (m : QueueModule) (now : Nat) (k : MacKey) :
    (tickBackoff m now).dcfValues k = m.dcfValues k ∨
      ∃ idle, (tickBackoff m now).dcfValues k = (m.dcfValues k).slot idle now := by
  unfold tickBackoff
  dsimp only
  split
  · exact Or.inr ⟨_, rfl⟩
  · exact Or.inl rfl

theorem tickBackoff_busyUntil (m : QueueModule) (now l : Nat) :
    ((tickBackoff m now).linkMediums l).busyUntil = (m.linkMediums l).busyUntil :=
  Medium.clearIfIdle_busyUntil ..

theorem tuned_tickBackoff {m : QueueModule} (h : Tuned m) (now : Nat) :
    Tuned (tickBackoff m now) := by
  refine ⟨fun k => ?_, fun k => ?_⟩
  · rcases tickBackoff_slot m now k with hk | ⟨idle, hk⟩
    · rw [hk, h.param k]
    · rw [hk, DcfStats.slot_param, h.param k]
  · rw [tickBackoff_busyUntil]
    rcases tickBackoff_slot m now k with hk | ⟨idle, hk⟩
    · rw [hk, h.freeSince k]
    · rw [hk, DcfStats.slot_freeSince, h.freeSince k]

theorem tickBackoff_awake {m : QueueModule} (h : Tuned m) {now : Nat} {k : MacKey}
    (hk : ((tickBackoff m now).dcfValues k).backoffFrozen = false) :
    (m.dcfValues k).backoffFrozen = false ∨
      (m.linkMediums k.link).busyUntil + arbitration k ≤ now := by
  rcases tickBackoff_slot m now k with heq | ⟨idle, heq⟩
  · rw [heq] at hk
    exact Or.inl hk
  · rw [heq] at hk
    refine ((m.dcfValues k).slot_awake idle now hk).imp_right fun hfree => ?_
    rw [h.freeSince k, h.param k] at hfree
    exact hfree

theorem beginTick_channels (ht : Tuned s.mac) :
    Tuned (beginTick cfg order s).mac ∧ AirSteps s (beginTick cfg order s) := by
  have hpass := radio_overflowPass cfg { s.mac with slotTickPending := false } order
  set m := overflowPass cfg order { s.mac with slotTickPending := false } with hm
  have hair : SameAir s.mac m := .of_eq (congrArg Radio.mediums hpass) (congrArg Radio.dcf hpass)
  have htm := hair.tuned ht
  refine ⟨tuned_tickBackoff htm s.now, ?_⟩
  -- only flags fall, so it is one abstract step
  have hsame : (beginTick cfg order s).channels
      = { s.channels with frozen := (beginTick cfg order s).channels.frozen } := by
    show Channels.mk s.now (fun l => ((tickBackoff m s.now).linkMediums l).busyUntil) _ _
      = Channels.mk s.now (fun l => (s.mac.linkMediums l).busyUntil) _ _
    simp only [tickBackoff_busyUntil, hair.busy]
    rfl
  rw [AirSteps, hsame]
  refine .single (.wake s.channels _ fun k hk => ?_)
  have hawake := tickBackoff_awake htm hk
  rw [hair.sensing.frozen k, hair.busy k.link] at hawake
  exact hawake

variable {cfg order}

theorem tickLinks_entitled : ∀ x ∈ tickLinks cfg order s, Entitled (beginTick cfg order s) x := by
  intro x hx k hk
  have hx' := (order.links_perm _).mem_iff.1 hx
  obtain ⟨l, -, rfl⟩ := List.mem_map.1 hx'
  have hready := (List.mem_filter.1 hk).2
  simp only [DcfStats.isReady, Bool.and_eq_true, decide_eq_true_eq, Bool.not_eq_true'] at hready
  exact ⟨hready.1.1, hready.2.2⟩

theorem tickLinks_nodup : ((tickLinks cfg order s).map Prod.fst).Nodup := by
  refine (((order.links_perm _).map Prod.fst).nodup_iff).2 ?_
  unfold readyPerLink
  rw [List.map_map]
  have hid : (Prod.fst ∘ fun l => (l, readyOn cfg (beginTick cfg order s).mac l)) = id := rfl
  rw [hid, List.map_id]
  exact cfg.links_nodup.filter _

/-- **A slot tick**, on the air. -/
theorem tick_channels (ht : Tuned s.mac) (h : dequeScheduleService cfg order s = some s') :
    Tuned s'.mac ∧ AirSteps s s' := by
  obtain ⟨s₁, hloop, rfl⟩ := Option.map_eq_some_iff.1 h
  obtain ⟨ht₀, hbegin⟩ := beginTick_channels cfg order ht
  obtain ⟨hserve, ht₁⟩ := serveLinks_entitled (P := fun s₁ => AirSteps s s₁)
    (fun s x s' hs ht hx _ hstep => hs.trans (serveLink_channels ht hx hstep).steps)
    tickLinks_nodup ht₀ tickLinks_entitled (LoopAll.of_forall (fun _ _ => True.intro) _ _) hloop
    hbegin
  unfold endTick
  split
  · exact scheduleTick_channels ⟨ht₁, hserve⟩
  · exact ⟨ht₁, hserve⟩

end Ticks

/-! ## Runs -/

section Runs

variable {cfg : MacConfig}

theorem waits_channels {s s' : Sim} {t : Nat} (ht : Tuned s.mac) (hnow : s.now ≤ t)
    (hair : SameAir s.mac s'.mac) (ht' : s'.now = t) (hlog : s'.occupations = s.occupations) :
    Tuned s'.mac ∧ AirSteps s s' := by
  refine ⟨hair.tuned ht, ?_⟩
  have hsame : s'.channels = ({ s with now := t } : Sim).channels :=
    SameAir.channels (s := { s with now := t }) hair ht' hlog
  rw [AirSteps, hsame]
  exact .single (.wait s.channels t hnow)

theorem due_now {s : Sim} {t : Nat} (h : due s t = true) : s.now ≤ t := by
  unfold due at h
  simp only [Bool.and_eq_true, decide_eq_true_eq] at h
  exact h.1.1

/-- The end of a transmission, on the air: the medium was busy until now. -/
theorem sameAir_delivery (s : Sim) (ampdu : AmpduPacket) :
    SameAir s.mac (delivery s ampdu).mac := by
  refine ⟨fun l => ?_, .refl _⟩
  show (Function.update s.mac.linkMediums ampdu.linkId _ l).busyUntil = _
  rw [Function.update_apply]
  split
  · rename_i hl
    rw [Medium.releaseTxop_busyUntil, hl]
  · rfl

theorem sameAir_settle (s : Sim) (ampdu : AmpduPacket) : SameAir s.mac (settle s ampdu).mac :=
  (sameAir_onSuccess s.mac ampdu.macKey).trans (.of_radio (radio_drainStats ..))

theorem completion_channels {s s' : Sim} {i : Nat} (ht : Tuned s.mac) (h : Completed cfg s i s') :
    Tuned s'.mac ∧ AirSteps s s' := by
  cases h with
  | delivered t ampdu hi hdue s₁ hs₁ =>
    have hdelivered : Tuned s₁.mac ∧ AirSteps s s₁ := by
      subst hs₁
      have hair := sameAir_delivery
        { s with now := t, completions := s.completions.eraseIdx i } ampdu
      exact waits_channels ht (due_now hdue) hair rfl rfl
    have htick : Tuned (if s₁.mac.anyQueued cfg then scheduleTick s₁ else s₁).mac ∧
        AirSteps s (if s₁.mac.anyQueued cfg then scheduleTick s₁ else s₁) := by
      split
      · exact scheduleTick_channels hdelivered
      · exact hdelivered
    generalize (if s₁.mac.anyQueued cfg then scheduleTick s₁ else s₁) = s₂ at htick
    have hsettle := sameAir_settle s₂ ampdu
    refine ⟨hsettle.tuned htick.1, ?_⟩
    rw [AirSteps, hsettle.channels rfl rfl]
    exact htick.2

/-- **Every event is a series of steps of the abstract channels.** -/
theorem step_channels {s s' : Sim} {e : Event} (ht : Tuned s.mac) (h : step cfg s e = some s') :
    Tuned s'.mac ∧ AirSteps s s' := by
  cases step_cases h with
  | offer ul t p hdue s' harr =>
    have hnow := due_now hdue
    cases harr with
    | ignored qlc rng why => exact waits_channels ht hnow (.of_eq rfl rfl) rfl rfl
    | refused qlc rng hdir => exact waits_channels ht hnow (.of_eq rfl rfl) rfl rfl
    | stored qlc rng k q hdir hk hown hl htriple hroom hap =>
      unfold enqueue
      dsimp only
      split
      · exact scheduleTick_channels (waits_channels ht hnow (.of_eq rfl rfl) rfl rfl)
      · exact waits_channels ht hnow (.of_eq rfl rfl) rfl rfl
  | coords t sta c hdue => exact waits_channels ht (due_now hdue) (.of_eq rfl rfl) rfl rfl
  | tick t order hdue hmem s' htick =>
    have hair : SameAir s.mac (s.atTick t).mac := .of_eq rfl rfl
    obtain ⟨ht₀, hwait⟩ := waits_channels ht (due_now hdue) hair rfl rfl
    obtain ⟨ht', hsteps⟩ := tick_channels ht₀ htick
    exact ⟨ht', hwait.trans hsteps⟩
  | completion i s' hc => exact completion_channels ht hc

theorem tuned_new (cfg : MacConfig) : Tuned (Sim.new cfg).mac :=
  ⟨fun _ => rfl, fun _ => rfl⟩

/-- **The channels of every reachable state are sensed.** -/
theorem run_sensed {es : List Event} {s : Sim} (h : MacRun cfg es s) :
    Tuned s.mac ∧ Channels.Sensed MacKey.link arbitration s.channels := by
  refine h.state_invariant (P := fun s =>
    Tuned s.mac ∧ Channels.Sensed MacKey.link arbitration s.channels) ⟨tuned_new cfg, ?_⟩ ?_
  · exact ⟨fun k _ => Nat.le_refl 0, fun u hu => absurd hu List.not_mem_nil,
      fun k _ => Or.inl fun u hu => absurd hu List.not_mem_nil, List.Pairwise.nil⟩
  · rintro s e s' ⟨ht, hs⟩ - hstep
    obtain ⟨ht', hsteps⟩ := step_channels ht hstep
    exact ⟨ht', hsteps.sensed hs⟩

end Runs

/-- **Occupations of a link exclude each other**, and every contender of each has
waited out its arbitration space since the previous one, in every run. -/
theorem occupations_exclusive {cfg : MacConfig} {es : List Event} {s : Sim}
    (h : MacRun cfg es s) :
    s.occupations.Pairwise fun later earlier => later.link = earlier.link →
      earlier.stop ≤ later.start ∧
        ∀ k ∈ later.contenders, earlier.stop + aifs (edcaTable k.ac) ≤ later.start := by
  have hspaced := (run_sensed h).2.spaced
  exact List.pairwise_map.1 hspaced

/-- Two packets that are transmitted one after the other. -/
def twoTransmissions : List Event :=
  [.coords 0 200 {}, .input 0 (plainPacket 100 200 0), .tick 9000 .insertion,
    .input 9000 (plainPacket 100 200 1), .completion 0, .tick 254000 .insertion,
    .tick 263000 .insertion, .tick 272000 .insertion, .tick 281000 .insertion,
    .tick 290000 .insertion]

/-- The second transmission waits for the first and the arbitration space. -/
theorem second_transmission_waits :
    ∃ s first second, MacRun oneStation twoTransmissions s ∧ s.occupations = [second, first] ∧
      second.contenders = [⟨-1, .bestEffort, 0⟩] ∧
      first.stop + aifs (edcaTable .bestEffort) ≤ second.start := by
  have hrun : (runs (step oneStation) (Sim.new oneStation) twoTransmissions).map (fun s =>
      s.occupations) = some [⟨0, 290000, 526000, [⟨-1, .bestEffort, 0⟩], false⟩,
        ⟨0, 9000, 245000, [⟨-1, .bestEffort, 0⟩], false⟩] := by
    decide +kernel
  obtain ⟨s, hmac, heq⟩ := exists_run_of_map hrun
  have hpair := occupations_exclusive hmac
  rw [heq] at hpair
  have hwait := ((List.pairwise_cons.1 hpair).1 _ (List.mem_singleton.2 rfl) rfl).2
    ⟨-1, .bestEffort, 0⟩ (List.mem_singleton.2 rfl)
  exact ⟨s, _, _, hmac, heq, rfl, hwait⟩

end SiestaVR.Mac
