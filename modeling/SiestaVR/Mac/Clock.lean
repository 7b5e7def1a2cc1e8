import SiestaVR.Mac.Occupancy
import SiestaVR.Mac.Bookings

/-!
# The wake-ups of the MAC

The MAC acts only in events it scheduled: slot ticks, guarded by one pending
flag for all links, and completions, one for each transmission. `Clock` is the
part of the state that decides about them. `Turn` lists what serving one link
does to it, and the `_clock` lemmas give the effect of the other handlers, so
that results about wake-ups are proved on clocks.

Two facts hold in every run: a pending flag stands for an outstanding tick
(`Clock.Live.woken`), and a link that is marked as transmitting has a completion
outstanding (`Clock.Live.served`). With the counters of the ledger, which never
fall below what they count, they give the main result here: `never_stalls`.
-/

namespace SiestaVR.Mac

open Lib

/-- What decides about wake-ups. -/
structure Clock where
  now : Nat
  ticks : List Nat
  pending : Bool
  transmitting : Nat → Bool
  /-- The links of the outstanding completions. -/
  flights : List Nat
  busyUntil : Nat → Nat
  /-- Decrements of back-off counters so far, newest first. -/
  countdowns : List (Nat × MacKey)

/-- The clock of a state. -/
def Sim.clock (s : Sim) : Clock where
  now := s.now
  ticks := s.ticks
  pending := s.mac.slotTickPending
  transmitting := s.mac.linkIsTransmitting
  flights := s.completions.map fun c => c.2.linkId
  busyUntil := fun l => (s.mac.linkMediums l).busyUntil
  countdowns := s.countdowns

namespace Clock

variable (c : Clock)

/-- Time passes. -/
def advance (t : Nat) : Clock := { c with now := t }

/-- A tick in one slot, unless one is pending. -/
def schedule : Clock :=
  if c.pending then c else { c with ticks := c.ticks ++ [c.now + slotTime], pending := true }

/-- A tick happens and decrements the counters of `ks`. -/
def fire (t : Nat) (ks : List MacKey) : Clock :=
  { c with
    now := t
    ticks := c.ticks.erase t
    pending := false
    countdowns := ks.map (Prod.mk t) ++ c.countdowns }

/-- A collision: the wake-up at its end is scheduled unconditionally. -/
def collide (link : Nat) : Clock :=
  { c with
    ticks := c.ticks ++ [c.now + collisionDelay]
    pending := true
    busyUntil := Function.update c.busyUntil link (c.now + collisionDelay) }

/-- A transmission starts. -/
def transmit (link airtime : Nat) : Clock :=
  { c with
    transmitting := Function.update c.transmitting link true
    flights := c.flights ++ [link]
    busyUntil := Function.update c.busyUntil link (c.now + airtime) }

/-- A link is marked as not transmitting. -/
def rest (link : Nat) : Clock :=
  { c with transmitting := Function.update c.transmitting link false }

/-- A transmission completes. -/
def land (t i link : Nat) : Clock :=
  { c with
    now := t
    flights := c.flights.eraseIdx i
    transmitting := Function.update c.transmitting link false }

/-- The turn of a link with `n` contenders. -/
inductive Turn (link n : Nat) : Clock → Prop
  | still : Turn link n c
  | collided (hn : 2 ≤ n) : Turn link n (c.collide link)
  | skipped (hn : n = 1) : Turn link n (c.rest link).schedule
  | transmitted (hn : n = 1) (airtime : Nat) : Turn link n (c.transmit link airtime)

end Clock

/-! ## Effects of the handlers on the clock -/

section Effects

variable {cfg : MacConfig} {order : HashOrder}

theorem scheduleTick_clock (s : Sim) : (scheduleTick s).clock = s.clock.schedule := by
  unfold scheduleTick Clock.schedule
  show _ = if s.mac.slotTickPending = true then _ else _
  split <;> rfl

theorem clock_of_radio {s : Sim} {r : Radio} (h : s.mac.radio = r) :
    s.clock = { s.clock with
      pending := r.pending
      transmitting := r.transmitting
      busyUntil := fun l => (r.mediums l).busyUntil } := by
  subst h
  rfl

theorem busyUntil_update (mediums : Nat → Medium) (link : Nat) (m : Medium) :
    (fun l => (Function.update mediums link m l).busyUntil)
      = Function.update (fun l => (mediums l).busyUntil) link m.busyUntil :=
  Function.comp_update Medium.busyUntil mediums link m

theorem collide_clock (s : Sim) (link : Nat) (cs : List MacKey) :
    (collide s link cs).clock = s.clock.collide link := by
  obtain ⟨d, -, hradio⟩ := radio_collideMac s.mac s.now link cs
  have hradio : (collide s link cs).mac.radio = _ := hradio
  rw [clock_of_radio hradio]
  dsimp only
  rw [busyUntil_update]
  rfl

section Built

variable {s : Sim} {first : MpduPacket} {link airtime : Nat} {ampdu : AmpduPacket}
  {m : QueueModule} (hb : buildNewAmpdu cfg s.mac first link s.now = some (ampdu, airtime, m))

include hb

theorem skipTransmission_clock (winner : MacKey) :
    (skipTransmission { s with mac := m } link winner).clock = (s.clock.rest link).schedule := by
  unfold skipTransmission
  rw [scheduleTick_clock]
  congr 1
  have hbuilt : ({ s with mac := m } : Sim).mac.radio = _ := radio_build hb
  show Clock.rest ({ s with mac := m } : Sim).clock link = _
  -- the build had marked the link as transmitting
  rw [clock_of_radio hbuilt, Clock.rest]
  dsimp only
  rw [Function.update_idem]
  rfl

theorem startTransmission_clock (winner : MacKey) (a : AmpduPacket) (ha : a.linkId = link) :
    (startTransmission { s with mac := m } link winner a airtime).clock
      = s.clock.transmit link airtime := by
  have hbuilt : ({ s with mac := m } : Sim).mac.radio = _ := radio_build hb
  have hstart : (startTransmission { s with mac := m } link winner a airtime).clock
      = { ({ s with mac := m } : Sim).clock with
          flights := s.clock.flights ++ [link]
          busyUntil := Function.update (fun l => (m.linkMediums l).busyUntil) link
            (s.now + airtime) } := by
    show Clock.mk _ _ _ _ (List.map _ (_ ++ [(s.now + airtime, a)]))
      (fun l => (Function.update m.linkMediums link _ l).busyUntil) _ = _
    rw [List.map_append, busyUntil_update, List.map_singleton, ha]
    rfl
  have hmed : m.linkMediums = s.mac.linkMediums := congrArg Radio.mediums hbuilt
  rw [hstart, clock_of_radio hbuilt, hmed]
  rfl

end Built

/-- **The turn of a link.** -/
theorem serveLink_clock {s s' : Sim} {x : Nat × List MacKey}
    (h : serveLink cfg order s x = some s') :
    s.clock.Turn x.1 (contendersOf order s x).length s'.clock := by
  obtain ⟨⟨d, hd, hm⟩, -⟩ := resolve_spec order x.1 s.mac x.2
  have hserved := serveLink_cases h
  -- resolving virtual collisions redraws back-offs, which the clock does not read
  rw [hm] at hserved
  have hsame : ({ s with mac := { s.mac with dcfValues := d } } : Sim).clock = s.clock := rfl
  cases hserved with
  | idle hc => exact .still
  | unused winner hc hf => exact .still
  | collided hc =>
    rw [collide_clock, hsame]
    exact .collided hc
  | skipped winner hc first hf ampdu airtime m' hb hskip =>
    have hclock := skipTransmission_clock (s := { s with mac := { s.mac with dcfValues := d } }) hb
      winner
    rw [hsame] at hclock
    rw [hclock]
    exact .skipped (by rw [hc]; rfl)
  | transmitted winner hc first hf ampdu airtime m' hb hne hair =>
    have hclock := startTransmission_clock (s := { s with mac := { s.mac with dcfValues := d } }) hb
      winner { ampdu with linkId := x.1 } rfl
    rw [hsame] at hclock
    rw [hclock]
    exact .transmitted (by rw [hc]; rfl) airtime

theorem offer_clock {ul : Bool} {s s' : Sim} {t : Nat} {p : MpduPacket}
    (h : Arrived cfg ul { s with now := t } p s') :
    s'.clock = s.clock.advance t ∨ s'.clock = (s.clock.advance t).schedule := by
  cases h with
  | ignored qlc rng why => exact Or.inl rfl
  | refused qlc rng hdir => exact Or.inl rfl
  | stored qlc rng k q hdir hk hown hl htriple hroom hap =>
    unfold enqueue
    dsimp only
    split
    · rw [scheduleTick_clock]
      exact Or.inr rfl
    · exact Or.inl rfl

variable (cfg order) in
theorem beginTick_clock (s : Sim) (t : Nat) :
    ∃ ks : List MacKey, ks.Nodup ∧
      (beginTick cfg order (s.atTick t)).clock = s.clock.fire t ks := by
  set m := overflowPass cfg order { s.mac with slotTickPending := false } with hm
  have hpass : ({ s.atTick t with mac := m } : Sim).mac.radio = _ :=
    radio_overflowPass cfg { s.mac with slotTickPending := false } order
  have hbegin : (beginTick cfg order (s.atTick t)).clock
      = { ({ s.atTick t with mac := m } : Sim).clock with
          countdowns := (decremented cfg m t).map (Prod.mk t) ++ s.countdowns } := by
    show Clock.mk _ _ _ _ _ (fun l => ((m.linkMediums l).clearIfIdle t).busyUntil) _ = _
    simp only [Medium.clearIfIdle_busyUntil]
    rfl
  refine ⟨decremented cfg m t, cfg.macKeys_nodup.filter _, ?_⟩
  rw [hbegin, clock_of_radio hpass]
  rfl

variable (cfg) in
theorem endTick_clock (s : Sim) :
    (endTick cfg s).clock = s.clock ∨ (endTick cfg s).clock = s.clock.schedule := by
  unfold endTick
  split
  · exact Or.inr (scheduleTick_clock s)
  · exact Or.inl rfl

theorem delivery_clock (s : Sim) (t i : Nat) (ampdu : AmpduPacket) :
    (delivery { s with now := t, completions := s.completions.eraseIdx i } ampdu).clock
      = s.clock.land t i ampdu.linkId := by
  unfold delivery Sim.clock Clock.land
  dsimp only [QueueModule.setMedium, QueueModule.setTransmitting]
  congr 1
  · exact (List.eraseIdx_map ..).symm
  · rw [busyUntil_update, Medium.releaseTxop_busyUntil]
    exact Function.update_eq_self ..

theorem settle_clock (s : Sim) (ampdu : AmpduPacket) : (settle s ampdu).clock = s.clock := by
  have hradio : (settle s ampdu).mac.radio = _ := radio_drainStats _ ampdu s.now
  rw [clock_of_radio hradio]
  rfl

theorem completion_clock {s s' : Sim} {i : Nat} (h : Completed cfg s i s') :
    ∃ t link, due s t = true ∧ s.clock.flights[i]? = some link ∧
      (s'.clock = s.clock.land t i link ∨ s'.clock = (s.clock.land t i link).schedule) := by
  cases h with
  | delivered t ampdu hi hdue s₁ hs₁ =>
    refine ⟨t, ampdu.linkId, hdue, ?_, ?_⟩
    · show (s.completions.map fun c => c.2.linkId)[i]? = _
      rw [List.getElem?_map, hi]
      rfl
    · rw [settle_clock]
      split
      · rw [scheduleTick_clock, hs₁, delivery_clock]
        exact Or.inr rfl
      · rw [hs₁, delivery_clock]
        exact Or.inl rfl

end Effects

/-! ## The rule for runs -/

/-- What a property of clocks has to stand. `R` is a condition on the turns: in a
turn with contenders the medium of the link is free. -/
structure Clock.Stable (R : HashOrder → Sim → Nat × List MacKey → Prop) (P : Clock → Prop) :
    Prop where
  advance : ∀ c t, P c → c.now ≤ t → P (c.advance t)
  schedule : ∀ c, P c → P c.schedule
  fire : ∀ c t ks, P c → c.now ≤ t → t ∈ c.ticks → ks.Nodup → P (c.fire t ks)
  turn : ∀ order s x c', P s.clock → R order s x →
    (contendersOf order s x ≠ [] → s.clock.busyUntil x.1 ≤ s.clock.now) →
    s.clock.Turn x.1 (contendersOf order s x).length c' → P c'
  land : ∀ c t i link, P c → c.now ≤ t → c.flights[i]? = some link → P (c.land t i link)

section Rule

variable {cfg : MacConfig} {R : HashOrder → Sim → Nat × List MacKey → Prop} {P : Clock → Prop}

theorem busyUntil_le_of_contender {order : HashOrder} {s : Sim} {x : Nat × List MacKey}
    (hs : Channels.Sensed MacKey.link arbitration s.channels) (hx : Entitled s x)
    (hne : contendersOf order s x ≠ []) : s.clock.busyUntil x.1 ≤ s.clock.now := by
  obtain ⟨k, hk⟩ := List.exists_mem_of_ne_nil _ hne
  obtain ⟨hlink, hawake⟩ := hx k ((resolve_spec order x.1 s.mac x.2).2 k hk)
  have hfree := hs.free k hawake
  rw [hlink] at hfree
  exact hfree

/-- One tick. -/
theorem Clock.Stable.tick (hP : Clock.Stable R P) {order : HashOrder} {s s' : Sim} {t : Nat}
    (ht : Tuned s.mac) (hs : Channels.Sensed MacKey.link arbitration s.channels)
    (hdue : due s t = true) (hmem : t ∈ s.ticks)
    (hR : TickAll cfg order (R order) (s.atTick t))
    (h : dequeScheduleService cfg order (s.atTick t) = some s') (hc : P s.clock) : P s'.clock := by
  obtain ⟨s₁, hloop, rfl⟩ := Option.map_eq_some_iff.1 h
  have hair : SameAir s.mac (s.atTick t).mac := .of_eq rfl rfl
  obtain ⟨ht₀, hwait⟩ := waits_channels ht (due_now hdue) hair rfl rfl
  obtain ⟨ht₁, hbegin⟩ := beginTick_channels cfg order ht₀
  obtain ⟨ks, hks, hclock⟩ := beginTick_clock cfg order s t
  have hstart : P (beginTick cfg order (s.atTick t)).clock := by
    rw [hclock]
    exact hP.fire s.clock t ks hc (due_now hdue) hmem hks
  -- `P` goes through the link loop together with carrier sensing, which says links are free.
  have hend : (P s₁.clock ∧ Channels.Sensed MacKey.link arbitration s₁.channels) ∧
      Tuned s₁.mac := by
    refine serveLinks_entitled
      (P := fun s => P s.clock ∧ Channels.Sensed MacKey.link arbitration s.channels) ?_
      tickLinks_nodup ht₁ tickLinks_entitled hR hloop
      ⟨hstart, Channels.Steps.sensed (hwait.trans hbegin) hs⟩
    rintro s x s' ⟨hPs, hsensed⟩ htuned hx hRx hserve
    exact ⟨hP.turn order s x _ hPs hRx (busyUntil_le_of_contender hsensed hx)
      (serveLink_clock hserve), (serveLink_channels htuned hx hserve).steps.sensed hsensed⟩
  rcases endTick_clock cfg s₁ with heq | heq
  · rw [heq]
    exact hend.1.1
  · rw [heq]
    exact hP.schedule _ hend.1.1

/-- **Rule for clocks**: a stable property that holds initially holds in every
state of every run whose ticks meet the condition on turns. -/
theorem run_clock {ok : Sim → Event → Prop} (hP : Clock.Stable R P)
    (hok : ∀ s t order, ok s (.tick t order) → TickAll cfg order (R order) (s.atTick t))
    (h₀ : P (Sim.new cfg).clock) {es : List Event} {s : Sim}
    (h : Run (step cfg) ok (Sim.new cfg) es s) : P s.clock := by
  induction h with
  | start => exact h₀
  | @snoc es s s' e hrun hokse hstep ih =>
    have hair := run_sensed (hrun.mono fun _ _ _ => True.intro)
    cases step_cases hstep with
    | offer ul t p hdue s' harr =>
      have hadv := hP.advance s.clock t ih (due_now hdue)
      rcases offer_clock harr with heq | heq
      · rw [heq]
        exact hadv
      · rw [heq]
        exact hP.schedule _ hadv
    | coords t sta c hdue => exact hP.advance s.clock t ih (due_now hdue)
    | tick t order hdue hmem s' htick =>
      exact hP.tick hair.1 hair.2 hdue hmem (hok s t order hokse) htick ih
    | completion i s' hc =>
      obtain ⟨t, link, hdue, hi, heq⟩ := completion_clock hc
      have hland := hP.land s.clock t i link ih (due_now hdue) hi
      rcases heq with heq | heq
      · rw [heq]
        exact hland
      · rw [heq]
        exact hP.schedule _ hland

end Rule

/-! ## Liveness -/

/-- A pending flag stands for an outstanding tick, a transmitting link for an
outstanding completion. -/
structure Clock.Live (c : Clock) : Prop where
  woken : c.pending = true → c.ticks ≠ []
  served : ∀ l, c.transmitting l = true → l ∈ c.flights

namespace Clock

theorem Live.schedule {c : Clock} (h : c.Live) : c.schedule.Live := by
  unfold Clock.schedule
  split
  · exact h
  · refine ⟨fun _ => ?_, h.served⟩
    show c.ticks ++ [c.now + slotTime] ≠ []
    simp

theorem mem_eraseIdx_of_ne {fs : List Nat} {i l link : Nat} (hi : fs[i]? = some link)
    (hne : l ≠ link) (hl : l ∈ fs) : l ∈ fs.eraseIdx i := by
  obtain ⟨hlen, rfl⟩ := List.getElem?_eq_some_iff.1 hi
  have hperm := List.getElem_cons_eraseIdx_perm hlen
  rcases List.mem_cons.1 (hperm.mem_iff.2 hl) with heq | hmem
  · exact absurd heq hne
  · exact hmem

theorem stable_live : Stable (fun _ _ _ => True) Live where
  advance := fun c t h _ => ⟨h.woken, h.served⟩
  schedule := fun c h => h.schedule
  fire := fun c t ks h _ _ _ => ⟨nofun, h.served⟩
  turn := by
    rintro order s x c' h - - hturn
    cases hturn with
    | still => exact h
    | collided hn =>
      -- the wake-up at the end of the collision is outstanding
      refine ⟨fun _ => ?_, h.served⟩
      show s.clock.ticks ++ [s.clock.now + collisionDelay] ≠ []
      simp
    | skipped hn =>
      refine Live.schedule ⟨h.woken, fun l hl => h.served l ?_⟩
      have hl : Function.update s.clock.transmitting x.1 false l = true := hl
      rw [Function.update_apply] at hl
      split at hl
      · cases hl
      · exact hl
    | transmitted hn airtime =>
      -- the link has its flight, and the others have theirs
      refine ⟨h.woken, fun l hl => ?_⟩
      have hl : Function.update s.clock.transmitting x.1 true l = true := hl
      show l ∈ s.clock.flights ++ [x.1]
      rw [Function.update_apply] at hl
      split at hl
      · rename_i heq
        simp [heq]
      · exact List.mem_append_left _ (h.served l hl)
  land := by
    intro c t i link h _ hi
    refine ⟨h.woken, fun l hl => ?_⟩
    have hl : Function.update c.transmitting link false l = true := hl
    rw [Function.update_apply] at hl
    split at hl
    · cases hl
    · rename_i hne
      exact mem_eraseIdx_of_ne hi hne (h.served l hl)

end Clock

section Alert

variable {cfg : MacConfig}

/-- With packets queued and a link free, a tick is pending. -/
def Alert (cfg : MacConfig) (s : Sim) : Prop :=
  s.mac.anyQueued cfg = true → (∃ l ∈ cfg.links, s.mac.linkIsTransmitting l = false) →
    s.mac.slotTickPending = true

theorem pending_scheduleTick (s : Sim) : (scheduleTick s).mac.slotTickPending = true := by
  unfold scheduleTick
  split
  · assumption
  · rfl

theorem anyQueued_iff {m : QueueModule} :
    m.anyQueued cfg = true ↔ ∃ k ∈ cfg.macKeys, m.perFlowQueues k ≠ [] := by
  simp [QueueModule.anyQueued]

/-- **Backlog is seen**: with packets queued and a link free, a tick asks for
another slot. The counters it asks are never below what they count. -/
theorem needNextSlot_of_backlog {s : Sim} (hs : Sound cfg (s.ledger cfg))
    (hq : s.mac.anyQueued cfg = true) {l : Nat} (hl : l ∈ cfg.links)
    (hidle : s.mac.linkIsTransmitting l = false) : needNextSlot cfg s.mac = true := by
  obtain ⟨k, hk, hne⟩ := anyQueued_iff.1 hq
  obtain ⟨p, hp⟩ := List.exists_mem_of_ne_nil _ hne
  have hmem : (k, p.withoutStamps) ∈ (s.ledger cfg).queued := mem_queued hk hp
  have hlink : 0 < (s.ledger cfg).onLink k.link := Multiset.countP_pos.2 ⟨_, hmem, rfl⟩
  have hwaiting : 0 < (s.ledger cfg).waiting (k.sta, k.ac) :=
    Multiset.countP_pos.2 ⟨_, hmem, rfl⟩
  have hdepth : 0 < s.mac.linkQueueDepths.count k.link :=
    Nat.lt_of_lt_of_le hlink (hs.depths k.link)
  have hactive : 0 < s.mac.activeMacKeyCounts.count (k.sta, k.ac) :=
    Nat.lt_of_lt_of_le hwaiting (hs.active (k.sta, k.ac))
  unfold needNextSlot
  rw [Bool.and_eq_true, List.any_eq_true, List.any_eq_true]
  refine ⟨⟨k.link, s.mac.linkQueueDepths.support k.link hdepth, by simpa using hdepth⟩,
    ⟨k.sta, k.ac, l⟩, cfg.mem_macKeys_of_link hk hl, ?_⟩
  simp [contending, hidle, hactive]

/-- An arrival that finds its queue empty and a link free starts a tick. -/
theorem enqueue_alert {s : Sim} {k : MacKey} {p : MpduPacket} (hk : k ∈ cfg.macKeys)
    (h : Alert cfg s) : Alert cfg (enqueue cfg s k p) := by
  unfold enqueue
  dsimp only
  split
  · exact fun _ _ => pending_scheduleTick _
  · rename_i hcond
    rintro - ⟨l, hl, hidle⟩
    -- the queue was not empty, so a tick was pending before
    have hne : s.mac.perFlowQueues k ≠ [] := by
      intro hnil
      refine hcond ⟨by simp [cacheInputPacket, hnil], ?_⟩
      simp only [anyLinkIdle, strPlusModeMlo, if_true, List.any_eq_true]
      exact ⟨l, hl, by rw [Bool.not_eq_true']; exact hidle⟩
    exact h (anyQueued_iff.2 ⟨k, hk, hne⟩) ⟨l, hl, hidle⟩

/-- **In every reachable state of every run, backlog and a free link imply a
pending tick.** -/
theorem run_alert {es : List Event} {s : Sim} (h : MacRun cfg es s) : Alert cfg s := by
  induction h with
  | start =>
    intro hq
    obtain ⟨k, -, hne⟩ := anyQueued_iff.1 hq
    exact absurd rfl hne
  | @snoc es s s' e hrun hok hstep ih =>
    have hsound := run_sound (hrun.snoc hok hstep)
    cases step_cases hstep with
    | offer ul t p hdue s' harr =>
      cases harr with
      | ignored qlc rng why => exact ih
      | refused qlc rng hdir => exact ih
      | stored qlc rng k q hdir hk hown hl htriple hroom hap =>
        exact enqueue_alert (cfg.mem_macKeys.2 hk) ih
    | coords t sta c hdue => exact ih
    | tick t order hdue hmem s' htick =>
      obtain ⟨s₁, hloop, rfl⟩ := Option.map_eq_some_iff.1 htick
      rw [ledger_endTick] at hsound
      -- A tick ends with another one, unless no link with a backlog is free.
      unfold endTick
      split
      · exact fun _ _ => pending_scheduleTick s₁
      · rename_i hneed
        rintro hq ⟨l, hl, hidle⟩
        exact absurd (needNextSlot_of_backlog hsound hq hl hidle) hneed
    | completion i s' hc =>
      cases hc with
      | delivered t ampdu hi hdue s₁ hs₁ =>
        have hsettle : ∀ s₂ : Sim, Alert cfg s₂ → Alert cfg (settle s₂ ampdu) := by
          intro s₂ hs₂
          unfold settle drainStats
          dsimp only
          split <;> exact hs₂
        refine hsettle _ ?_
        split
        · exact fun _ _ => pending_scheduleTick s₁
        · rename_i hnone
          exact fun hq => absurd hq hnone

end Alert

/-- **The MAC never stalls**: while a packet is queued, a slot tick or a
completion is outstanding. -/
theorem never_stalls {cfg : MacConfig} {es : List Event} {s : Sim} (h : MacRun cfg es s)
    {k : MacKey} (hk : k ∈ cfg.macKeys) (hne : s.mac.perFlowQueues k ≠ []) :
    s.ticks ≠ [] ∨ s.completions ≠ [] := by
  have hlive : s.clock.Live := run_clock Clock.stable_live
    (fun _ _ _ _ => LoopAll.of_forall (fun _ _ => True.intro) _ _) ⟨nofun, nofun⟩ h
  by_cases hidle : ∃ l ∈ cfg.links, s.mac.linkIsTransmitting l = false
  · exact Or.inl (hlive.woken (run_alert h (anyQueued_iff.2 ⟨k, hk, hne⟩) hidle))
  · -- the queue's own link is transmitting
    right
    have htrans : s.mac.linkIsTransmitting k.link = true := by
      by_contra hno
      exact hidle ⟨k.link, cfg.link_mem hk, by simpa using hno⟩
    have hflight : k.link ∈ s.completions.map fun c => c.2.linkId := hlive.served k.link htrans
    intro hnil
    rw [hnil] at hflight
    exact absurd hflight List.not_mem_nil

/-- A packet that arrives during a transmission starts no tick; the completion
will. -/
theorem waits_for_completion :
    ∃ s, MacRun oneStation (twoTransmissions.take 4) s ∧ s.ticks = [] ∧ s.completions ≠ [] := by
  have hrun : (runs (step oneStation) (Sim.new oneStation) (twoTransmissions.take 4)).map (fun s =>
      (s.ticks, (s.mac.perFlowQueues ⟨-1, .bestEffort, 0⟩).isEmpty)) = some ([], false) := by
    decide +kernel
  obtain ⟨s, hmac, heq⟩ := exists_run_of_map hrun
  obtain ⟨hticks, hqueue⟩ := Prod.mk.inj heq
  have hlive := never_stalls hmac (k := ⟨-1, .bestEffort, 0⟩) (by decide) (by simpa using hqueue)
  exact ⟨s, hmac, hticks, hlive.resolve_left fun hno => hno hticks⟩

end SiestaVR.Mac
