import SiestaVR.Mac.Clock

/-!
# One slot tick at a time

`schedule_tick` keeps at most one tick outstanding by the pending flag. The
collision branch of the link loop does not go through it: it sets the flag and
schedules the end of the collision itself. With several links this has two
consequences, and the results here say when they do not occur:

- a collision while the flag is set leaves two ticks outstanding, so that later
  slots are counted twice (`one_tick_outstanding`);
- a collision that sets the flag keeps all other links without a tick until it
  ends (`links_contend_independently`).
-/

namespace SiestaVR.Mac

open Lib

/-! ## At most one tick -/

/-- No collision while a tick is pending. -/
def NoSecondWakeup (order : HashOrder) (s : Sim) (x : Nat × List MacKey) : Prop :=
  s.mac.slotTickPending = true → (contendersOf order s x).length < 2

instance (order : HashOrder) (s : Sim) (x : Nat × List MacKey) :
    Decidable (NoSecondWakeup order s x) := inferInstanceAs (Decidable (_ → _))

/-- In the tick, if the event is one, no link collides while a tick is pending. -/
def soleWakeups (cfg : MacConfig) (s : Sim) : Event → Prop
  | .tick t order => TickAll cfg order (NoSecondWakeup order) (s.atTick t)
  | _ => True

instance (cfg : MacConfig) (s : Sim) : ∀ e, Decidable (soleWakeups cfg s e)
  | .tick t order =>
    inferInstanceAs (Decidable (TickAll cfg order (NoSecondWakeup order) (s.atTick t)))
  | .input _ _ | .inputUL _ _ | .coords _ _ _ | .completion _ => .isTrue True.intro

namespace Clock

/-- One tick is outstanding if the flag is set and none otherwise, and every
decrement so far is at least one slot before the next tick. -/
structure OneTick (c : Clock) : Prop where
  count : c.ticks.length = if c.pending then 1 else 0
  past : ∀ d ∈ c.countdowns, d.1 ≤ c.now
  ahead : ∀ d ∈ c.countdowns, ∀ t ∈ c.ticks, d.1 + slotTime ≤ t
  spaced : c.countdowns.Pairwise fun later earlier =>
    later.2 = earlier.2 → earlier.1 + slotTime ≤ later.1

theorem OneTick.ticks_eq_nil {c : Clock} (h : c.OneTick) (hp : c.pending = false) :
    c.ticks = [] := by
  have hcount := h.count
  rw [hp] at hcount
  exact List.length_eq_zero_iff.1 hcount

theorem OneTick.erase_eq_nil {c : Clock} (h : c.OneTick) {t : Nat} (ht : t ∈ c.ticks) :
    c.ticks.erase t = [] := by
  have hcount := h.count
  have hlen := List.length_erase_of_mem ht
  have hle : c.ticks.length ≤ 1 := by
    rw [hcount]
    split <;> omega
  exact List.length_eq_zero_iff.1 (by omega)

theorem OneTick.schedule {c : Clock} (h : c.OneTick) : c.schedule.OneTick := by
  unfold Clock.schedule
  split
  · exact h
  · rename_i hp
    have hnil := h.ticks_eq_nil (by simpa using hp)
    refine ⟨?_, h.past, ?_, h.spaced⟩
    · show (c.ticks ++ [c.now + slotTime]).length = 1
      rw [hnil]
      rfl
    · intro d hd t ht
      have ht : t ∈ c.ticks ++ [c.now + slotTime] := ht
      rw [hnil, List.nil_append, List.mem_singleton] at ht
      have hpast := h.past d hd
      omega

/-- A tick decrements each counter once, a slot after any earlier decrement. -/
theorem OneTick.fire {c : Clock} (h : c.OneTick) {t : Nat} {ks : List MacKey} (hnow : c.now ≤ t)
    (ht : t ∈ c.ticks) (hks : ks.Nodup) : (c.fire t ks).OneTick := by
  have hnil := h.erase_eq_nil ht
  refine ⟨?_, ?_, ?_, ?_⟩
  · show (c.ticks.erase t).length = 0
    rw [hnil]
    rfl
  · intro d hd
    rcases List.mem_append.1 hd with hd | hd
    · obtain ⟨k, -, rfl⟩ := List.mem_map.1 hd
      exact Nat.le_refl t
    · exact Nat.le_trans (h.past d hd) hnow
  · intro d _ u hu
    have hu : u ∈ c.ticks.erase t := hu
    rw [hnil] at hu
    cases hu
  · refine List.pairwise_append.2 ⟨List.pairwise_map.2 ?_, h.spaced, ?_⟩
    · exact hks.imp fun hne heq => absurd heq hne
    · intro d hd e he _
      obtain ⟨k, -, rfl⟩ := List.mem_map.1 hd
      exact h.ahead e he t ht

theorem stable_oneTick : Stable NoSecondWakeup OneTick where
  advance := fun c t h hnow =>
    ⟨h.count, fun d hd => Nat.le_trans (h.past d hd) hnow, h.ahead, h.spaced⟩
  schedule := fun c h => h.schedule
  fire := fun c t ks h hnow ht hks => h.fire hnow ht hks
  turn := by
    rintro order s x c' h hR - hturn
    cases hturn with
    | still => exact h
    | collided hn =>
      -- the flag is not set, so the collision's wake-up is the only one
      have hp : s.clock.pending = false := by
        by_contra hp
        have hpend : s.clock.pending = true := by simpa using hp
        have hfew := hR hpend
        omega
      have hnil := h.ticks_eq_nil hp
      refine ⟨?_, h.past, ?_, h.spaced⟩
      · show (s.clock.ticks ++ [s.clock.now + collisionDelay]).length = 1
        rw [hnil]
        rfl
      · intro d hd t ht
        have ht : t ∈ s.clock.ticks ++ [s.clock.now + collisionDelay] := ht
        rw [hnil, List.nil_append, List.mem_singleton] at ht
        have hpast := h.past d hd
        rw [ht, collisionDelay_eq, slotTime]
        omega
    | skipped hn => exact OneTick.schedule ⟨h.count, h.past, h.ahead, h.spaced⟩
    | transmitted hn airtime => exact ⟨h.count, h.past, h.ahead, h.spaced⟩
  land := fun c t i link h hnow _ =>
    ⟨h.count, fun d hd => Nat.le_trans (h.past d hd) hnow, h.ahead, h.spaced⟩

end Clock

/-- A packet in each direction, and the tick in which both sides are ready. -/
def bothDirections : List Event :=
  [.coords 0 200 {}, .input 0 (plainPacket 100 200 0), .inputUL 0 (plainPacket 200 100 0),
    .tick 9000 .insertion]

/-- Both links collide in one tick, and each schedules a tick for the end. -/
theorem two_collisions_two_ticks :
    ∃ s, MacRun twoLinks bothDirections s ∧ s.ticks = [85000, 85000] := by
  have hrun : (runs (step twoLinks) (Sim.new twoLinks) bothDirections).map (fun s => s.ticks)
      = some [85000, 85000] := by
    decide +kernel
  exact exists_run_of_map hrun

/-- **At most one tick is outstanding, exactly when the flag is set, and no
counter is decremented twice within a slot**, in every run in which no link
collides while a tick is pending. -/
theorem one_tick_outstanding {cfg : MacConfig} {es : List Event} {s : Sim}
    (h : Run (step cfg) (soleWakeups cfg) (Sim.new cfg) es s) :
    s.ticks.length ≤ 1 ∧ (s.mac.slotTickPending = true ↔ s.ticks ≠ []) ∧
      s.countdowns.Pairwise fun later earlier =>
        later.2 = earlier.2 → earlier.1 + slotTime ≤ later.1 := by
  have hone : s.clock.OneTick := run_clock Clock.stable_oneTick (fun _ _ _ htick => htick)
    ⟨rfl, nofun, nofun, .nil⟩ h
  have hcount : s.ticks.length = if s.mac.slotTickPending then 1 else 0 := hone.count
  refine ⟨?_, ?_, hone.spaced⟩
  · rw [hcount]
    split <;> omega
  · cases hp : s.mac.slotTickPending with
    | true =>
      rw [hp] at hcount
      refine ⟨fun _ hnil => ?_, fun _ => rfl⟩
      rw [hnil] at hcount
      cases hcount
    | false =>
      rw [hp] at hcount
      exact ⟨nofun, fun hne => absurd (List.length_eq_zero_iff.1 hcount) hne⟩

/-- Two links; on the second one the station draws five slots, so that the access
point is ready alone. -/
def aloneOnSecondLink : MacConfig :=
  { twoLinks with edcafDraws := fun k _ => if k.sta = 200 ∧ k.link = 1 then 5 else 0 }

/-- The first link collides, and with the flag set the second one transmits: one
tick is left. -/
theorem collision_then_transmission_one_tick :
    ∃ s, Run (step aloneOnSecondLink) (soleWakeups aloneOnSecondLink) (Sim.new aloneOnSecondLink)
        bothDirections s ∧
      s.occupations.map Occupation.isCollision = [false, true] ∧ s.ticks.length ≤ 1 := by
  have hok : allOk (step aloneOnSecondLink) (soleWakeups aloneOnSecondLink)
      (Sim.new aloneOnSecondLink) bothDirections := by
    decide +kernel
  have hrun : (runs (step aloneOnSecondLink) (Sim.new aloneOnSecondLink) bothDirections).map
      (fun s => s.occupations.map Occupation.isCollision) = some [false, true] := by
    decide +kernel
  obtain ⟨s, hs, heq⟩ := Option.map_eq_some_iff.1 hrun
  have h := Run.of_runs hok hs
  exact ⟨s, h, heq, (one_tick_outstanding h).1⟩

/-! ## Ticks for every link -/

/-- Between events, from now until the next one is due: a contention function
with packets whose link is neither transmitting nor in a collision has a tick at
most one slot ahead. -/
def ContendIndependently (cfg : MacConfig) (s : Sim) : Prop :=
  ∀ τ, due s τ = true → ∀ k ∈ cfg.macKeys,
    (∃ l ∈ cfg.links, s.mac.perFlowQueues { k with link := l } ≠ []) →
    s.mac.linkIsTransmitting k.link = false → (s.mac.linkMediums k.link).busyUntil ≤ τ →
      ∃ t ∈ s.ticks, τ ≤ t ∧ t ≤ τ + slotTime

/-- A collision sets the flag only if the other links are busy for as long, up to
one slot. -/
def SparesOthers (cfg : MacConfig) (order : HashOrder) (s : Sim) (x : Nat × List MacKey) : Prop :=
  2 ≤ (contendersOf order s x).length → s.mac.slotTickPending = true ∨
    ∀ l ∈ cfg.links, l ≠ x.1 →
      s.now + collisionDelay ≤ (s.mac.linkMediums l).busyUntil + slotTime

instance (cfg : MacConfig) (order : HashOrder) (s : Sim) (x : Nat × List MacKey) :
    Decidable (SparesOthers cfg order s x) := inferInstanceAs (Decidable (_ → _))

/-- In the tick, if the event is one, collisions spare the other links. -/
def sparingTicks (cfg : MacConfig) (s : Sim) : Event → Prop
  | .tick t order => TickAll cfg order (SparesOthers cfg order) (s.atTick t)
  | _ => True

instance (cfg : MacConfig) (s : Sim) : ∀ e, Decidable (sparingTicks cfg s e)
  | .tick t order =>
    inferInstanceAs (Decidable (TickAll cfg order (SparesOthers cfg order) (s.atTick t)))
  | .input _ _ | .inputUL _ _ | .coords _ _ _ | .completion _ => .isTrue True.intro

namespace Clock

/-- A pending tick is at most one slot after each link becomes free. -/
def Prompt (cfg : MacConfig) (c : Clock) : Prop :=
  c.pending = true → ∀ l ∈ cfg.links, ∃ t ∈ c.ticks, t ≤ max c.now (c.busyUntil l) + slotTime

variable {cfg : MacConfig}

theorem Prompt.mono {c c' : Clock} (h : c.Prompt cfg) (hp : c'.pending = true → c.pending = true)
    (ht : ∀ t ∈ c.ticks, t ∈ c'.ticks)
    (hbusy : ∀ l ∈ cfg.links, max c.now (c.busyUntil l) ≤ max c'.now (c'.busyUntil l)) :
    c'.Prompt cfg := by
  intro hpend l hl
  obtain ⟨t, htick, hle⟩ := h (hp hpend) l hl
  exact ⟨t, ht t htick, Nat.le_trans hle (Nat.add_le_add_right (hbusy l hl) _)⟩

theorem Prompt.schedule {c : Clock} (h : c.Prompt cfg) : c.schedule.Prompt cfg := by
  unfold Clock.schedule
  split
  · exact h
  · intro _ l _
    refine ⟨c.now + slotTime, List.mem_append_right _ (List.mem_singleton.2 rfl), ?_⟩
    exact Nat.add_le_add_right (Nat.le_max_left _ _) _

theorem max_le_update {busy : Nat → Nat} {now link stop : Nat} (hfree : busy link ≤ now)
    (hstop : now ≤ stop) (l : Nat) :
    max now (busy l) ≤ max now (Function.update busy link stop l) := by
  rw [Function.update_apply]
  split
  · rename_i heq
    subst heq
    omega
  · exact Nat.le_refl _

theorem stable_prompt (cfg : MacConfig) : Stable (SparesOthers cfg) (Prompt cfg) where
  advance := fun c t h hnow => h.mono id (fun _ ht => ht) fun l _ => by
    show max c.now (c.busyUntil l) ≤ max t (c.busyUntil l)
    omega
  schedule := fun c h => h.schedule
  fire := fun c t ks h _ _ _ => nofun
  turn := by
    rintro order s x c' h hR hfree hturn
    cases hturn with
    | still => exact h
    | collided hn =>
      have hcontended : contendersOf order s x ≠ [] :=
        List.ne_nil_of_length_pos (Nat.lt_of_lt_of_le Nat.zero_lt_two hn)
      rcases hR hn with hp | hothers
      · -- a tick was pending already
        exact h.mono (fun _ => hp) (fun t ht => List.mem_append_left _ ht) fun l _ =>
          max_le_update (hfree hcontended) (Nat.le_add_right _ _) l
      · intro _ l hl
        -- The tick at the end of the collision is early enough for the other links.
        refine ⟨s.clock.now + collisionDelay,
          List.mem_append_right _ (List.mem_singleton.2 rfl), ?_⟩
        show s.clock.now + collisionDelay ≤ max s.clock.now
          (Function.update s.clock.busyUntil x.1 (s.clock.now + collisionDelay) l) + slotTime
        rw [Function.update_apply]
        split
        · omega
        · rename_i hne
          have hbusy : s.clock.now + collisionDelay ≤ s.clock.busyUntil l + slotTime :=
            hothers l hl hne
          omega
    | skipped hn =>
      refine Prompt.schedule (h.mono id (fun _ ht => ht) fun l _ => Nat.le_refl _)
    | transmitted hn airtime =>
      have hcontended : contendersOf order s x ≠ [] :=
        List.ne_nil_of_length_pos (by omega)
      exact h.mono id (fun _ ht => ht) fun l _ =>
        max_le_update (hfree hcontended) (Nat.le_add_right _ _) l
  land := fun c t i link h hnow _ => h.mono id (fun _ ht => ht) fun l _ => by
    show max c.now (c.busyUntil l) ≤ max t (c.busyUntil l)
    omega

end Clock

/-- Two links; on the second one every back-off is five slots. -/
def slowSecondLink : MacConfig :=
  { twoLinks with edcafDraws := fun k _ => if k.link = 0 then 0 else 5 }

/-- While the first link is in a collision, the second one counts no slots. -/
theorem collision_stops_other_link :
    ∃ s, MacRun slowSecondLink bothDirections s ∧ ¬ ContendIndependently slowSecondLink s := by
  have hrun : (runs (step slowSecondLink) (Sim.new slowSecondLink) bothDirections).map (fun s =>
      (s.ticks, due s 9000, (s.mac.perFlowQueues ⟨-1, .bestEffort, 0⟩).isEmpty,
        s.mac.linkIsTransmitting 1, (s.mac.linkMediums 1).busyUntil))
      = some ([85000], true, false, false, 0) := by
    decide +kernel
  obtain ⟨s, hmac, heq⟩ := exists_run_of_map hrun
  simp only [Prod.mk.injEq] at heq
  obtain ⟨hticks, hdue, hqueue, htrans, hbusy⟩ := heq
  refine ⟨s, hmac, fun hind => ?_⟩
  obtain ⟨t, ht, -, hle⟩ := hind 9000 hdue ⟨-1, .bestEffort, 1⟩ (by decide)
    ⟨0, by decide, by simpa using hqueue⟩ htrans (by rw [hbusy]; exact Nat.zero_le _)
  rw [hticks, List.mem_singleton] at ht
  rw [ht, slotTime] at hle
  omega

/-- **Links contend independently** in every run in which collisions spare the
other links (a condition that is void when there is one link). -/
theorem links_contend_independently {cfg : MacConfig} {es : List Event} {s : Sim}
    (h : Run (step cfg) (sparingTicks cfg) (Sim.new cfg) es s) : ContendIndependently cfg s := by
  intro τ hdue k hk hbacklog hidle hbusy
  have hprompt : s.clock.Prompt cfg :=
    run_clock (Clock.stable_prompt cfg) (fun _ _ _ htick => htick) nofun h
  obtain ⟨l, hl, hne⟩ := hbacklog
  have hlink := cfg.link_mem hk
  have hqueued : s.mac.anyQueued cfg = true :=
    anyQueued_iff.2 ⟨{ k with link := l }, cfg.mem_macKeys_of_link hk hl, hne⟩
  have hpend := run_alert (h.mono fun _ _ _ => True.intro) hqueued ⟨k.link, hlink, hidle⟩
  obtain ⟨t, ht, hle⟩ := hprompt hpend k.link hlink
  have hle : t ≤ max s.now (s.mac.linkMediums k.link).busyUntil + slotTime := hle
  unfold due at hdue
  simp only [Bool.and_eq_true, decide_eq_true_eq, List.all_eq_true] at hdue
  have hlater : τ ≤ t := hdue.1.2 t ht
  have hnow : s.now ≤ τ := hdue.1.1
  exact ⟨t, ht, hlater, by omega⟩

/-- Two packets down and one up, and a tick that serves the second link first. -/
def secondLinkFirst : List Event :=
  [.coords 0 200 {}, .input 0 (plainPacket 100 200 0), .input 0 (plainPacket 100 200 1),
    .inputUL 0 (plainPacket 200 100 0),
    .tick 9000 { HashOrder.insertion with
      links := List.reverse
      links_perm := List.reverse_perm }]

/-- The second link transmits until 245 us, so the collision on the first one spares
it, and the tick at the end of the collision is in time for the station. -/
theorem woken_while_other_link_transmits :
    ∃ s, Run (step aloneOnSecondLink) (sparingTicks aloneOnSecondLink) (Sim.new aloneOnSecondLink)
        secondLinkFirst s ∧
      s.occupations.map Occupation.isCollision = [true, false] ∧
      (s.mac.linkMediums 1).busyUntil = 245000 ∧
      ∃ t ∈ s.ticks, 85000 ≤ t ∧ t ≤ 85000 + slotTime := by
  have hok : allOk (step aloneOnSecondLink) (sparingTicks aloneOnSecondLink)
      (Sim.new aloneOnSecondLink) secondLinkFirst := by
    decide +kernel
  have hrun : (runs (step aloneOnSecondLink) (Sim.new aloneOnSecondLink) secondLinkFirst).map
      (fun s => (due s 85000, (s.mac.perFlowQueues ⟨200, .bestEffort, 0⟩).isEmpty,
        s.mac.linkIsTransmitting 0, s.occupations.map Occupation.isCollision,
        [0, 1].map fun l => (s.mac.linkMediums l).busyUntil))
      = some (true, false, false, [true, false], [85000, 245000]) := by
    decide +kernel
  obtain ⟨s, hs, heq⟩ := Option.map_eq_some_iff.1 hrun
  simp only [Prod.mk.injEq, List.map_cons, List.map_nil, List.cons.injEq, and_true] at heq
  obtain ⟨hdue, hqueue, htrans, hoccupied, hbusy, hother⟩ := heq
  have h := Run.of_runs hok hs
  exact ⟨s, h, hoccupied, hother, links_contend_independently h 85000 hdue
    ⟨200, .bestEffort, 0⟩ (by decide) ⟨0, by decide, by simpa using hqueue⟩ htrans
    (Nat.le_of_eq hbusy)⟩

end SiestaVR.Mac
