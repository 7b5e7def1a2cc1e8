import Mathlib.Logic.Relation
import Mathlib.Logic.Function.Basic

/-!
# Carrier sensing on shared channels

An abstract model of access to channels that users share by listening. Every
user belongs to a channel (`chan`) and has a waiting time of its own (`space`).
A user is frozen or awake; awake users may occupy their channel together, and an
occupation freezes everybody on that channel. A user may be woken once its
channel has been free for its waiting time.

`Steps.sensed` says what this achieves, over any series of steps: occupations of
one channel do not overlap, and each starts no earlier than the end of any
previous one plus the waiting time of every user that takes part (`Spaced`).
-/

namespace SiestaVR.Lib

variable {κ ι : Type}

/-- An occupation of a channel. -/
structure Use (κ ι : Type) where
  channel : ι
  start : Nat
  stop : Nat
  users : List κ

/-- The channels and their users. -/
structure Channels (κ ι : Type) where
  now : Nat
  busyUntil : ι → Nat
  frozen : κ → Bool
  /-- All occupations so far, newest first. -/
  log : List (Use κ ι)

namespace Channels

section Steps

variable [DecidableEq ι] (chan : κ → ι) (space : κ → Nat)

/-- What may happen. -/
inductive Step : Channels κ ι → Channels κ ι → Prop
  /-- Time passes. -/
  | wait (c : Channels κ ι) (t : Nat) (ht : c.now ≤ t) : Step c { c with now := t }
  /-- Users freeze, or wake up after their waiting time. -/
  | wake (c : Channels κ ι) (frozen : κ → Bool)
      (h : ∀ k, frozen k = false →
        c.frozen k = false ∨ c.busyUntil (chan k) + space k ≤ c.now) :
      Step c { c with frozen := frozen }
  /-- Awake users of a channel occupy it. -/
  | occupy (c : Channels κ ι) (i : ι) (stop : Nat) (users : List κ) (hne : users ≠ [])
      (hawake : ∀ k ∈ users, chan k = i ∧ c.frozen k = false) (hstop : c.now ≤ stop)
      (frozen : κ → Bool) (hfrozen : ∀ k, frozen k = if chan k = i then true else c.frozen k) :
      Step c { c with
        busyUntil := Function.update c.busyUntil i stop
        frozen := frozen
        log := ⟨i, c.now, stop, users⟩ :: c.log }

/-- Any number of steps. -/
abbrev Steps : Channels κ ι → Channels κ ι → Prop := Relation.ReflTransGen (Step chan space)

/-- Occupations of one channel are disjoint, and every user has waited. -/
def Spaced (log : List (Use κ ι)) : Prop :=
  log.Pairwise fun later earlier => later.channel = earlier.channel →
    earlier.stop ≤ later.start ∧ ∀ k ∈ later.users, earlier.stop + space k ≤ later.start

/-- The invariant: nobody is awake on a busy channel, nor on one that has not been
free for long enough, unless it was never occupied. -/
structure Sensed (c : Channels κ ι) : Prop where
  free : ∀ k, c.frozen k = false → c.busyUntil (chan k) ≤ c.now
  stops : ∀ u ∈ c.log, u.stop ≤ c.busyUntil u.channel
  awake : ∀ k, c.frozen k = false →
    (∀ u ∈ c.log, u.channel ≠ chan k) ∨ c.busyUntil (chan k) + space k ≤ c.now
  spaced : Spaced space c.log

variable {chan space} {c c' : Channels κ ι}

omit [DecidableEq ι] in
/-- An awake user sees every earlier occupation of its channel over, by at least
its waiting time. -/
theorem Sensed.waited (h : Sensed chan space c) {k : κ} (hk : c.frozen k = false) {u : Use κ ι}
    (hu : u ∈ c.log) (hchan : u.channel = chan k) : u.stop + space k ≤ c.now := by
  rcases h.awake k hk with hnone | hfree
  · exact absurd hchan (hnone u hu)
  · have hstop := h.stops u hu
    rw [hchan] at hstop
    omega

/-- **One step keeps the invariant.** -/
theorem Step.sensed (hs : Step chan space c c') (h : Sensed chan space c) :
    Sensed chan space c' := by
  cases hs with
  | wait t ht =>
    refine ⟨fun k hk => Nat.le_trans (h.free k hk) ht, h.stops, fun k hk => ?_, h.spaced⟩
    exact (h.awake k hk).imp_right fun hfree => Nat.le_trans hfree ht
  | wake frozen hw =>
    refine ⟨fun k hk => ?_, h.stops, fun k hk => ?_, h.spaced⟩
    · rcases hw k hk with hawake | hfree
      · exact h.free k hawake
      · exact Nat.le_trans (Nat.le_add_right _ _) hfree
    · rcases hw k hk with hawake | hfree
      · exact h.awake k hawake
      · exact Or.inr hfree
  | occupy i stop users hne hawake hstop frozen hfrozen =>
    -- some user takes part, so earlier occupations of the channel are over
    obtain ⟨k₀, hk₀⟩ := List.exists_mem_of_ne_nil users hne
    have hover : ∀ u ∈ c.log, u.channel = i → u.stop ≤ c.now := by
      intro u hu hi
      have hwait := h.waited (hawake k₀ hk₀).2 hu (hi.trans (hawake k₀ hk₀).1.symm)
      omega
    have hothers : ∀ k, frozen k = false → chan k ≠ i ∧ c.frozen k = false := by
      intro k hk
      rw [hfrozen k] at hk
      split at hk
      · cases hk
      · exact ⟨‹_›, hk⟩
    refine ⟨?_, ?_, ?_, ?_⟩
    · intro k hk
      obtain ⟨hne', hk⟩ := hothers k hk
      show Function.update c.busyUntil i stop (chan k) ≤ c.now
      rw [Function.update_of_ne hne']
      exact h.free k hk
    · intro u hu
      show u.stop ≤ Function.update c.busyUntil i stop u.channel
      rcases List.mem_cons.1 hu with rfl | hu
      · simp
      · by_cases hi : u.channel = i
        · rw [hi, Function.update_self]
          exact Nat.le_trans (hover u hu hi) hstop
        · rw [Function.update_of_ne hi]
          exact h.stops u hu
    · intro k hk
      obtain ⟨hne', hk⟩ := hothers k hk
      show (∀ u ∈ _ :: c.log, u.channel ≠ chan k) ∨
        Function.update c.busyUntil i stop (chan k) + space k ≤ c.now
      rw [Function.update_of_ne hne']
      refine (h.awake k hk).imp_left fun hnone u hu => ?_
      rcases List.mem_cons.1 hu with rfl | hu
      · exact fun heq => hne' heq.symm
      · exact hnone u hu
    · refine List.pairwise_cons.2 ⟨fun u hu hchan => ?_, h.spaced⟩
      refine ⟨hover u hu hchan.symm, fun k hk => ?_⟩
      exact h.waited (hawake k hk).2 hu (hchan.symm.trans (hawake k hk).1.symm)

/-- **Any series of steps keeps it.** -/
theorem Steps.sensed (hs : Steps chan space c c') (h : Sensed chan space c) :
    Sensed chan space c' := by
  induction hs with
  | refl => exact h
  | tail _ hstep ih => exact hstep.sensed ih

end Steps

end Channels

end SiestaVR.Lib
