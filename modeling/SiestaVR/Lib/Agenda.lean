import Mathlib.Data.List.Count

/-!
# Agendas of scheduled events

A discrete-event program keeps a clock and the events it has scheduled. `advance`
moves the clock on to the time of something that happens from outside, which is
possible only when no scheduled event is due earlier; `fire` does the same for a
scheduled event and takes it off the agenda. Events are never lost and never run late.

`dueBy` counts the events of one kind that are due up to some time. It is what bounds
the work such events have to do: scheduling adds one to the count, firing takes one
away, and once the clock has passed a time nothing due by it is left.
-/

namespace SiestaVR.Lib

variable {α : Type}

/-- The current time, and the scheduled events with the times they are due. -/
structure Agenda (α : Type) where
  now : Nat
  pending : List (Nat × α)
deriving DecidableEq, Repr

namespace Agenda

/-- The event is scheduled some time from now. -/
def schedule (a : Agenda α) (delay : Nat) (x : α) : Agenda α :=
  { a with pending := a.pending ++ [(a.now + delay, x)] }

/-- The clock moves on to `t`, if no event is due before. -/
def advance (a : Agenda α) (t : Nat) : Option (Agenda α) :=
  if a.now ≤ t ∧ ∀ p ∈ a.pending, t ≤ p.1 then some { a with now := t } else none

/-- No event is overdue. -/
def OnTime (a : Agenda α) : Prop := ∀ p ∈ a.pending, a.now ≤ p.1

variable {a a' : Agenda α} {t : Nat}

theorem advance_eq_some : a.advance t = some a' ↔
    (a.now ≤ t ∧ ∀ p ∈ a.pending, t ≤ p.1) ∧ a' = { a with now := t } := by
  rw [advance, Option.ite_none_right_eq_some, Option.some.injEq, eq_comm (a := a')]

theorem OnTime.of_advance (h : a.advance t = some a') : a'.OnTime := by
  obtain ⟨⟨-, hdue⟩, rfl⟩ := advance_eq_some.1 h
  exact hdue

theorem OnTime.schedule (h : a.OnTime) (delay : Nat) (x : α) :
    (a.schedule delay x).OnTime := by
  intro p hp
  rcases List.mem_append.1 hp with hp | hp
  · exact h p hp
  · rw [List.mem_singleton.1 hp]
    exact Nat.le_add_right _ _

/-! ## Running scheduled events -/

variable [DecidableEq α]

/-- The event, due at `t`, is run now. -/
def fire (a : Agenda α) (t : Nat) (x : α) : Option (Agenda α) :=
  if (t, x) ∈ a.pending then
    (a.advance t).map fun a => { a with pending := a.pending.erase (t, x) }
  else none

/-- How many events of a kind are scheduled. -/
def outstanding (a : Agenda α) (x : α) : Nat := a.pending.countP fun p => p.2 = x

/-- How many of them are due at `t` or before. -/
def dueBy (a : Agenda α) (x : α) (t : Nat) : Nat :=
  a.pending.countP fun p => p.2 = x ∧ p.1 ≤ t

theorem fire_eq_some {x : α} : a.fire t x = some a' ↔
    (t, x) ∈ a.pending ∧ (a.now ≤ t ∧ ∀ p ∈ a.pending, t ≤ p.1) ∧
      a' = { now := t, pending := a.pending.erase (t, x) } := by
  rw [fire, Option.ite_none_right_eq_some, Option.map_eq_some_iff]
  refine and_congr_right fun _ => ?_
  constructor
  · rintro ⟨b, hb, rfl⟩
    obtain ⟨ht, rfl⟩ := advance_eq_some.1 hb
    exact ⟨ht, rfl⟩
  · rintro ⟨ht, rfl⟩
    exact ⟨_, advance_eq_some.2 ⟨ht, rfl⟩, rfl⟩

theorem outstanding_schedule (a : Agenda α) (delay : Nat) (x y : α) :
    (a.schedule delay x).outstanding y = a.outstanding y + if x = y then 1 else 0 := by
  simp [outstanding, schedule, List.countP_singleton]

theorem dueBy_schedule (a : Agenda α) (delay : Nat) (x y : α) (t : Nat) :
    (a.schedule delay x).dueBy y t =
      a.dueBy y t + if x = y ∧ a.now + delay ≤ t then 1 else 0 := by
  simp [dueBy, schedule, List.countP_singleton]

theorem dueBy_fire {x : α} (h : a.fire t x = some a') (y : α)
    (t' : Nat) : a'.dueBy y t' + (if x = y ∧ t ≤ t' then 1 else 0) = a.dueBy y t' := by
  obtain ⟨hmem, -, rfl⟩ := fire_eq_some.1 h
  have hcount := (List.perm_cons_erase hmem).countP_eq fun p => decide (p.2 = y ∧ p.1 ≤ t')
  simp only [dueBy, hcount, List.countP_cons, decide_eq_true_eq]

theorem dueBy_mono (a : Agenda α) (x : α) {t' : Nat} (h : t ≤ t') :
    a.dueBy x t ≤ a.dueBy x t' := by
  refine List.countP_mono_left fun p _ hp => ?_
  simp only [decide_eq_true_eq] at hp ⊢
  exact ⟨hp.1, Nat.le_trans hp.2 h⟩

theorem dueBy_le_outstanding (a : Agenda α) (x : α) (t : Nat) : a.dueBy x t ≤ a.outstanding x := by
  refine List.countP_mono_left fun p _ hp => ?_
  simp only [decide_eq_true_eq] at hp ⊢
  exact hp.1

theorem OnTime.of_fire {x : α} (h : a.fire t x = some a') :
    a'.OnTime := by
  obtain ⟨-, ⟨-, hdue⟩, rfl⟩ := fire_eq_some.1 h
  exact fun p hp => hdue p (List.mem_of_mem_erase hp)

theorem OnTime.dueBy_eq_zero (h : a.OnTime) (x : α) (ht : t < a.now) :
    a.dueBy x t = 0 := by
  refine List.countP_eq_zero.2 fun p hp => ?_
  simp only [decide_eq_true_eq, not_and, Nat.not_le]
  exact fun _ => Nat.lt_of_lt_of_le ht (h p hp)

end Agenda

end SiestaVR.Lib
