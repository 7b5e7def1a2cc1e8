import SiestaVR.Kernel.PriorityQueue
import SiestaVR.Lib.Runs
import Mathlib.Data.List.Count
import Mathlib.Data.Nat.Basic

/-!
# A model and its scheduled events

The kernel runs the events of one model by their times, and events of the same time in the
order in which they were scheduled. A `Node` is the state of a model, its part of the
scheduler queue, and the events it has run. A handler computes the next state and the events
it schedules, in order; an event has to lie in the future, or `unwrap` aborts.

The second part is a rule for models whose sessions are opened and closed by a driver. If
each session opens at most one chain of every kind, each event of a chain continues it at
most once, and nothing but the driver opens or closes a session, then there is one chain of
each kind at most until a second session is opened (`Phased.turn`).
-/

namespace SiestaVR.Xr

open Lib Kernel

variable {T S : Type}

/-- What an event does at its time: the next state, and the events it schedules. -/
abbrev Handler (T S : Type) := Nat → T → S → Option (S × List (Nat × T))

/-- A model. -/
structure Node (T S : Type) where
  queue : PriorityQueue Nat T
  state : S
  ran : List (Nat × T)

namespace Node

/-- A model without events. -/
def new (state : S) : Node T S := ⟨.new, state, []⟩

/-- The scheduled events, in the order in which they will be run. -/
def events (n : Node T S) : List (Nat × T) := n.queue.heap.map Item.entry

/-- The time of the next event. -/
def due (n : Node T S) : Option Nat := n.queue.peek.map Prod.fst

/-- `Scheduler::schedule_event(..).unwrap()`. -/
def schedule (now : Nat) (n : Node T S) (x : Nat × T) : Option (Node T S) :=
  if x.1 ≤ now then none else some { n with queue := n.queue.insert x.1 x.2 }

/-- Several events are scheduled. -/
def scheduleAll (now : Nat) : Node T S → List (Nat × T) → Option (Node T S) := runs (schedule now)

/-- The next event is run. -/
def turn (handle : Handler T S) (n : Node T S) : Option (Node T S) :=
  n.queue.pull.bind fun ((t, x), queue) =>
    (handle t x n.state).bind fun (state, out) =>
      scheduleAll t ⟨queue, state, n.ran ++ [(t, x)]⟩ out

/-- How many events of a kind are scheduled. -/
def outstanding [DecidableEq T] (n : Node T S) (x : T) : Nat := n.events.countP (·.2 = x)

/-! ## Scheduling -/

variable {now : Nat} {n n' : Node T S} {out : List (Nat × T)}

/-- What scheduling leaves: the new events among the old ones. -/
structure Scheduled (n n' : Node T S) (out : List (Nat × T)) : Prop where
  perm : n'.events.Perm (out ++ n.events)
  others : ∀ p : Nat × T → Bool, (∀ y ∈ out, p y = false) → n'.events.filter p = n.events.filter p
  state : n'.state = n.state
  ran : n'.ran = n.ran

theorem schedule_eq_some {x : Nat × T} : n.schedule now x = some n' ↔
    now < x.1 ∧ n' = { n with queue := n.queue.insert x.1 x.2 } := by
  rw [schedule, Option.ite_none_left_eq_some, Option.some.injEq, not_le, eq_comm (a := n')]

theorem Scheduled.cons {n₁ : Node T S} {x : Nat × T} (h : n.schedule now x = some n₁)
    (h' : Scheduled n₁ n' out) : Scheduled n n' (x :: out) := by
  obtain ⟨-, rfl⟩ := schedule_eq_some.1 h
  refine ⟨?_, fun p hp => ?_, h'.state, h'.ran⟩
  · have hperm := (n.queue.perm_insert x.1 x.2).map Item.entry
    exact (h'.perm.trans (hperm.append_left out)).trans List.perm_middle
  · have hx : p ((n.queue.nextItem x.1 x.2).entry) = false := hp x List.mem_cons_self
    rw [h'.others p fun y hy => hp y (List.mem_cons_of_mem _ hy), events, events,
      List.filter_map, List.filter_map, PriorityQueue.filter_insert_of_not hx]

theorem scheduled_of_scheduleAll (h : n.scheduleAll now out = some n') : Scheduled n n' out := by
  induction out generalizing n with
  | nil =>
    obtain rfl : n = n' := Option.some.inj h
    exact ⟨.rfl, fun _ _ => rfl, rfl, rfl⟩
  | cons x out ih =>
    obtain ⟨n₁, h₁, h₂⟩ := Option.bind_eq_some_iff.1 h
    exact .cons h₁ (ih h₂)

/-- Events that are scheduled in the order of their times, behind all others, stay so. -/
theorem events_scheduleAll (h : n.scheduleAll now out = some n')
    (hsorted : out.Pairwise fun x y => x.1 ≤ y.1) (hlast : ∀ y ∈ n.events, ∀ x ∈ out, y.1 ≤ x.1) :
    n'.events = n.events ++ out := by
  induction out generalizing n with
  | nil =>
    obtain rfl : n = n' := Option.some.inj h
    exact (List.append_nil _).symm
  | cons x out ih =>
    obtain ⟨n₁, h₁, h₂⟩ := Option.bind_eq_some_iff.1 h
    obtain ⟨-, rfl⟩ := schedule_eq_some.1 h₁
    obtain ⟨hx, hout⟩ := List.pairwise_cons.1 hsorted
    have hevents : (n.queue.insert x.1 x.2).heap.map Item.entry = n.events ++ [x] := by
      rw [PriorityQueue.heap_insert_of_le, List.map_append]
      · rfl
      · exact fun i hi => hlast i.entry (List.mem_map_of_mem hi) x List.mem_cons_self
    have hlast' : ∀ y ∈ n.events ++ [x], ∀ z ∈ out, y.1 ≤ z.1 := by
      intro y hy z hz
      rcases List.mem_append.1 hy with hy | hy
      · exact hlast y hy z (List.mem_cons_of_mem _ hz)
      · rw [List.mem_singleton.1 hy]
        exact hx z hz
    have hih := ih h₂ hout (by rw [events, hevents]; exact hlast')
    rw [hih, events, hevents, List.append_assoc]
    rfl

/-- **One event**: it was the next one, and what it schedules is among the others. -/
theorem turn_spec {handle : Handler T S} (h : n.turn handle = some n') :
    ∃ t x l s out n₁, n.due = some t ∧ n.events = (t, x) :: l ∧
      handle t x n.state = some (s, out) ∧ n₁.events = l ∧ n₁.state = s ∧
      n₁.ran = n.ran ++ [(t, x)] ∧ Scheduled n₁ n' out := by
  obtain ⟨⟨⟨t, x⟩, q⟩, hpull, h⟩ := Option.bind_eq_some_iff.1 h
  obtain ⟨⟨s, out⟩, hhandle, h⟩ := Option.bind_eq_some_iff.1 h
  obtain ⟨i, hi, heq⟩ := Option.map_eq_some_iff.1 hpull
  obtain ⟨hentry, rfl⟩ := Prod.mk.inj heq
  obtain ⟨l, hl⟩ := List.head?_eq_some_iff.1 hi
  refine ⟨t, x, l.map Item.entry, s, out, _, ?_, ?_, hhandle, ?_, rfl, rfl,
    scheduled_of_scheduleAll h⟩
  · rw [due, PriorityQueue.peek, hi, Option.map_some, hentry]
    rfl
  · rw [events, hl, List.map_cons, hentry]
  · rw [events, PriorityQueue.heap_tail, hl, List.tail_cons]

end Node

/-! ## Sessions -/

/-- What an event is to the sessions of its model. -/
inductive Role
  | start
  | stop
  | restart
  | chain
  | other
deriving DecidableEq, Repr

section Sessions

variable [DecidableEq T] (role : T → Role) (streaming : S → Bool)

/-- Only a start opens a chain and only the chain continues it; streaming ends with a stop and
is left alone by other events; starts and stops are not scheduled from within. -/
structure Lawful (x : T) (s s' : S) (out : List (Nat × T)) : Prop where
  stop : role x = .stop → streaming s' = false
  keep : role x = .chain ∨ role x = .other → streaming s' = streaming s
  driven : ∀ y ∈ out, role y.2 ≠ .start ∧ role y.2 ≠ .stop
  restart : ∀ y ∈ out, role y.2 = .restart → role x = .stop ∨ role x = .restart
  chain : role x ≠ .restart → ∀ c, role c = .chain →
    out.countP (·.2 = c) ≤ if role x = .start ∨ x = c then 1 else 0

/-- Every event of the model is lawful. -/
def Disciplined (handle : Handler T S) : Prop :=
  ∀ ⦃t x s s' out⦄, handle t x s = some (s', out) → Lawful role streaming x s s' out

/-- The first session of a driver; everything else it schedules is at `limit` or later. -/
structure Plan where
  opening : Nat × T
  closing : Nat × T
  later : List (Nat × T)
  limit : Nat
  opening_role : role opening.2 = .start
  closing_role : role closing.2 = .stop
  later_ge : ∀ y ∈ later, limit ≤ y.1

/-- Starts and stops. -/
def Role.driven : Role → Bool
  | .start | .stop => true
  | _ => false

/-- The events of the driver that are still to come. -/
def Node.driven (n : Node T S) : List (Nat × T) := n.events.filter fun y => (role y.2).driven

/-- No event has ended a session. -/
def Node.Unstopped (n : Node T S) : Prop := ∀ y ∈ n.ran, role y.2 ≠ .stop

/-- At most `k` events of every chain. -/
def Node.Chains (n : Node T S) (k : Nat) : Prop :=
  ∀ c, role c = .chain → n.outstanding c ≤ k

variable {role}

/-- Before, in and after the first session. -/
inductive Phase (P : Plan role) (n : Node T S) : Prop
  | before (hdriven : n.driven role = P.opening :: P.closing :: P.later)
      (hsilent : streaming n.state = false) (hchains : n.Chains role 0) (hran : n.Unstopped role)
  | during (hdriven : n.driven role = P.closing :: P.later) (hchains : n.Chains role 1)
      (hran : n.Unstopped role)
  | after (hdriven : n.driven role = P.later) (hsilent : streaming n.state = false)
      (hchains : n.Chains role 1)

/-- A model in one of the phases, which is not restarted before the limit. -/
structure Phased (P : Plan role) (n : Node T S) : Prop where
  phase : Phase streaming P n
  restarts : ∀ y ∈ n.events, role y.2 = .restart → P.limit ≤ y.1

variable {streaming} {P : Plan role} {n n' : Node T S} {handle : Handler T S}

theorem Phased.chains (h : Phased streaming P n) : n.Chains role 1 := by
  cases h.phase with
  | before _ _ hchains _ => exact fun c hc => (hchains c hc).trans Nat.one_pos.le
  | during _ hchains _ => exact hchains
  | after _ _ hchains => exact hchains

theorem Phased.silent (h : Phased streaming P n) {y : Nat × T} (hy : y ∈ n.ran)
    (hstop : role y.2 = .stop) : streaming n.state = false := by
  cases h.phase with
  | before _ hsilent _ _ => exact hsilent
  | during _ _ hran => exact absurd hstop (hran y hy)
  | after _ hsilent _ => exact hsilent

variable (role) in
/-- What the event `x`, run at `t`, does to the driver's events, the chains and the history. -/
structure Effect (n n' : Node T S) (t : Nat) (x : T) (out : List (Nat × T)) : Prop where
  mem : (t, x) ∈ n.events
  events : ∀ y ∈ n'.events, y ∈ out ∨ y ∈ n.events
  driven : n.driven role = if (role x).driven then (t, x) :: n'.driven role else n'.driven role
  outstanding : ∀ c, n'.outstanding c + (if x = c then 1 else 0) =
    out.countP (·.2 = c) + n.outstanding c
  ran : n'.ran = n.ran ++ [(t, x)]

theorem Effect.of_turn (hd : Disciplined role streaming handle) (h : n.turn handle = some n') :
    ∃ t x out, n.due = some t ∧ handle t x n.state = some (n'.state, out) ∧
      Effect role n n' t x out := by
  obtain ⟨t, x, l, s, out, n₁, hdue, hevents, hhandle, rfl, rfl, hran, hsched⟩ := Node.turn_spec h
  refine ⟨t, x, out, hdue, hsched.state ▸ hhandle, ⟨?_, fun y hy => ?_, ?_, fun c => ?_, ?_⟩⟩
  · rw [hevents]
    exact List.mem_cons_self
  · rcases List.mem_append.1 (hsched.perm.mem_iff.1 hy) with hy | hy
    · exact .inl hy
    · exact .inr (hevents ▸ List.mem_cons_of_mem _ hy)
  · have hsame : n'.driven role = n₁.driven role := by
      refine hsched.others _ fun y hy => ?_
      obtain ⟨hstart, hstop⟩ := (hd hhandle).driven y hy
      revert hstart hstop
      cases role y.2 <;> simp [Role.driven]
    rw [hsame, Node.driven, hevents, List.filter_cons]
    rfl
  · simp only [Node.outstanding, hsched.perm.countP_eq, hevents, List.countP_append,
      List.countP_cons, decide_eq_true_eq]
    omega
  · exact hsched.ran.trans hran

section Step

variable {t : Nat} {x : T} {s : S} {out : List (Nat × T)}

omit [DecidableEq T] in
theorem Node.Unstopped.concat (h : n.Unstopped role) (hran : n'.ran = n.ran ++ [(t, x)])
    (hx : role x ≠ .stop) : n'.Unstopped role := by
  intro y hy
  rw [hran] at hy
  rcases List.mem_append.1 hy with hy | hy
  · exact h y hy
  · rw [List.mem_singleton.1 hy]
    exact hx

theorem Node.Chains.of_effect {k : Nat} (h : n.Chains role k)
    (hd : Disciplined role streaming handle) (hhandle : handle t x n.state = some (n'.state, out))
    (he : Effect role n n' t x out) (hrestart : role x ≠ .restart) (hx : role x ≠ .start) :
    n'.Chains role k := by
  intro c hc
  have hout := (hd hhandle).chain hrestart c hc
  have hcount := he.outstanding c
  have hle := h c hc
  simp only [hx, false_or] at hout
  omega

theorem Node.Chains.of_start (h : n.Chains role 0) (hd : Disciplined role streaming handle)
    (hhandle : handle t x n.state = some (n'.state, out)) (he : Effect role n n' t x out)
    (hx : role x = .start) : n'.Chains role 1 := by
  intro c hc
  have hout := (hd hhandle).chain (by simp [hx]) c hc
  have hcount := he.outstanding c
  have hle := h c hc
  rw [if_pos (.inl hx)] at hout
  omega

/-- A start or a stop that is run before the limit belongs to the first session. -/
theorem Phase.of_driven (h : Phase streaming P n) (he : Effect role n n' t x out)
    (ht : t < P.limit) (hx : (role x).driven) :
    ((t, x) = P.opening ∧ n'.driven role = P.closing :: P.later ∧ n.Chains role 0 ∧
        n.Unstopped role) ∨
      ((t, x) = P.closing ∧ n'.driven role = P.later ∧ n.Chains role 1) := by
  have hcons : n.driven role = (t, x) :: n'.driven role := by rw [he.driven, if_pos hx]
  cases h with
  | before hdriven _ hchains hran =>
    obtain ⟨heq, hrest⟩ := List.cons.inj (hcons.symm.trans hdriven)
    exact .inl ⟨heq, hrest, hchains, hran⟩
  | during hdriven hchains hran =>
    obtain ⟨heq, hrest⟩ := List.cons.inj (hcons.symm.trans hdriven)
    exact .inr ⟨heq, hrest, hchains⟩
  | after hdriven _ _ =>
    -- What is left of the driver lies behind the limit.
    have hmem : (t, x) ∈ P.later := hdriven ▸ hcons ▸ List.mem_cons_self
    exact absurd (P.later_ge _ hmem) (not_le.2 ht)

theorem Phase.of_start (h : Phase streaming P n) (hd : Disciplined role streaming handle)
    (hhandle : handle t x n.state = some (n'.state, out)) (he : Effect role n n' t x out)
    (ht : t < P.limit) (hx : role x = .start) : Phase streaming P n' := by
  rcases h.of_driven he ht (by rw [hx]; rfl) with ⟨-, hdriven, hchains, hran⟩ | ⟨heq, -⟩
  · exact .during hdriven (hchains.of_start hd hhandle he hx)
      (hran.concat he.ran (by rw [hx]; decide))
  · have hstop := P.closing_role
    rw [← heq, hx] at hstop
    cases hstop

theorem Phase.of_stop (h : Phase streaming P n) (hd : Disciplined role streaming handle)
    (hhandle : handle t x n.state = some (n'.state, out)) (he : Effect role n n' t x out)
    (ht : t < P.limit) (hx : role x = .stop) : (t, x) = P.closing ∧ Phase streaming P n' := by
  rcases h.of_driven he ht (by rw [hx]; rfl) with ⟨heq, -⟩ | ⟨heq, hdriven, hchains⟩
  · have hstart := P.opening_role
    rw [← heq, hx] at hstart
    cases hstart
  · refine ⟨heq, .after hdriven ((hd hhandle).stop hx) ?_⟩
    exact hchains.of_effect hd hhandle he (by rw [hx]; decide) (by rw [hx]; decide)

theorem Phase.of_other (h : Phase streaming P n) (hd : Disciplined role streaming handle)
    (hhandle : handle t x n.state = some (n'.state, out)) (he : Effect role n n' t x out)
    (hx : role x = .chain ∨ role x = .other) : Phase streaming P n' := by
  have hkeep : streaming n'.state = streaming n.state := (hd hhandle).keep hx
  have hroles : role x ≠ .restart ∧ role x ≠ .start ∧ role x ≠ .stop ∧ ¬ (role x).driven := by
    rcases hx with hx | hx <;> simp [hx, Role.driven]
  obtain ⟨hrestart, hstart, hstop, hx⟩ := hroles
  have hdriven : n.driven role = n'.driven role := by rw [he.driven, if_neg hx]
  cases h with
  | before h₁ h₂ h₃ h₄ =>
    exact .before (hdriven ▸ h₁) (hkeep.trans h₂) (h₃.of_effect hd hhandle he hrestart hstart)
      (h₄.concat he.ran hstop)
  | during h₁ h₂ h₃ =>
    exact .during (hdriven ▸ h₁) (h₂.of_effect hd hhandle he hrestart hstart)
      (h₃.concat he.ran hstop)
  | after h₁ h₂ h₃ =>
    exact .after (hdriven ▸ h₁) (hkeep.trans h₂) (h₃.of_effect hd hhandle he hrestart hstart)

end Step

/-- **One event**: before the limit, the model stays in its phase or goes on to the next. -/
theorem Phased.turn (hd : Disciplined role streaming handle)
    (hrestart : ∀ s s' out, handle P.closing.1 P.closing.2 s = some (s', out) →
      ∀ y ∈ out, role y.2 = .restart → P.limit ≤ y.1)
    (h : Phased streaming P n) (hturn : n.turn handle = some n')
    (hdue : ∀ t ∈ n.due, t < P.limit) : Phased streaming P n' := by
  obtain ⟨t, x, out, ht, hhandle, he⟩ := Effect.of_turn hd hturn
  have ht : t < P.limit := hdue t ht
  have hx : role x ≠ .restart := fun hx => absurd (h.restarts (t, x) he.mem hx) (not_le.2 ht)
  constructor
  · cases hrole : role x with
    | start => exact h.phase.of_start hd hhandle he ht hrole
    | stop => exact (h.phase.of_stop hd hhandle he ht hrole).2
    | restart => exact absurd hrole hx
    | chain => exact h.phase.of_other hd hhandle he (.inl hrole)
    | other => exact h.phase.of_other hd hhandle he (.inr hrole)
  · intro y hy hyrole
    rcases he.events y hy with hy | hy
    · have hstop : role x = .stop := ((hd hhandle).restart y hy hyrole).resolve_right hx
      obtain ⟨heq, -⟩ := h.phase.of_stop hd hhandle he ht hstop
      rw [Prod.ext_iff] at heq
      obtain ⟨rfl, rfl⟩ := heq
      exact hrestart _ _ _ hhandle y hy hyrole
    · exact h.restarts y hy hyrole

end Sessions

end SiestaVR.Xr
