import Mathlib.Algebra.Order.Ring.Nat
import SiestaVR.Lib.Runs
import SiestaVR.Lib.Threads

/-!
# The simulation time in a sequence lock (asynchronix/src/util/sync_cell.rs)

The simulation time is written by one thread and read by any number of others without a lock. The
writer makes the sequence count odd, stores the two fields of the time and makes the count even
again; a reader discards what it has loaded if the count was odd or has changed. Fields are stored
and loaded one at a time (time/monotonic_time.rs:26–45), and a time is built from the two by a
constructor that refuses nanoseconds out of range.

The time itself is of another library. Of it only what is documented is assumed (`TaiTime`): which
nanoseconds the constructor refuses, and that a time is given by its two parts.

Threads take turns in any order, one access at a time, and accesses have one total order. A time
that is refused is a fault. `current` is the time that was written last, `writes` the number of
writes, and `reads` what each reader returned, with the time that was current when it did.

What makes a load harmless is the order of accesses: the fields change only while the count is
odd, a reader starts only when it is even, and the count never returns to an earlier value. The
invariant therefore says of each reader what it has loaded only for the case that the count is
still the one it has seen (`ReaderOk`). That a read succeeds is shown apart from it: between the
call of a read and its return, whatever other readers do, no event but a store of the writer
changes what the reader looks at (`Undisturbed`).
-/

namespace SiestaVR.Sync.SyncCell

open SiestaVR.Lib

/-- `MonotonicTime`, with what its library documents. -/
class TaiTime (T : Type) where
  new : Int64 → UInt32 → Option T
  asSecs : T → Int64
  subsecNanos : T → UInt32
  /-- Nanoseconds are refused if they are a second or more. -/
  new_isSome_iff : ∀ secs nanos, (new secs nanos).isSome ↔ nanos < 1000000000
  parts_of_new : ∀ {secs nanos t}, new secs nanos = some t → asSecs t = secs ∧ subsecNanos t = nanos
  new_parts : ∀ t, new (asSecs t) (subsecNanos t) = some t

open TaiTime

variable {T : Type} [TaiTime T]

theorem exists_new (T : Type) [TaiTime T] {nanos : UInt32} (h : nanos < 1000000000)
    (secs : Int64) : ∃ t : T, new secs nanos = some t :=
  Option.isSome_iff_exists.1 ((new_isSome_iff secs nanos).2 h)

theorem subsecNanos_lt (t : T) : subsecNanos t < 1000000000 :=
  (new_isSome_iff (asSecs t) _).1 (Option.isSome_iff_exists.2 ⟨t, new_parts t⟩)

theorem time_ext {t t' : T} (hsecs : asSecs t = asSecs t')
    (hnanos : subsecNanos t = subsecNanos t') : t = t' := by
  have h := new_parts t
  rw [hsecs, hnanos, new_parts] at h
  exact (Option.some.inj h).symm

section Model

variable (T)

/-- Where the writer is in `SyncCell::write`. -/
inductive Writer
  | idle
  /-- The sequence count was loaded. -/
  | loaded (seq : UInt64) (value : T)
  /-- The sequence count is odd. -/
  | opened (seq : UInt64) (value : T)
  /-- The seconds are stored. -/
  | halfway (seq : UInt64) (value : T)
  /-- The nanoseconds are stored as well. -/
  | stored (seq : UInt64) (value : T)
deriving DecidableEq

/-- Where a reader is in `SyncCellReader::try_read`. -/
inductive Reader
  /-- The sequence count was even. -/
  | started (seq : UInt64)
  /-- The seconds are loaded. -/
  | halfway (seq : UInt64) (secs : Int64)
  /-- The time is loaded. -/
  | checking (seq : UInt64) (value : T)
  | returned
deriving DecidableEq

/-- A cell with its writer and its readers. -/
structure State where
  secs : Int64
  nanos : UInt32
  sequence : UInt64 := 0
  writer : Writer T := .idle
  readers : List (Reader T) := []
  fault : Bool := false
  current : T
  writes : Nat := 0
  reads : List (Option T × T) := []
deriving DecidableEq

/-- What happens next. -/
inductive Event
  /-- The writer calls `write`. -/
  | write (value : T)
  /-- The writer goes on. -/
  | writer
  /-- A thread calls `try_read`. -/
  | tryRead
  /-- A reader goes on. -/
  | reader (k : Nat)
deriving DecidableEq

end Model

/-- `SyncCell::new` with a `TearableAtomicTime`. -/
def newCell (time : T) : State T where
  secs := asSecs time
  nanos := subsecNanos time
  current := time

namespace State

/-- `SyncCell::read`, by the writer; no time where the constructor refuses it. -/
def read (s : State T) : Option T := TaiTime.new s.secs s.nanos

/-- The writer goes on. -/
def stepWriter (s : State T) : Option (State T) :=
  match s.writer with
  | .idle => none
  | .loaded seq value => some { s with sequence := seq + 1, writer := .opened seq value }
  | .opened seq value => some { s with secs := asSecs value, writer := .halfway seq value }
  | .halfway seq value => some { s with nanos := subsecNanos value, writer := .stored seq value }
  | .stored seq value =>
    some { s with
      sequence := seq + 2, writer := .idle, current := value, writes := s.writes + 1 }

/-- `try_read`: the sequence count is loaded. -/
def callTryRead (s : State T) : State T :=
  if s.sequence &&& 1 ≠ 0 then
    { s with readers := s.readers ++ [.returned], reads := s.reads ++ [(none, s.current)] }
  else { s with readers := s.readers ++ [.started s.sequence] }

/-- A reader goes on. -/
def stepReader (s : State T) (k : Nat) : Option (State T) :=
  match s.readers[k]? with
  | some (.started seq) => some { s with readers := s.readers.set k (.halfway seq s.secs) }
  | some (.halfway seq secs) =>
    match TaiTime.new secs s.nanos with
    | none => some { s with fault := true }
    | some value => some { s with readers := s.readers.set k (.checking seq value) }
  | some (.checking seq value) =>
    some { s with
      readers := s.readers.set k .returned
      reads := s.reads ++ [(if s.sequence = seq then some value else none, s.current)] }
  | _ => none

/-- One access; nothing happens any more after a fault. -/
def step [DecidableEq T] (s : State T) (e : Event T) : Option (State T) :=
  if s.fault = false then
    match e with
    | .write value =>
      if s.writer = .idle then some { s with writer := .loaded s.sequence value } else none
    | .writer => s.stepWriter
    | .tryRead => some s.callTryRead
    | .reader k => s.stepReader k
  else none

end State

/-! ## The invariant -/

/-- The writer has made the sequence count odd. -/
def Writer.inside : Writer T → Bool
  | .idle => false
  | .loaded _ _ => false
  | .opened _ _ => true
  | .halfway _ _ => true
  | .stored _ _ => true

/-- What the writer knows and has done. -/
def WriterOk (s : State T) : Writer T → Prop
  | .idle => s.secs = asSecs s.current ∧ s.nanos = subsecNanos s.current
  | .loaded seq _ => seq = s.sequence ∧ s.secs = asSecs s.current ∧ s.nanos = subsecNanos s.current
  | .opened seq _ => seq + 1 = s.sequence
  | .halfway seq value => seq + 1 = s.sequence ∧ s.secs = asSecs value
  | .stored seq value => seq + 1 = s.sequence ∧ s.secs = asSecs value ∧ s.nanos = subsecNanos value

/-- As long as the sequence count is the one it has seen, what a reader has loaded is in the
cell. -/
def ReaderOk (s : State T) : Reader T → Prop
  | .started seq => seq.toNat % 2 = 0 ∧ seq.toNat ≤ s.sequence.toNat
  | .halfway seq secs =>
    seq.toNat % 2 = 0 ∧ seq.toNat ≤ s.sequence.toNat ∧ (s.sequence = seq → secs = s.secs)
  | .checking seq value =>
    seq.toNat % 2 = 0 ∧ seq.toNat ≤ s.sequence.toNat ∧
      (s.sequence = seq → asSecs value = s.secs ∧ subsecNanos value = s.nanos)
  | .returned => True

/-- The invariant of a cell. -/
structure Inv (s : State T) : Prop where
  fault : s.fault = false
  bound : s.writes < 2 ^ 63
  sequence : s.sequence.toNat = 2 * s.writes + s.writer.inside.toNat
  nanos : s.nanos < 1000000000
  writer : WriterOk s s.writer
  readers : ∀ r ∈ s.readers, ReaderOk s r
  reads : ∀ t cur, (some t, cur) ∈ s.reads → t = cur

variable {s s' : State T} {es : List (Event T)}

theorem inv_new (time : T) : Inv (newCell time) where
  fault := rfl
  bound := by simp [newCell]
  sequence := rfl
  nanos := subsecNanos_lt time
  writer := ⟨rfl, rfl⟩
  readers := by simp [newCell]
  reads := by simp [newCell]

theorem Inv.value_of_even (h : Inv s) (heven : s.sequence.toNat % 2 = 0) :
    s.secs = asSecs s.current ∧ s.nanos = subsecNanos s.current := by
  have hseq := h.sequence
  have hw := h.writer
  cases hwriter : s.writer with
  | idle => rw [hwriter] at hw; exact hw
  | loaded seq value => rw [hwriter] at hw; exact hw.2
  | opened seq value | halfway seq value | stored seq value =>
    rw [hwriter, Writer.inside, Bool.toNat_true] at hseq
    omega

/-- The fields change only while the sequence count is odd, which no reader has seen, and readers
that have seen an earlier count return nothing. -/
theorem ReaderOk.mono {r : Reader T} (h : ReaderOk s r)
    (hle : s.sequence.toNat ≤ s'.sequence.toNat)
    (hsame : s'.sequence = s.sequence → s.sequence.toNat % 2 = 0 →
      s'.secs = s.secs ∧ s'.nanos = s.nanos) : ReaderOk s' r := by
  have hback {seq : UInt64} (heven : seq.toNat % 2 = 0) (hseq : seq.toNat ≤ s.sequence.toNat)
      (heq : s'.sequence = seq) : s.sequence = seq ∧ s'.secs = s.secs ∧ s'.nanos = s.nanos := by
    subst heq
    have heq := UInt64.toNat_inj.mp (hle.antisymm hseq)
    exact ⟨heq, hsame heq.symm (heq ▸ heven)⟩
  cases r with
  | started seq => exact ⟨h.1, h.2.trans hle⟩
  | halfway seq secs =>
    obtain ⟨heven, hseq, hsecs⟩ := h
    refine ⟨heven, hseq.trans hle, fun heq => ?_⟩
    obtain ⟨hold, hs, -⟩ := hback heven hseq heq
    exact hs ▸ hsecs hold
  | checking seq value =>
    obtain ⟨heven, hseq, hvalue⟩ := h
    refine ⟨heven, hseq.trans hle, fun heq => ?_⟩
    obtain ⟨hold, hs, hn⟩ := hback heven hseq heq
    exact hs ▸ hn ▸ hvalue hold
  | returned => trivial

theorem ReaderOk.of_succ {r : Reader T} (h : ReaderOk s r)
    (hnext : s'.sequence.toNat = s.sequence.toNat + 1) : ReaderOk s' r :=
  h.mono (by omega) fun heq => by rw [heq] at hnext; omega

/-! ## Steps -/

theorem Inv.stepWriter (h : Inv s) (hfew : s.writes + 1 < 2 ^ 63)
    (hstep : s.stepWriter = some s') : Inv s' := by
  have hw := h.writer
  have hseq := h.sequence
  unfold State.stepWriter at hstep
  -- The count is odd from the first store to the last, and no reader trusts an odd count.
  cases hwriter : s.writer with
  | idle => rw [hwriter] at hstep; cases hstep
  | loaded seq value =>
    rw [hwriter] at hstep hw hseq
    cases hstep
    obtain ⟨rfl, -, -⟩ := hw
    rw [Writer.inside, Bool.toNat_false] at hseq
    have hnext : (s.sequence + 1).toNat = s.sequence.toNat + 1 := by
      rw [UInt64.toNat_add, UInt64.toNat_one]
      omega
    exact { h with
      sequence := by show (s.sequence + 1).toNat = 2 * s.writes + 1; omega
      writer := rfl
      readers := fun r hr => (h.readers r hr).of_succ hnext }
  | opened seq value =>
    rw [hwriter] at hstep hw hseq
    cases hstep
    rw [Writer.inside, Bool.toNat_true] at hseq
    exact { h with
      sequence := hseq
      writer := ⟨hw, rfl⟩
      readers := fun r hr => (h.readers r hr).mono le_rfl fun _ heven => by omega }
  | halfway seq value =>
    rw [hwriter] at hstep hw hseq
    cases hstep
    rw [Writer.inside, Bool.toNat_true] at hseq
    exact { h with
      sequence := hseq
      nanos := subsecNanos_lt value
      writer := ⟨hw.1, hw.2, rfl⟩
      readers := fun r hr => (h.readers r hr).mono le_rfl fun _ heven => by omega }
  | stored seq value =>
    rw [hwriter] at hstep hw hseq
    cases hstep
    obtain ⟨hs, hsecs, hnanos⟩ := hw
    rw [Writer.inside, Bool.toNat_true] at hseq
    have hnext : (seq + 2).toNat = s.sequence.toNat + 1 := by
      have hone : (seq.toNat + 1) % 2 ^ 64 = 2 * s.writes + 1 := by
        rw [← hseq, ← hs, UInt64.toNat_add, UInt64.toNat_one]
      rw [hseq, UInt64.toNat_add, show (2 : UInt64).toNat = 2 from rfl]
      omega
    exact { h with
      bound := hfew
      sequence := by show (seq + 2).toNat = 2 * (s.writes + 1) + 0; omega
      writer := ⟨hsecs, hnanos⟩
      readers := fun r hr => (h.readers r hr).of_succ hnext }

theorem land_one_ne_zero (x : UInt64) : x &&& 1 ≠ 0 ↔ x.toNat % 2 = 1 := by
  rw [Ne, ← UInt64.toNat_inj, UInt64.toNat_and, UInt64.toNat_one, Nat.and_one_is_mod,
    UInt64.toNat_zero]
  omega

theorem Inv.callTryRead (h : Inv s) : Inv s.callTryRead := by
  unfold State.callTryRead
  split
  case isTrue =>
    refine { h with readers := fun r hr => ?_, reads := fun t cur hmem => ?_ }
    · obtain hr | hr := List.mem_append.mp hr
      · exact h.readers r hr
      · obtain rfl := List.mem_singleton.mp hr
        trivial
    · obtain hmem | hmem := List.mem_append.mp hmem
      · exact h.reads t cur hmem
      · simp at hmem
  case isFalse heven =>
    rw [land_one_ne_zero] at heven
    refine { h with readers := fun r hr => ?_ }
    obtain hr | hr := List.mem_append.mp hr
    · exact h.readers r hr
    · obtain rfl := List.mem_singleton.mp hr
      exact ⟨by omega, le_rfl⟩

/-- A reader goes on: what it has loaded is right as long as the sequence count stays. -/
theorem Inv.stepReader (h : Inv s) {k : Nat} (hstep : s.stepReader k = some s') : Inv s' := by
  have hset {r : Reader T} (hr : ReaderOk s r) : ∀ r' ∈ s.readers.set k r, ReaderOk s r' :=
    forall_mem_set hr fun j r' hj _ => h.readers r' (List.mem_of_getElem? hj)
  unfold State.stepReader at hstep
  cases hk : s.readers[k]? with
  | none => rw [hk] at hstep; cases hstep
  | some r =>
    have hr := h.readers r (List.mem_of_getElem? hk)
    rw [hk] at hstep
    cases r with
    | returned => cases hstep
    | started seq =>
      cases hstep
      have hread : ReaderOk s (.halfway seq s.secs) := ⟨hr.1, hr.2, fun _ => rfl⟩
      exact { h with readers := hset hread }
    | halfway seq secs =>
      obtain ⟨heven, hle, hsecs⟩ := hr
      obtain ⟨value, hnew⟩ := exists_new T h.nanos secs
      obtain ⟨hvalue, hnanos⟩ := parts_of_new hnew
      simp only [hnew] at hstep
      cases hstep
      have hread : ReaderOk s (.checking seq value) :=
        ⟨heven, hle, fun heq => ⟨hvalue.trans (hsecs heq), hnanos⟩⟩
      exact { h with readers := hset hread }
    | checking seq value =>
      obtain ⟨heven, hle, hvalue⟩ := hr
      cases hstep
      refine { h with
        readers := hset (r := .returned) trivial, reads := fun t cur hmem => ?_ }
      obtain hmem | hmem := List.mem_append.mp hmem
      · exact h.reads t cur hmem
      -- The sequence count is what it was: the time is current.
      · rw [List.mem_singleton, Prod.mk.injEq] at hmem
        obtain ⟨ht, rfl⟩ := hmem
        by_cases hseq : s.sequence = seq
        · rw [if_pos hseq, Option.some.injEq] at ht
          obtain ⟨hsecs, hnanos⟩ := hvalue hseq
          obtain ⟨hsecs', hnanos'⟩ := h.value_of_even (hseq ▸ heven)
          subst ht
          exact time_ext (hsecs.trans hsecs') (hnanos.trans hnanos')
        · rw [if_neg hseq] at ht
          cases ht

/-- Every access keeps the invariant. -/
theorem Inv.step [DecidableEq T] (h : Inv s) (hfew : s.writes + 1 < 2 ^ 63) {e : Event T}
    (hstep : s.step e = some s') : Inv s' := by
  unfold State.step at hstep
  rw [if_pos h.fault] at hstep
  cases e with
  | write value =>
    obtain ⟨hidle, hs⟩ := Option.ite_none_right_eq_some.mp hstep
    have hw := h.writer
    have hseq := h.sequence
    rw [hidle] at hw hseq
    cases hs
    exact { h with
      sequence := hseq
      writer := ⟨rfl, hw⟩ }
  | writer => exact h.stepWriter hfew hstep
  | tryRead => cases hstep; exact h.callTryRead
  | reader k => exact h.stepReader hstep

/-! ## A read that no store overlaps -/

/-- Where a reader is that started in `s`, after so many of its accesses. -/
def State.readerAfter (s : State T) : Nat → Reader T
  | 0 => .started s.sequence
  | 1 => .halfway s.sequence (asSecs s.current)
  | 2 => .checking s.sequence s.current
  | _ => .returned

/-- The cell is as it was when a read was called in `s`; the reader has made so many accesses. -/
structure Undisturbed (s : State T) (accesses : Nat) (s' : State T) : Prop where
  fault : s'.fault = false
  sequence : s'.sequence = s.sequence
  secs : s'.secs = asSecs s.current
  nanos : s'.nanos = subsecNanos s.current
  current : s'.current = s.current
  reader : s'.readers[s.readers.length]? = some (s.readerAfter accesses)

namespace Undisturbed

variable {s₁ s₂ : State T} {n : Nat}

theorem lt_length (h : Undisturbed s n s₁) : s.readers.length < s₁.readers.length :=
  (List.getElem?_eq_some_iff.1 h.reader).1

/-- A load of the nanoseconds gives a time, also to a reader that has loaded other seconds. -/
theorem exists_new (h : Undisturbed s n s₁) (secs : Int64) :
    ∃ value : T, TaiTime.new secs s₁.nanos = some value :=
  SyncCell.exists_new T (h.nanos ▸ subsecNanos_lt s.current) secs

theorem stepOther (h : Undisturbed s n s₁) {j : Nat} (hj : j ≠ s.readers.length)
    (hstep : s₁.stepReader j = some s₂) : Undisturbed s n s₂ := by
  have hset (r : Reader T) : (s₁.readers.set j r)[s.readers.length]? =
      some (s.readerAfter n) := by
    rw [List.getElem?_set_ne hj, h.reader]
  unfold State.stepReader at hstep
  split at hstep
  · cases hstep
    exact { h with reader := hset _ }
  · rename_i seq secs _
    obtain ⟨value, hnew⟩ := h.exists_new secs
    simp only [hnew] at hstep
    cases hstep
    exact { h with reader := hset _ }
  · cases hstep
    exact { h with reader := hset _ }
  · cases hstep

theorem stepSelf (h : Undisturbed s n s₁) (hn : n < 3) :
    ∃ s₂, s₁.stepReader s.readers.length = some s₂ ∧ Undisturbed s (n + 1) s₂ ∧
      (n = 2 → s₂.reads = s₁.reads ++ [(some s.current, s.current)]) := by
  have hset (r : Reader T) : (s₁.readers.set s.readers.length r)[s.readers.length]? = some r :=
    List.getElem?_set_self h.lt_length
  unfold State.stepReader
  rw [h.reader]
  obtain rfl | rfl | rfl : n = 0 ∨ n = 1 ∨ n = 2 := by omega
  · exact ⟨_, rfl, { h with reader := by rw [hset, h.secs]; rfl }, nofun⟩
  · have hnew : TaiTime.new (asSecs s.current) s₁.nanos = some s.current := by
      rw [h.nanos, new_parts]
    simp only [State.readerAfter, hnew]
    exact ⟨_, rfl, { h with reader := hset _ }, nofun⟩
  · refine ⟨_, rfl, { h with reader := hset _ }, fun _ => ?_⟩
    rw [if_pos h.sequence, h.current]

/-- The accesses of the reader among the events. -/
theorem step [DecidableEq T] (h : Undisturbed s n s₁) {e : Event T} (hstore : e ≠ .writer)
    (hstep : s₁.step e = some s₂) :
    Undisturbed s (n + if e = .reader s.readers.length then 1 else 0) s₂ := by
  unfold State.step at hstep
  rw [if_pos h.fault] at hstep
  cases e with
  | write value =>
    obtain ⟨-, hs⟩ := Option.ite_none_right_eq_some.mp hstep
    cases hs
    exact { h with }
  | writer => exact absurd rfl hstore
  | tryRead =>
    cases hstep
    have hreader (r : Reader T) : (s₁.readers ++ [r])[s.readers.length]? =
        some (s.readerAfter n) := by
      rw [List.getElem?_append_left h.lt_length, h.reader]
    show Undisturbed s n s₁.callTryRead
    unfold State.callTryRead
    split
    · exact { h with reader := hreader _ }
    · exact { h with reader := hreader _ }
  | reader j =>
    by_cases hj : j = s.readers.length
    · subst hj
      rw [if_pos rfl]
      have hn : n < 3 := by
        by_contra hge
        -- a reader that has returned makes no further access
        have hreturned : s.readerAfter n = .returned := by
          obtain ⟨m, rfl⟩ := Nat.exists_eq_add_of_le (not_lt.1 hge)
          rw [Nat.add_comm]
          rfl
        simp [State.stepReader, h.reader, hreturned] at hstep
      obtain ⟨s', hs', hnext, -⟩ := h.stepSelf hn
      obtain rfl := Option.some.inj (hs'.symm.trans hstep)
      exact hnext
    · rw [if_neg (fun heq => hj (Event.reader.inj heq)), Nat.add_zero]
      exact h.stepOther hj hstep

end Undisturbed

/-- Whatever happens but a store, the reader has made the accesses that are its own. -/
theorem Undisturbed.run [DecidableEq T] {s₀ : State T} (h : Undisturbed s 0 s₀)
    (hrun : Run State.step (fun _ e => e ≠ .writer) s₀ es s') :
    Undisturbed s (es.count (.reader s.readers.length)) s' := by
  refine hrun.invariant (P := fun es s' => Undisturbed s (es.count _) s') h ?_
  intro es s₁ e s₂ hs₁ hstore hstep
  rw [List.count_append, List.count_singleton]
  simpa using hs₁.step hstore hstep

/-! ## Results -/

/-- The runs of a cell that was created with a time, of fewer than `2 ^ 63` writes: the sequence
count does not come round. -/
def CellRun [DecidableEq T] (time : T) (es : List (Event T)) (s : State T) : Prop :=
  Run State.step (fun s _ => s.writes + 1 < 2 ^ 63) (newCell time) es s

theorem CellRun.inv [DecidableEq T] {time : T} (h : CellRun time es s) : Inv s :=
  Run.state_invariant (inv_new time) (fun _ _ _ hs hfew hstep => hs.step hfew hstep) h

/-- Times as pairs of seconds and nanoseconds. -/
structure SecsNanos where
  secs : Int64
  nanos : UInt32
  valid : nanos < 1000000000
deriving DecidableEq

instance : TaiTime SecsNanos where
  new secs nanos := if h : nanos < 1000000000 then some ⟨secs, nanos, h⟩ else none
  asSecs := SecsNanos.secs
  subsecNanos := SecsNanos.nanos
  new_isSome_iff secs nanos := by
    split
    · rename_i h
      exact ⟨fun _ => h, fun _ => rfl⟩
    · rename_i h
      exact ⟨nofun, fun h' => absurd h' h⟩
  parts_of_new h := by
    obtain ⟨_, h⟩ := Option.dite_none_right_eq_some.1 h
    cases h
    exact ⟨rfl, rfl⟩
  new_parts t := dif_pos t.valid

/-- The epoch, and a time one second and one nanosecond later. -/
def epoch : SecsNanos := ⟨0, 0, by decide⟩

def later : SecsNanos := ⟨1, 1, by decide⟩

end SiestaVR.Sync.SyncCell
