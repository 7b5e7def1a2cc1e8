import Mathlib.Data.List.Basic
import Mathlib.Order.Lattice

/-!
# Associative priority queue (asynchronix/src/util/priority_queue.rs)

The items of the queue are ordered by key, and for equal keys by the epoch in which they
were inserted. Epochs are never reused, so this order is strict and says completely in
which order a binary heap gives the items back; the queue is kept as the list of its items
in that order. The epoch counter of the source has 64 bits.

The scheduler's key is a time and a channel. So the actions of one channel and time come off the
queue in the order in which they were scheduled, on which the order of the tasks rests.
-/

namespace SiestaVR.Kernel

variable {K V : Type}

/-- `Item`. -/
structure Item (K V : Type) where
  key : K
  value : V
  epoch : Nat
deriving DecidableEq, Repr

/-- Key and value of an item. -/
def Item.entry (i : Item K V) : K × V := (i.key, i.value)

variable [LinearOrder K]

/-- The order of `Item::cmp`: which item is pulled first. -/
def Item.Before (i j : Item K V) : Prop := i.key < j.key ∨ i.key = j.key ∧ i.epoch < j.epoch

theorem Item.Before.key_le {i j : Item K V} (h : i.Before j) : i.key ≤ j.key := by
  rcases h with h | ⟨h, -⟩
  · exact h.le
  · exact h.le

/-- `PriorityQueue`. -/
structure PriorityQueue (K V : Type) [LinearOrder K] where
  heap : List (Item K V)
  nextEpoch : Nat
  sorted : heap.Pairwise Item.Before
  fresh : ∀ i ∈ heap, i.epoch < nextEpoch

namespace PriorityQueue

/-- `PriorityQueue::new`. -/
def new : PriorityQueue K V where
  heap := []
  nextEpoch := 0
  sorted := .nil
  fresh _ h := absurd h List.not_mem_nil

/-- The item that is inserted next under a key. -/
def nextItem (q : PriorityQueue K V) (key : K) (value : V) : Item K V := ⟨key, value, q.nextEpoch⟩

/-- `PriorityQueue::insert`: behind the items whose keys are not greater. -/
def insert (q : PriorityQueue K V) (key : K) (value : V) : PriorityQueue K V where
  heap := q.heap.filter (·.key ≤ key) ++ q.nextItem key value :: q.heap.filter (key < ·.key)
  nextEpoch := q.nextEpoch + 1
  sorted := by
    refine List.pairwise_append.2 ⟨q.sorted.filter _, List.pairwise_cons.2
      ⟨fun j hj => ?_, q.sorted.filter _⟩, fun i hi j hj => ?_⟩
    · have hlt : key < j.key := by simpa using (List.mem_filter.1 hj).2
      exact .inl hlt
    · obtain ⟨hi, hik⟩ := List.mem_filter.1 hi
      have hik : i.key ≤ key := by simpa using hik
      rcases List.mem_cons.1 hj with rfl | hj
      · rcases hik.lt_or_eq with hlt | heq
        · exact .inl hlt
        · exact .inr ⟨heq, q.fresh i hi⟩
      · exact .inl (hik.trans_lt (by simpa using (List.mem_filter.1 hj).2))
  fresh := by
    intro i hi
    rcases List.mem_append.1 hi with hi | hi
    · exact Nat.lt_succ_of_lt (q.fresh i (List.mem_filter.1 hi).1)
    · rcases List.mem_cons.1 hi with rfl | hi
      · exact Nat.lt_succ_self _
      · exact Nat.lt_succ_of_lt (q.fresh i (List.mem_filter.1 hi).1)

/-- The queue without its first item. -/
def tail (q : PriorityQueue K V) : PriorityQueue K V where
  heap := q.heap.tail
  nextEpoch := q.nextEpoch
  sorted := q.sorted.tail
  fresh i hi := q.fresh i (List.mem_of_mem_tail hi)

/-- `PriorityQueue::pull`. -/
def pull (q : PriorityQueue K V) : Option ((K × V) × PriorityQueue K V) :=
  q.heap.head?.map fun i => (i.entry, q.tail)

/-- `PriorityQueue::peek`. -/
def peek (q : PriorityQueue K V) : Option (K × V) := q.heap.head?.map Item.entry

variable {q : PriorityQueue K V} {key : K} {value : V}

@[simp] theorem heap_tail (q : PriorityQueue K V) : q.tail.heap = q.heap.tail := rfl

theorem key_le_of_append {l l' : List (Item K V)} (h : q.heap = l ++ l') {i j : Item K V}
    (hi : i ∈ l) (hj : j ∈ l') : i.key ≤ j.key :=
  ((List.pairwise_append.1 (h ▸ q.sorted)).2.2 i hi j hj).key_le

theorem filter_le_append_filter_lt {l : List (Item K V)} (h : l.Pairwise Item.Before) (key : K) :
    l.filter (·.key ≤ key) ++ l.filter (key < ·.key) = l := by
  induction l with
  | nil => rfl
  | cons i l ih =>
    obtain ⟨hi, hl⟩ := List.pairwise_cons.1 h
    by_cases hik : i.key ≤ key
    · rw [List.filter_cons_of_pos (by simpa using hik),
        List.filter_cons_of_neg (by simpa using hik), List.cons_append, ih hl]
    · -- Everything from here on has a greater key.
      have hlt : ∀ j ∈ l, key < j.key := fun j hj => (not_le.1 hik).trans_le (hi j hj).key_le
      rw [List.filter_cons_of_neg (by simpa using hik), List.filter_eq_nil_iff.2
        fun j hj => by simpa using hlt j hj, List.filter_eq_self.2, List.nil_append]
      exact List.forall_mem_cons.2 ⟨by simpa using hik, fun j hj => by simpa using hlt j hj⟩

theorem perm_insert (q : PriorityQueue K V) (key : K) (value : V) :
    (q.insert key value).heap.Perm (q.nextItem key value :: q.heap) := by
  conv_rhs => rw [← filter_le_append_filter_lt q.sorted key]
  exact List.perm_middle

/-- Among items that do not count the inserted one, the order is as before. -/
theorem filter_insert_of_not {p : Item K V → Bool} (h : p (q.nextItem key value) = false) :
    (q.insert key value).heap.filter p = q.heap.filter p := by
  rw [insert, List.filter_append, List.filter_cons_of_neg (by simp [h]), ← List.filter_append,
    filter_le_append_filter_lt q.sorted]

theorem heap_insert_of_le (h : ∀ i ∈ q.heap, i.key ≤ key) :
    (q.insert key value).heap = q.heap ++ [q.nextItem key value] := by
  have hle : q.heap.filter (·.key ≤ key) = q.heap :=
    List.filter_eq_self.2 fun i hi => by simpa using h i hi
  have hlt : q.heap.filter (key < ·.key) = [] :=
    List.filter_eq_nil_iff.2 fun i hi => by simpa using h i hi
  change q.heap.filter (·.key ≤ key) ++ q.nextItem key value :: q.heap.filter (key < ·.key) = _
  rw [hle, hlt]

end PriorityQueue

end SiestaVR.Kernel
