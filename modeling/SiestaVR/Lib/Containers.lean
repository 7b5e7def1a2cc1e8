import Mathlib.Data.List.Nodup
import Mathlib.Logic.Function.Basic

/-!
# Counter maps and draw streams

Two containers that event-driven simulators keep everywhere.

- `CountMap κ`: a hash map from keys to unsigned counters. The keys present
  and the counters are kept apart, since an entry whose counter has fallen
  back to zero is still visited by an iteration over the map. The type
  carries the two facts every iteration relies on: no key is present twice,
  and a positive counter belongs to a present key.
- `DrawStream α`: an endless stream of random draws together with the
  position of the next one. Two streams over the same draws that have
  consumed equally many of them give the same future.
-/

namespace SiestaVR.Lib

variable {κ α : Type}

/-! ## Counter maps -/

/-- A map from keys to counters, with the list of keys present. -/
structure CountMap (κ : Type) where
  keys : List κ
  count : κ → Nat
  nodup : keys.Nodup
  support : ∀ k, 0 < count k → k ∈ keys

namespace CountMap

/-- The map without entries. -/
def empty : CountMap κ where
  keys := []
  count := fun _ => 0
  nodup := List.nodup_nil
  support := fun _ h => absurd h (Nat.lt_irrefl 0)

/-- The map with a zero counter for each key of a list without repetitions. -/
def zeros (ks : List κ) (h : ks.Nodup) : CountMap κ where
  keys := ks
  count := fun _ => 0
  nodup := h
  support := fun _ h => absurd h (Nat.lt_irrefl 0)

variable [DecidableEq κ]

/-- `*map.entry(k).or_insert(0) += 1`. -/
def incr (m : CountMap κ) (k : κ) : CountMap κ where
  keys := if k ∈ m.keys then m.keys else m.keys ++ [k]
  count := fun j => if j = k then m.count j + 1 else m.count j
  nodup := by
    split
    · exact m.nodup
    · rename_i h
      exact List.nodup_append.2 ⟨m.nodup, List.nodup_singleton k, by
        intro a ha b hb hab
        rw [List.mem_singleton] at hb
        exact h (hb ▸ hab ▸ ha)⟩
  support := by
    intro j hj
    have hmem : j = k ∨ j ∈ m.keys := by
      by_cases h : j = k
      · exact Or.inl h
      · exact Or.inr (m.support j (by simpa [h] using hj))
    split
    · rename_i h
      exact hmem.elim (fun e => e ▸ h) id
    · exact List.mem_append.2 (hmem.symm.imp_right fun e => List.mem_singleton.2 e)

/-- `if let Some(c) = map.get_mut(&k) { *c = c.saturating_sub(n) }`: the entry
stays, and a missing key (whose counter reads as zero) is left alone. -/
def decr (m : CountMap κ) (k : κ) (n : Nat) : CountMap κ where
  keys := m.keys
  count := fun j => if j = k then m.count j - n else m.count j
  nodup := m.nodup
  support := by
    intro j hj
    refine m.support j ?_
    split at hj <;> omega

@[simp] theorem count_incr (m : CountMap κ) (k j : κ) :
    (m.incr k).count j = m.count j + if j = k then 1 else 0 := by
  by_cases h : j = k <;> simp [incr, h]

@[simp] theorem count_decr (m : CountMap κ) (k j : κ) (n : Nat) :
    (m.decr k n).count j = m.count j - if j = k then n else 0 := by
  by_cases h : j = k <;> simp [decr, h]

@[simp] theorem keys_decr (m : CountMap κ) (k : κ) (n : Nat) : (m.decr k n).keys = m.keys := rfl

theorem mem_keys_incr (m : CountMap κ) (k j : κ) :
    j ∈ (m.incr k).keys ↔ j = k ∨ j ∈ m.keys := by
  simp only [incr]
  split
  · rename_i h
    exact ⟨Or.inr, fun hj => hj.elim (fun e => e ▸ h) id⟩
  · simp [or_comm]

/-- Lower the counters of a list of keys, once for each occurrence. -/
def decrAll (m : CountMap κ) (ks : List κ) : CountMap κ :=
  ks.foldl (fun m k => m.decr k 1) m

@[simp] theorem keys_decrAll (m : CountMap κ) (ks : List κ) : (m.decrAll ks).keys = m.keys := by
  induction ks generalizing m with
  | nil => rfl
  | cons k ks ih => simpa [decrAll] using ih (m.decr k 1)

/-- Saturating decrements, one for each occurrence, add up to one saturating
subtraction of the number of occurrences. -/
@[simp] theorem count_decrAll (m : CountMap κ) (ks : List κ) (j : κ) :
    (m.decrAll ks).count j = m.count j - ks.countP (· = j) := by
  induction ks generalizing m with
  | nil => simp [decrAll]
  | cons k ks ih =>
    have h := ih (m.decr k 1)
    simp only [decrAll, List.foldl_cons, count_decr] at h ⊢
    rw [h, List.countP_cons]
    by_cases hjk : j = k
    · subst hjk
      simp
      omega
    · have hkj : k ≠ j := fun e => hjk e.symm
      simp [hjk, hkj]

end CountMap

/-! ## Draw streams -/

/-- A stream of random draws and the position of the next one. -/
structure DrawStream (α : Type) where
  draw : Nat → α
  pos : Nat

namespace DrawStream

/-- A stream of which nothing has been consumed. -/
def fresh (draw : Nat → α) : DrawStream α := ⟨draw, 0⟩

/-- The draw the next call returns. -/
def peek (r : DrawStream α) : α := r.draw r.pos

/-- The stream after `n` calls. -/
def skip (r : DrawStream α) (n : Nat) : DrawStream α := ⟨r.draw, r.pos + n⟩

end DrawStream

end SiestaVR.Lib
