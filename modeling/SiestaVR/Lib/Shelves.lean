import Mathlib.Algebra.Order.Group.Multiset
import Mathlib.Algebra.BigOperators.Group.List.Basic
import Mathlib.Algebra.GroupWithZero.Nat
import Mathlib.Data.Multiset.AddSub
import Mathlib.Data.Multiset.Filter

/-!
# Keyed stores and what they hold

A family of queues indexed by keys is a function `κ → Multiset α` read at a
finite list of keys. `contents keys s` is everything it holds, each item
labelled with the key it is stored under, so that conservation is an equation
of multisets and every counter over the store is a `countP` of it.

The lemmas say how `contents` follows the store: it is additive in the store,
changing one shelf changes one summand, and a labelled list is recovered from
its fibers. Orders inside a queue are forgotten here; they belong to the
modules that talk about one queue.
-/

namespace SiestaVR.Lib

variable {κ α β : Type}

/-- Everything stored under the given keys, labelled with its key. -/
def contents (keys : List κ) (s : κ → Multiset α) : Multiset (κ × α) :=
  (keys.map fun k => (s k).map (Prod.mk k)).sum

@[simp] theorem contents_nil (s : κ → Multiset α) : contents [] s = 0 := rfl

@[simp] theorem contents_cons (k : κ) (ks : List κ) (s : κ → Multiset α) :
    contents (k :: ks) s = (s k).map (Prod.mk k) + contents ks s := by
  simp [contents]

variable {keys : List κ} {k : κ}

theorem contents_congr {s t : κ → Multiset α} (h : ∀ k ∈ keys, s k = t k) :
    contents keys s = contents keys t := by
  unfold contents
  congr 1
  exact List.map_congr_left fun k hk => by rw [h k hk]

/-- The contents of a store that is the sum of two are the two contents. -/
theorem contents_add (keys : List κ) (s t : κ → Multiset α) :
    contents keys (fun k => s k + t k) = contents keys s + contents keys t := by
  induction keys with
  | nil => simp
  | cons k ks ih =>
    simp only [contents_cons, ih, Multiset.map_add]
    exact add_add_add_comm _ _ _ _

@[simp] theorem contents_zero (keys : List κ) :
    contents keys (fun _ => (0 : Multiset α)) = 0 := by
  induction keys with
  | nil => rfl
  | cons k ks ih => simp [ih]

theorem contents_map (keys : List κ) (s : κ → Multiset α) (f : α → β) :
    contents keys (fun k => (s k).map f) = (contents keys s).map (Prod.map id f) := by
  induction keys with
  | nil => rfl
  | cons k ks ih =>
    rw [contents_cons, contents_cons, Multiset.map_add, ih, Multiset.map_map, Multiset.map_map]
    rfl

theorem mem_contents {s : κ → Multiset α} {a : α} :
    (k, a) ∈ contents keys s ↔ k ∈ keys ∧ a ∈ s k := by
  induction keys with
  | nil => simp
  | cons j js ih =>
    rw [contents_cons, Multiset.mem_add, ih, Multiset.mem_map, List.mem_cons]
    constructor
    · rintro (⟨b, hb, heq⟩ | ⟨hk, ha⟩)
      · obtain ⟨rfl, rfl⟩ := Prod.mk.inj heq
        exact ⟨Or.inl rfl, hb⟩
      · exact ⟨Or.inr hk, ha⟩
    · rintro ⟨rfl | hk, ha⟩
      · exact Or.inl ⟨a, ha, rfl⟩
      · exact Or.inr ⟨hk, ha⟩

theorem map_le_contents {s : κ → Multiset α} (hk : k ∈ keys) :
    (s k).map (Prod.mk k) ≤ contents keys s := by
  induction keys with
  | nil => simp at hk
  | cons j js ih =>
    rw [contents_cons]
    rcases List.mem_cons.1 hk with rfl | hk
    · exact Multiset.le_add_right _ _
    · exact (ih hk).trans (Multiset.le_add_left _ _)

theorem countP_contents (keys : List κ) (s : κ → Multiset α) (p : κ × α → Prop)
    [DecidablePred p] :
    (contents keys s).countP p = (keys.map fun k => (s k).countP fun a => p (k, a)).sum := by
  induction keys with
  | nil => rfl
  | cons k ks ih =>
    rw [contents_cons, Multiset.countP_add, ih, Multiset.countP_map, List.map_cons, List.sum_cons,
      Multiset.countP_eq_card_filter]

theorem countP_fst_contents (keys : List κ) (s : κ → Multiset α) (q : κ → Bool) :
    (contents keys s).countP (fun x => q x.1 = true)
      = ((keys.filter q).map fun k => Multiset.card (s k)).sum := by
  rw [countP_contents]
  induction keys with
  | nil => rfl
  | cons k ks ih =>
    rw [List.map_cons, List.sum_cons, ih]
    by_cases h : q k = true <;> simp [h]

theorem card_contents (keys : List κ) (s : κ → Multiset α) :
    Multiset.card (contents keys s) = (keys.map fun k => Multiset.card (s k)).sum := by
  induction keys with
  | nil => rfl
  | cons k ks ih => simp [ih]

variable [DecidableEq κ]

/-- One shelf holding `x`, all others empty. -/
def shelf (k : κ) (x : Multiset α) : κ → Multiset α := fun j => if j = k then x else 0

theorem contents_shelf_of_notMem (hk : k ∉ keys) (x : Multiset α) :
    contents keys (shelf k x) = 0 := by
  have h : ∀ j ∈ keys, shelf k x j = 0 := by
    intro j hj
    have hne : j ≠ k := fun e => hk (e ▸ hj)
    simp [shelf, hne]
  rw [contents_congr h, contents_zero]

theorem contents_shelf (hn : keys.Nodup) (hk : k ∈ keys)
    (x : Multiset α) : contents keys (shelf k x) = x.map (Prod.mk k) := by
  induction keys with
  | nil => simp at hk
  | cons j js ih =>
    obtain ⟨hj, hjs⟩ := List.nodup_cons.1 hn
    rw [contents_cons]
    rcases List.mem_cons.1 hk with rfl | hk
    · rw [contents_shelf_of_notMem hj]
      simp [shelf]
    · have hne : j ≠ k := fun e => hj (e ▸ hk)
      rw [ih hjs hk]
      simp [shelf, hne]

/-- **One shelf changes, one summand changes**: taking the old shelf out and
putting the new one in turns the old contents into the new. -/
theorem contents_update (hn : keys.Nodup) (hk : k ∈ keys) (s : κ → Multiset α) (x : Multiset α) :
    contents keys (Function.update s k x) + (s k).map (Prod.mk k)
      = contents keys s + x.map (Prod.mk k) := by
  rw [← contents_shelf hn hk, ← contents_shelf hn hk, ← contents_add, ← contents_add]
  refine contents_congr fun j _ => ?_
  by_cases h : j = k
  · subst h
    simp [shelf, add_comm]
  · simp [shelf, h]

theorem countP_key_contents (hn : keys.Nodup) (hk : k ∈ keys)
    (s : κ → Multiset α) : (contents keys s).countP (fun x => x.1 = k) = Multiset.card (s k) := by
  have h := countP_fst_contents keys s fun j => decide (j = k)
  simp only [decide_eq_true_eq] at h
  have hfilter : keys.filter (fun j => decide (j = k)) = [k] := by
    rw [List.filter_eq, List.count_eq_one_of_mem hn hk]
    rfl
  rw [h, hfilter]
  simp

/-- The part of a labelled list stored under `k`, in list order. -/
def fiber (T : List (κ × α)) (k : κ) : List α :=
  (T.filter fun x => x.1 = k).map Prod.snd

@[simp] theorem fiber_nil (k : κ) : fiber ([] : List (κ × α)) k = [] := rfl

theorem fiber_cons (x : κ × α) (T : List (κ × α)) (k : κ) :
    fiber (x :: T) k = if x.1 = k then x.2 :: fiber T k else fiber T k := by
  by_cases h : x.1 = k <;> simp [fiber, h]

theorem fiber_append (T U : List (κ × α)) (k : κ) :
    fiber (T ++ U) k = fiber T k ++ fiber U k := by
  simp [fiber]

theorem mem_fiber {T : List (κ × α)} {a : α} : a ∈ fiber T k ↔ (k, a) ∈ T := by
  simp only [fiber, List.mem_map, List.mem_filter, decide_eq_true_eq]
  constructor
  · rintro ⟨⟨j, b⟩, ⟨hx, rfl⟩, rfl⟩
    exact hx
  · intro h
    exact ⟨(k, a), ⟨h, rfl⟩, rfl⟩

theorem fiber_map_mk (k j : κ) (as : List α) :
    fiber (as.map (Prod.mk k)) j = if k = j then as else [] := by
  induction as with
  | nil => simp
  | cons a as ih =>
    rw [List.map_cons, fiber_cons, ih]
    split <;> rfl

/-- **A labelled list is the contents of its fibers.** -/
theorem contents_fiber (hn : keys.Nodup) (T : List (κ × α)) (hT : ∀ x ∈ T, x.1 ∈ keys) :
    contents keys (fun k => (fiber T k : Multiset α)) = (T : Multiset (κ × α)) := by
  induction T with
  | nil => exact contents_zero keys
  | cons x T ih =>
    have hx : x.1 ∈ keys := hT x List.mem_cons_self
    have hsplit : ∀ k, (fiber (x :: T) k : Multiset α) = shelf x.1 {x.2} k + (fiber T k) := by
      intro k
      by_cases h : k = x.1
      · subst h
        simp [fiber_cons, shelf]
      · have h' : x.1 ≠ k := fun e => h e.symm
        simp [fiber_cons, shelf, h, h']
    rw [contents_congr fun k _ => hsplit k, contents_add, contents_shelf hn hx,
      ih fun y hy => hT y (List.mem_cons_of_mem _ hy)]
    simp

end SiestaVR.Lib
