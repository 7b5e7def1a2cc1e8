import Mathlib.Data.List.Infix
import Mathlib.Data.List.Basic
import Mathlib.Order.Lattice

/-!
# First parts of a list

Two loops that go through a list from its front, and what they find.

A loop that adds element after element to what it has, and stops in front of the first element
that no longer fits, takes the longest prefix whose own non-empty prefixes all fit. `LongestFit`
states that result without the loop; its three rules follow the loop's three ways on.

A search in a sorted list looks for the place where a property stops to hold: when the property
holds of an element, it holds of all elements before it. The place is the number of elements
that have the property (`lt_countP_iff`), so two properties that agree on the elements give
the same place, and no order of comparisons has to be followed.
-/

namespace SiestaVR.Lib

/-! ## The longest prefix that fits -/

section Greedy

variable {α : Type}

/-- `taken` is the longest prefix of `xs` all of whose non-empty prefixes satisfy `Fits`. -/
structure LongestFit (Fits : List α → Prop) (xs taken : List α) : Prop where
  initial : taken <+: xs
  fits : ∀ us, us ≠ [] → us <+: taken → Fits us
  longest : ∀ vs, vs <+: xs → (∀ us, us ≠ [] → us <+: vs → Fits us) → vs <+: taken

namespace LongestFit

variable {Fits : List α → Prop} {x : α} {xs taken : List α}

theorem nil : LongestFit Fits [] [] where
  initial := List.prefix_rfl
  fits := fun _ hne hus => absurd (List.prefix_nil.1 hus) hne
  longest := fun _ hvs _ => hvs

theorem stop (h : ¬ Fits [x]) : LongestFit Fits (x :: xs) [] where
  initial := List.nil_prefix
  fits := fun _ hne hus => absurd (List.prefix_nil.1 hus) hne
  longest := by
    intro vs hvs hfits
    rcases List.prefix_cons_iff.1 hvs with rfl | ⟨ws, rfl, -⟩
    · exact List.prefix_rfl
    · exact absurd (hfits [x] (by simp) ⟨ws, rfl⟩) h

theorem cons (h : Fits [x]) (hrest : LongestFit (fun us => Fits (x :: us)) xs taken) :
    LongestFit Fits (x :: xs) (x :: taken) where
  initial := (List.prefix_cons_inj x).2 hrest.initial
  fits := by
    intro us hne hus
    rcases List.prefix_cons_iff.1 hus with rfl | ⟨ws, rfl, hws⟩
    · exact absurd rfl hne
    · rcases eq_or_ne ws [] with rfl | hws'
      · exact h
      · exact hrest.fits ws hws' hws
  longest := by
    intro vs hvs hfits
    rcases List.prefix_cons_iff.1 hvs with rfl | ⟨ws, rfl, hws⟩
    · exact List.nil_prefix
    · refine (List.prefix_cons_inj x).2 (hrest.longest ws hws fun us hne hus => ?_)
      exact hfits (x :: us) (by simp) ((List.prefix_cons_inj x).2 hus)

end LongestFit

end Greedy

/-! ## Searching a sorted list -/

section SortedSearch

variable {α : Type} {p : α → Bool} {l : List α}

/-- The property holds of a first part of the list only. -/
def Initial (p : α → Bool) (l : List α) : Prop :=
  l.Pairwise fun a b => p b = true → p a = true

theorem lt_countP_iff (h : Initial p l) {i : Nat} {a : α} (ha : l[i]? = some a) :
    i < l.countP p ↔ p a = true := by
  induction l generalizing i with
  | nil => cases ha
  | cons b l ih =>
    obtain ⟨hfirst, hrest⟩ := List.pairwise_cons.1 h
    by_cases hb : p b = true
    · rw [List.countP_cons_of_pos hb]
      cases i with
      | zero =>
        cases ha
        simp [hb]
      | succ i => rw [Nat.succ_lt_succ_iff, ih hrest ha]
    · -- nothing after the first element has the property
      have hnone : ∀ c ∈ l, ¬ p c = true := fun c hc hp => hb (hfirst c hc hp)
      rw [List.countP_cons_of_neg hb, List.countP_eq_zero.2 hnone]
      cases i with
      | zero =>
        cases ha
        simp [hb]
      | succ i => simp [hnone a (List.mem_of_getElem? ha)]

/-! ## Strictly increasing lists -/

variable [LinearOrder α] {i j : Nat} {a b : α}

theorem initial_of_sorted (h : l.Pairwise (· < ·)) (x : α) : Initial (fun a => decide (a < x)) l :=
  h.imp fun hab hb => decide_eq_true (lt_trans hab (of_decide_eq_true hb))

theorem lt_of_getElem?_lt (h : l.Pairwise (· < ·)) (hij : i < j) (ha : l[i]? = some a)
    (hb : l[j]? = some b) : a < b := by
  obtain ⟨hi, rfl⟩ := List.getElem?_eq_some_iff.1 ha
  obtain ⟨hj, rfl⟩ := List.getElem?_eq_some_iff.1 hb
  exact List.pairwise_iff_getElem.1 h i j hi hj hij

theorem countP_lt_getElem? (h : l.Pairwise (· < ·)) (ha : l[i]? = some a) :
    l.countP (· < a) = i := by
  have hnot : ¬ i < l.countP (· < a) := by
    rw [lt_countP_iff (initial_of_sorted h a) ha, decide_eq_true_eq]
    exact lt_irrefl a
  refine Nat.le_antisymm (Nat.not_lt.1 hnot) ?_
  cases i with
  | zero => exact Nat.zero_le _
  | succ i =>
    obtain ⟨b, hb⟩ : ∃ b, l[i]? = some b := by
      have hlen := (List.getElem?_eq_some_iff.1 ha).1
      exact ⟨_, List.getElem?_eq_getElem (by omega)⟩
    rw [Nat.succ_le_iff, lt_countP_iff (initial_of_sorted h a) hb, decide_eq_true_eq]
    exact lt_of_getElem?_lt h (Nat.lt_succ_self i) hb ha

end SortedSearch

end SiestaVR.Lib
