import Mathlib.Algebra.BigOperators.Group.Finset.Basic
import Mathlib.Algebra.Order.BigOperators.Group.Finset
import Mathlib.Algebra.Order.Group.Multiset
import Mathlib.Data.Fintype.Basic

/-!
# Serving quotas from several lanes

Items of finitely many classes wait in lanes. Each class has a quota: what it
has in excess of a limit that all classes share. Taking as many items as all
quotas together from the front of *every* lane serves each class its quota only
in two situations (`taken_eq_quota_iff`): the limit is zero, so that everything
is to go, or a single lane holds all the items and its front is composed as the
quotas demand.
-/

namespace SiestaVR.Lib

variable {ι α β : Type} [Fintype ι] [DecidableEq β]

/-- The items of a class in all lanes. -/
def available (cls : α → β) (lanes : ι → List α) (b : β) : Nat :=
  ∑ i, (lanes i).countP (cls · = b)

/-- The items of a class among the first `n` of every lane. -/
def taken (cls : α → β) (lanes : ι → List α) (n : Nat) (b : β) : Nat :=
  ∑ i, ((lanes i).take n).countP (cls · = b)

theorem sum_countP_eq_length {cls : α → β} {B : Finset β} {as : List α}
    (h : ∀ a ∈ as, cls a ∈ B) : ∑ b ∈ B, as.countP (cls · = b) = as.length := by
  have hcount : ∀ b, as.countP (cls · = b) = (as.map cls : Multiset β).count b := by
    intro b
    rw [Multiset.coe_count, List.count, List.countP_map]
    exact List.countP_congr fun a _ => by simp
  simp only [hcount]
  rw [Multiset.sum_count_eq_card]
  · simp
  · intro b hb
    obtain ⟨a, ha, rfl⟩ := List.mem_map.1 (Multiset.mem_coe.1 hb)
    exact h a ha

section Lanes

variable {cls : α → β} {lanes : ι → List α} {B : Finset β}

theorem taken_add_dropped (cls : α → β) (lanes : ι → List α) (n : Nat) (b : β) :
    taken cls lanes n b + available cls (fun i => (lanes i).drop n) b
      = available cls lanes b := by
  unfold taken available
  rw [← Finset.sum_add_distrib]
  refine Finset.sum_congr rfl fun i _ => ?_
  rw [← List.countP_append, List.take_append_drop]

theorem sum_taken (hcls : ∀ i, ∀ a ∈ lanes i, cls a ∈ B) (n : Nat) :
    ∑ b ∈ B, taken cls lanes n b = ∑ i, min n (lanes i).length := by
  unfold taken
  rw [Finset.sum_comm]
  refine Finset.sum_congr rfl fun i _ => ?_
  rw [sum_countP_eq_length fun a ha => hcls i a (List.mem_of_mem_take ha), List.length_take]

theorem taken_eq_available {n : Nat} (h : ∀ i, (lanes i).length ≤ n) (b : β) :
    taken cls lanes n b = available cls lanes b := by
  unfold taken available
  refine Finset.sum_congr rfl fun i _ => ?_
  rw [List.take_of_length_le (h i)]

theorem taken_single [DecidableEq ι] {i : ι} (h : ∀ j, j ≠ i → lanes j = []) (n : Nat) (b : β) :
    taken cls lanes n b = ((lanes i).take n).countP (cls · = b) := by
  refine Finset.sum_eq_single i (fun j _ hj => ?_) fun hi => absurd (Finset.mem_univ i) hi
  simp [h j hj]

/-- If `n` items in all are taken by taking `n` from every lane, and some lane has
as many, the other lanes are empty. -/
theorem lanes_eq_nil_of_sum_min [DecidableEq ι] {n : Nat} (hn : 0 < n)
    (hsum : ∑ i, min n (lanes i).length = n) {i : ι} (hi : n ≤ (lanes i).length) (j : ι)
    (hj : j ≠ i) : lanes j = [] := by
  have hsplit := Finset.add_sum_erase Finset.univ (fun i => min n (lanes i).length)
    (Finset.mem_univ i)
  have hrest : ∑ k ∈ Finset.univ.erase i, min n (lanes k).length = 0 := by
    simp only [Nat.min_eq_left hi] at hsplit
    omega
  have hzero := (Finset.sum_eq_zero_iff.1 hrest) j (Finset.mem_erase.2 ⟨hj, Finset.mem_univ j⟩)
  have hlen : (lanes j).length = 0 := by omega
  exact List.eq_nil_of_length_eq_zero hlen

/-- **Quotas are served exactly** if there is nothing to keep, or if one lane
holds everything and its front is composed as the quotas demand. -/
theorem taken_eq_quota_iff [DecidableEq ι] {limit : Nat}
    (hcls : ∀ i, ∀ a ∈ lanes i, cls a ∈ B) {n : Nat}
    (hn : ∑ b ∈ B, (available cls lanes b - limit) = n)
    (hover : ∃ b ∈ B, limit < available cls lanes b) :
    (∀ b ∈ B, taken cls lanes n b = available cls lanes b - limit) ↔
      limit = 0 ∨ ∃ i, (∀ j, j ≠ i → lanes j = []) ∧
        ∀ b ∈ B, ((lanes i).take n).countP (cls · = b) = available cls lanes b - limit := by
  obtain ⟨b₀, hb₀, hlt⟩ := hover
  have hpos : 0 < n := by
    have hle := Finset.single_le_sum (f := fun b => available cls lanes b - limit)
      (fun b _ => Nat.zero_le _) hb₀
    simp only [hn] at hle
    omega
  constructor
  · intro hserved
    -- In all, `n` are taken, although every lane gives up to `n`.
    have hsum : ∑ i, min n (lanes i).length = n := by
      rw [← sum_taken hcls n, Finset.sum_congr rfl hserved, hn]
    by_cases hlong : ∃ i, n ≤ (lanes i).length
    · obtain ⟨i, hi⟩ := hlong
      have hsingle := lanes_eq_nil_of_sum_min hpos hsum hi
      refine Or.inr ⟨i, hsingle, fun b hb => ?_⟩
      rw [← taken_single hsingle n b]
      exact hserved b hb
    · -- every lane is emptied, so the class in excess keeps nothing
      have hall : taken cls lanes n b₀ = available cls lanes b₀ :=
        taken_eq_available (fun i => Nat.le_of_not_le fun hi => hlong ⟨i, hi⟩) b₀
      have hb := hserved b₀ hb₀
      left
      omega
  · rintro (hzero | ⟨i, hsingle, hfront⟩) b hb
    · subst hzero
      have htotal : ∑ i, (lanes i).length = n := by
        rw [← hn]
        simp only [Nat.sub_zero, available]
        rw [Finset.sum_comm]
        exact Finset.sum_congr rfl fun i _ => (sum_countP_eq_length (hcls i)).symm
      refine (taken_eq_available (fun i => ?_) b).trans (Nat.sub_zero _).symm
      rw [← htotal]
      exact Finset.single_le_sum (f := fun i => (lanes i).length) (fun _ _ => Nat.zero_le _)
        (Finset.mem_univ i)
    · rw [taken_single hsingle n b]
      exact hfront b hb

end Lanes

end SiestaVR.Lib
