import SiestaVR.Lib.Bytes
import Mathlib.Data.Finset.Card

/-!
# Putting a buffer together from chunks

A `Layout` cuts the positions of a buffer from `lead` to `total` into chunks of
`size` positions, the last one possibly shorter. `Holds` says of a buffer that it
agrees with a source on some of the chunks. Writing a chunk of the source adds it
to them, in any order and any number of times, and a buffer that holds all chunks
agrees with the source from `lead` to `total`.
-/

namespace SiestaVR.Lib

/-- Positions `lead` to `total`, cut into chunks of `size`. -/
structure Layout where
  lead : Nat
  size : Nat
  total : Nat
  size_pos : 0 < size
  lead_lt : lead < total

namespace Layout

variable (L : Layout)

/-- The first position of a chunk. -/
def first (k : Nat) : Nat := k * L.size + L.lead

/-- The position behind a chunk. -/
def last (k : Nat) : Nat := min (k * L.size + (L.size + L.lead)) L.total

/-- The number of chunks. -/
def count : Nat := (L.total - L.lead + L.size - 1) / L.size

theorem lt_count_iff (k : Nat) : k < L.count ↔ L.first k < L.total := by
  have := L.size_pos
  have := L.lead_lt
  rw [count, ← Nat.succ_le_iff, Nat.le_div_iff_mul_le L.size_pos, Nat.succ_mul, first]
  omega

theorem count_pos : 0 < L.count := by
  rw [lt_count_iff, first, Nat.zero_mul, Nat.zero_add]
  exact L.lead_lt

theorem first_lt_last {k : Nat} (hk : k < L.count) : L.first k < L.last k := by
  have hpos := L.size_pos
  have hlt := (L.lt_count_iff k).1 hk
  rw [last, lt_min_iff]
  constructor
  · unfold first
    omega
  · exact hlt

theorem last_le_total (k : Nat) : L.last k ≤ L.total := Nat.min_le_right _ _

theorem exists_chunk {i : Nat} (h₁ : L.lead ≤ i) (h₂ : i < L.total) :
    ∃ k, k < L.count ∧ L.first k ≤ i ∧ i < L.last k := by
  have hdiv : (i - L.lead) / L.size * L.size ≤ i - L.lead := Nat.div_mul_le_self _ _
  have hmod : i - L.lead < (i - L.lead) / L.size * L.size + L.size :=
    Nat.lt_div_mul_add L.size_pos
  refine ⟨(i - L.lead) / L.size, ?_, ?_, ?_⟩
  · rw [lt_count_iff, first]
    omega
  · rw [first]
    omega
  · rw [last]
    omega

theorem exists_last_eq_total : ∃ k, k < L.count ∧ L.last k = L.total := by
  have := L.lead_lt
  obtain ⟨k, hk, -, hlt⟩ := L.exists_chunk (i := L.total - 1) (by omega) (by omega)
  have := L.last_le_total k
  exact ⟨k, hk, by omega⟩

/-! ## Buffers that hold some of the chunks -/

variable {α : Type} {L}

/-- `buf` agrees with `src` on the chunks of `R`. -/
def Holds (L : Layout) (R : Finset Nat) (buf src : List α) : Prop :=
  ∀ k ∈ R, ∀ i, L.first k ≤ i → i < L.last k → buf[i]? = src[i]?

variable {R : Finset Nat} {buf src : List α}

theorem Holds.empty (L : Layout) (buf src : List α) : L.Holds ∅ buf src := by
  intro k hk
  exact absurd hk (Finset.notMem_empty k)

theorem Holds.grow (h : L.Holds R buf src) (hsrc : L.total ≤ src.length) (n : Nat) (a : α) :
    L.Holds R (grow buf n a) src := by
  intro k hk i h₁ h₂
  have hval := h k hk i h₁ h₂
  have hi : i < src.length := lt_of_lt_of_le h₂ ((L.last_le_total k).trans hsrc)
  have hbuf : i < buf.length := by
    rw [List.getElem?_eq_getElem hi] at hval
    exact (List.getElem?_eq_some_iff.1 hval).1
  rw [getElem?_grow hbuf, hval]

/-- Writing a chunk of the source adds it to the chunks held. -/
theorem Holds.write (h : L.Holds R buf src) {k : Nat} (hk : k < L.count)
    (hsrc : L.total ≤ src.length) (hbuf : L.last k ≤ buf.length) :
    L.Holds (insert k R) (splice buf (L.first k) (slice src (L.first k) (L.last k - L.first k)))
      src := by
  have hlt := L.first_lt_last hk
  have hend := L.last_le_total k
  have hlen : (slice src (L.first k) (L.last k - L.first k)).length = L.last k - L.first k := by
    rw [length_slice]
    omega
  intro j hj i h₁ h₂
  rw [getElem?_splice (by omega), hlen]
  by_cases hi : L.first k ≤ i ∧ i < L.first k + (L.last k - L.first k)
  · rw [if_pos hi, getElem?_slice, if_pos (by omega)]
    congr 1
    omega
  · -- outside the chunk just written: an older chunk
    have hne : j ≠ k := by
      rintro rfl
      omega
    rw [if_neg hi]
    exact h j (Finset.mem_of_mem_insert_of_ne hj hne) i h₁ h₂

/-- A buffer that holds all chunks agrees with the source behind the lead. -/
theorem Holds.full (h : L.Holds R buf src) (hR : ∀ k, k < L.count → k ∈ R) :
    (buf.take L.total).drop L.lead = (src.take L.total).drop L.lead := by
  apply drop_eq_of_getElem?
  intro i hi
  rw [List.getElem?_take, List.getElem?_take]
  by_cases hlt : i < L.total
  · obtain ⟨k, hk, h₁, h₂⟩ := L.exists_chunk hi hlt
    rw [if_pos hlt, if_pos hlt, h k (hR k hk) i h₁ h₂]
  · rw [if_neg hlt, if_neg hlt]

end Layout

end SiestaVR.Lib
