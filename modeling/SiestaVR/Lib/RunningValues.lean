import Mathlib.Algebra.Order.Field.Basic
import Mathlib.Tactic.LinearCombination

/-!
# Running values

Two quantities that a loop carries along, and bounds for them that need no look at the single
rounds.

A value may take in one sample after the other, each with a weight of its own. If no weight is
above one, the value stays within the samples taken in so far (`Within.blend`): never below the
smallest of them, nor above the largest. With a weight above one it can leave them.

Or it is multiplied by a constant factor again and again, each time up to a limit of that moment,
and never goes down. How far it gets depends on how many of the limits leave room, and in which
order they come. Whether it stays under a bound can be read off the limits from the last to the
first: a limit above what must not be exceeded then allows only the factor's part of it before
(`growAll_le_iff`).
-/

namespace SiestaVR.Lib

/-! ## Values blended from samples -/

section Blend

variable {K : Type} [LinearOrder K] {samples : List K} {sample x lo hi : K}

/-- The value lies between two of the samples. -/
def Within (samples : List K) (x : K) : Prop :=
  (∃ lo ∈ samples, lo ≤ x) ∧ ∃ hi ∈ samples, x ≤ hi

theorem within_singleton (x : K) : Within [x] x := ⟨⟨x, by simp⟩, x, by simp⟩

theorem exists_le_both (hlo : lo ∈ samples) (hx : lo ≤ x) (sample : K) :
    ∃ lo' ∈ samples ++ [sample], lo' ≤ sample ∧ lo' ≤ x := by
  rcases le_total lo sample with hle | hle
  · exact ⟨lo, List.mem_append_left _ hlo, hle, hx⟩
  · exact ⟨sample, List.mem_append_right _ List.mem_cons_self, le_rfl, hle.trans hx⟩

theorem exists_ge_both (hhi : hi ∈ samples) (hx : x ≤ hi) (sample : K) :
    ∃ hi' ∈ samples ++ [sample], sample ≤ hi' ∧ x ≤ hi' := by
  rcases le_total sample hi with hle | hle
  · exact ⟨hi, List.mem_append_left _ hhi, hle, hx⟩
  · exact ⟨sample, List.mem_append_right _ List.mem_cons_self, le_rfl, hx.trans hle⟩

variable [Field K] {weight : K}

/-- The value after a sample is taken in with a weight. -/
def blend (weight sample x : K) : K := weight * sample + (1 - weight) * x

variable [IsStrictOrderedRing K]

theorem le_blend (h₀ : 0 ≤ weight) (h₁ : weight ≤ 1) (hsample : lo ≤ sample) (hx : lo ≤ x) :
    lo ≤ blend weight sample x := by
  have hs : 0 ≤ weight * (sample - lo) := mul_nonneg h₀ (sub_nonneg.2 hsample)
  have hx : 0 ≤ (1 - weight) * (x - lo) := mul_nonneg (sub_nonneg.2 h₁) (sub_nonneg.2 hx)
  unfold blend
  linear_combination hs + hx

theorem blend_le (h₀ : 0 ≤ weight) (h₁ : weight ≤ 1) (hsample : sample ≤ hi) (hx : x ≤ hi) :
    blend weight sample x ≤ hi := by
  have hs : 0 ≤ weight * (hi - sample) := mul_nonneg h₀ (sub_nonneg.2 hsample)
  have hx : 0 ≤ (1 - weight) * (hi - x) := mul_nonneg (sub_nonneg.2 h₁) (sub_nonneg.2 hx)
  unfold blend
  linear_combination hs + hx

/-- **The value stays within the samples**, with one more of them taken in. -/
theorem Within.blend (h : Within samples x) (h₀ : 0 ≤ weight) (h₁ : weight ≤ 1) (sample : K) :
    Within (samples ++ [sample]) (Lib.blend weight sample x) := by
  obtain ⟨⟨lo, hlo, hle⟩, hi, hhi, hge⟩ := h
  obtain ⟨lo', hlo', hsample, hx⟩ := exists_le_both hlo hle sample
  obtain ⟨hi', hhi', hsample', hx'⟩ := exists_ge_both hhi hge sample
  exact ⟨⟨lo', hlo', le_blend h₀ h₁ hsample hx⟩, hi', hhi', blend_le h₀ h₁ hsample' hx'⟩

end Blend

/-! ## Growth by a factor, under limits -/

section Growth

variable {K : Type} [Field K] [LinearOrder K]

/-- One step: by the factor, but not above the limit. -/
def growTo (factor x limit : K) : K := max x (min (factor * x) limit)

/-- A step for each of the limits. -/
def growAll (factor x : K) (limits : List K) : K := limits.foldl (growTo factor) x

/-- The largest value to start from if the bound must not be exceeded. -/
def largestStart (factor : K) (limits : List K) (bound : K) : K :=
  limits.foldr (fun limit c => if c < limit then c / factor else c) bound

theorem growAll_cons (factor x limit : K) (limits : List K) :
    growAll factor x (limit :: limits) = growAll factor (growTo factor x limit) limits := rfl

theorem largestStart_cons (factor limit : K) (limits : List K) (bound : K) :
    largestStart factor (limit :: limits) bound =
      if largestStart factor limits bound < limit then largestStart factor limits bound / factor
      else largestStart factor limits bound := rfl

variable [IsStrictOrderedRing K] {factor : K}

theorem largestStart_nonneg (hfactor : 1 ≤ factor) (limits : List K) {bound : K}
    (hbound : 0 ≤ bound) : 0 ≤ largestStart factor limits bound := by
  induction limits with
  | nil => exact hbound
  | cons limit limits ih =>
    rw [largestStart_cons]
    split
    · exact div_nonneg ih (zero_le_one.trans hfactor)
    · exact ih

theorem growTo_le_iff (hfactor : 1 ≤ factor) {x limit c : K} (hc : 0 ≤ c) :
    growTo factor x limit ≤ c ↔ x ≤ if c < limit then c / factor else c := by
  have hpos : 0 < factor := zero_lt_one.trans_le hfactor
  have hdiv : c / factor ≤ c := div_le_self hc hfactor
  rw [growTo, max_le_iff, min_le_iff]
  split
  · next hroom =>
    constructor
    · rintro ⟨-, hle | hle⟩
      · rwa [le_div_iff₀ hpos, mul_comm]
      · exact absurd hle hroom.not_ge
    · intro hle
      refine ⟨hle.trans hdiv, .inl ?_⟩
      rwa [mul_comm, ← le_div_iff₀ hpos]
  · next hroom => exact ⟨And.left, fun hle => ⟨hle, .inr (not_lt.1 hroom)⟩⟩

/-- **The steps stay under a bound** if and only if the start is small enough. -/
theorem growAll_le_iff (hfactor : 1 ≤ factor) (limits : List K) {x bound : K} (hbound : 0 ≤ bound) :
    growAll factor x limits ≤ bound ↔ x ≤ largestStart factor limits bound := by
  induction limits generalizing x with
  | nil => exact Iff.rfl
  | cons limit limits ih =>
    rw [growAll_cons, ih, growTo_le_iff hfactor (largestStart_nonneg hfactor limits hbound),
      largestStart_cons]

end Growth

end SiestaVR.Lib
