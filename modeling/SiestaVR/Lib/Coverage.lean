import Mathlib.MeasureTheory.Measure.Lebesgue.Basic

/-!
# Length of a union of intervals

Half-open intervals are added in the order of their starts. A mark that no interval reaches
beyond, and below which nothing is left uncovered from the last start on (`Marked`), is all
that has to be remembered of the intervals so far: what a new interval adds to their union is
its part above the mark (`covered_snoc`), which is disjoint from the rest (`volume_covered_snoc`).
-/

namespace SiestaVR.Lib

open MeasureTheory

/-- The times that some interval covers. -/
def covered (is : List (ℝ × ℝ)) : Set ℝ := ⋃ i ∈ is, Set.Ico i.1 i.2

theorem mem_covered {is : List (ℝ × ℝ)} {x : ℝ} :
    x ∈ covered is ↔ ∃ i ∈ is, i.1 ≤ x ∧ x < i.2 := by
  simp only [covered, Set.mem_iUnion, Set.mem_Ico, exists_prop]

@[simp] theorem covered_nil : covered [] = ∅ := by
  simp [covered]

theorem covered_append (is js : List (ℝ × ℝ)) : covered (is ++ js) = covered is ∪ covered js := by
  ext x
  simp only [Set.mem_union, mem_covered, List.mem_append, or_and_right, exists_or]

theorem covered_singleton (i : ℝ × ℝ) : covered [i] = Set.Ico i.1 i.2 := by
  simp [covered]

/-- Nothing from the mark on is covered; before it, everything is from the last start on.
Intervals start at `origin` or later. -/
structure Marked (origin : ℝ) (is : List (ℝ × ℝ)) (mark : ℝ) : Prop where
  below : covered is ⊆ Set.Iio mark
  filled : ∀ a, origin ≤ a → (∀ i ∈ is, i.1 ≤ a) → Set.Ico a mark ⊆ covered is

theorem Marked.nil (origin : ℝ) : Marked origin [] origin where
  below := by simp
  filled a ha _ x hx := absurd (ha.trans hx.1) (not_le.2 hx.2)

variable {origin mark a b : ℝ} {is : List (ℝ × ℝ)}

/-- **One more interval** adds its part above the mark. -/
theorem Marked.covered_snoc (h : Marked origin is mark) (horigin : origin ≤ a)
    (hlast : ∀ i ∈ is, i.1 ≤ a) :
    covered (is ++ [(a, b)]) = covered is ∪ Set.Ico (max a mark) b := by
  rw [covered_append, covered_singleton]
  ext x
  constructor
  · rintro (hx | ⟨hax, hxb⟩)
    · exact .inl hx
    · rcases lt_or_ge x mark with hmark | hmark
      · exact .inl (h.filled a horigin hlast ⟨hax, hmark⟩)
      · exact .inr ⟨max_le hax hmark, hxb⟩
  · rintro (hx | ⟨hmax, hxb⟩)
    · exact .inl hx
    · exact .inr ⟨(le_max_left a mark).trans hmax, hxb⟩

/-- The mark moves to the end of an interval that reaches beyond it. -/
theorem Marked.snoc (h : Marked origin is mark) (horigin : origin ≤ a)
    (hlast : ∀ i ∈ is, i.1 ≤ a) :
    Marked origin (is ++ [(a, b)]) (if max a mark < b then b else mark) := by
  constructor
  · rw [h.covered_snoc horigin hlast]
    rintro x (hx | ⟨hmax, hxb⟩)
    · have hmark : x < mark := h.below hx
      show x < ite _ _ _
      split
      · rename_i hnew
        exact hmark.trans ((le_max_right a mark).trans_lt hnew)
      · exact hmark
    · show x < ite _ _ _
      rw [if_pos (hmax.trans_lt hxb)]
      exact hxb
  · intro a' horigin' hlast' x hx
    have ha' : a ≤ a' := hlast' (a, b) (by simp)
    split at hx
    · rw [covered_append, covered_singleton]
      exact .inr ⟨ha'.trans hx.1, hx.2⟩
    · rw [covered_append]
      exact .inl (h.filled a' horigin' (fun i hi => hlast' i (List.mem_append_left _ hi)) hx)

theorem Marked.volume_covered_snoc (h : Marked origin is mark) (horigin : origin ≤ a)
    (hlast : ∀ i ∈ is, i.1 ≤ a) :
    volume (covered (is ++ [(a, b)]))
      = volume (covered is) + ENNReal.ofReal (b - max a mark) := by
  have hdisjoint : Disjoint (covered is) (Set.Ico (max a mark) b) := by
    rw [Set.disjoint_left]
    intro x hx hnew
    exact absurd (h.below hx) (not_lt.2 ((le_max_right a mark).trans hnew.1))
  rw [h.covered_snoc horigin hlast, measure_union hdisjoint measurableSet_Ico, Real.volume_Ico]

end SiestaVR.Lib
