import SiestaVR.Lib.Runs
import Mathlib.Algebra.Order.Field.Basic
import Mathlib.Algebra.BigOperators.Group.List.Basic
import Mathlib.Tactic.Linarith

/-!
# Token buckets

A bucket gains tokens at a constant rate up to its capacity and pays every bit it
lets through with a token. It is refilled lazily: the tokens gained since the last
refill are added only when the bucket is used again. A use is a time and an amount,
which is zero when the bucket was only looked at.

Two bounds follow on what a bucket lets through, whatever the uses are. Until a time
`t` it is at most the tokens there were, and what was gained since
(`drawnIn_le_credit`); in a window it is at most the capacity and what is gained over
the length of the window (`drawnIn_le_window`), since the first use in the window
finds no more than the capacity. And when a bucket will hold a given amount is known
from its last refill (`le_tokens_refill_iff`).
-/

namespace SiestaVR.Lib

/-- A bucket of tokens that is refilled when it is used. -/
structure TokenBucket (K : Type) where
  rate : K
  capacity : K
  tokens : K
  lastRefill : K
deriving DecidableEq, Repr

namespace TokenBucket

variable {K : Type} [Field K] [LinearOrder K]

/-- The tokens gained since the last refill are added, as far as there is room. -/
def refill (b : TokenBucket K) (now : K) : TokenBucket K :=
  { b with
    tokens := min (b.tokens + (now - b.lastRefill) * b.rate) b.capacity
    lastRefill := now }

/-- A use of the bucket at a time not before the last one, drawing no more than there is. -/
def use (b : TokenBucket K) (u : K × K) : Option (TokenBucket K) :=
  if b.lastRefill ≤ u.1 ∧ 0 ≤ u.2 ∧ u.2 ≤ (b.refill u.1).tokens then
    some { b.refill u.1 with tokens := (b.refill u.1).tokens - u.2 }
  else none

/-- What is drawn from time `s` to time `t`. -/
def drawnIn (s t : K) (uses : List (K × K)) : K :=
  ((uses.filter fun u => s ≤ u.1 ∧ u.1 ≤ t).map Prod.snd).sum

/-- A bucket that holds no debt and no more than its capacity. -/
structure Sound (b : TokenBucket K) : Prop where
  rate_nonneg : 0 ≤ b.rate
  tokens_nonneg : 0 ≤ b.tokens
  tokens_le : b.tokens ≤ b.capacity

variable {b b' : TokenBucket K} {u : K × K} {uses : List (K × K)} {s t : K}

theorem use_eq_some : b.use u = some b' ↔
    (b.lastRefill ≤ u.1 ∧ 0 ≤ u.2 ∧ u.2 ≤ (b.refill u.1).tokens) ∧
      b' = { b.refill u.1 with tokens := (b.refill u.1).tokens - u.2 } := by
  rw [use, Option.ite_none_right_eq_some, Option.some.injEq, eq_comm (a := b')]

theorem drawnIn_cons_of_mem (h : s ≤ u.1 ∧ u.1 ≤ t) :
    drawnIn s t (u :: uses) = u.2 + drawnIn s t uses := by
  rw [drawnIn, List.filter_cons_of_pos (by simpa using h), List.map_cons, List.sum_cons, drawnIn]

theorem drawnIn_cons_of_not_mem (h : ¬ (s ≤ u.1 ∧ u.1 ≤ t)) :
    drawnIn s t (u :: uses) = drawnIn s t uses := by
  rw [drawnIn, List.filter_cons_of_neg (by simpa using h), drawnIn]

theorem lastRefill_le_of_runs (hrun : Lib.runs TokenBucket.use b uses = some b') :
    ∀ u ∈ uses, b.lastRefill ≤ u.1 := by
  induction uses generalizing b with
  | nil => exact fun u hu => absurd hu List.not_mem_nil
  | cons v uses ih =>
    obtain ⟨b₁, hb₁, hrest⟩ := Option.bind_eq_some_iff.1 hrun
    obtain ⟨⟨hv, -⟩, rfl⟩ := use_eq_some.1 hb₁
    rintro u (_ | ⟨_, hu⟩)
    · exact hv
    · exact hv.trans (ih hrest u hu)

theorem drawnIn_eq_zero (hlate : ∀ u ∈ uses, t < u.1) : drawnIn s t uses = 0 := by
  have hnil : uses.filter (fun u => s ≤ u.1 ∧ u.1 ≤ t) = [] := by
    refine List.filter_eq_nil_iff.2 fun u hu => ?_
    simpa using fun _ => hlate u hu
  rw [drawnIn, hnil, List.map_nil, List.sum_nil]

variable [IsStrictOrderedRing K]

/-- **Step**: a use keeps the bucket sound. -/
theorem Sound.use (h : b.Sound) (hu : b.use u = some b') : b'.Sound := by
  obtain ⟨⟨-, hpos, henough⟩, rfl⟩ := use_eq_some.1 hu
  exact ⟨h.rate_nonneg, sub_nonneg.2 henough,
    (sub_le_self _ hpos).trans (min_le_right _ _)⟩

theorem Sound.runs (h : b.Sound) (hrun : runs TokenBucket.use b uses = some b') : b'.Sound :=
  Run.state_invariant (P := Sound) h (fun _ _ _ hs _ hu => hs.use hu)
    (.of_runs (allOk_true _ _ _) hrun)

/-- What is drawn until `t` is covered by the tokens there are and those gained until then. -/
theorem drawnIn_le_credit (h : b.Sound) (hrun : Lib.runs TokenBucket.use b uses = some b')
    (ht : b.lastRefill ≤ t) :
    drawnIn s t uses ≤ b.tokens + b.rate * (t - b.lastRefill) := by
  induction uses generalizing b with
  | nil => exact add_nonneg h.tokens_nonneg (mul_nonneg h.rate_nonneg (sub_nonneg.2 ht))
  | cons u uses ih =>
    obtain ⟨b₁, hb₁, hrest⟩ := Option.bind_eq_some_iff.1 hrun
    have hsound := h.use hb₁
    obtain ⟨⟨hu, hpos, henough⟩, rfl⟩ := use_eq_some.1 hb₁
    rcases le_or_gt u.1 t with hut | hut
    · have hmin : (b.refill u.1).tokens ≤ b.tokens + (u.1 - b.lastRefill) * b.rate :=
        min_le_left _ _
      have hlater := ih hsound hrest hut
      change _ ≤ (b.refill u.1).tokens - u.2 + b.rate * (t - u.1) at hlater
      have hsum : drawnIn s t (u :: uses) ≤ u.2 + drawnIn s t uses := by
        by_cases hs : s ≤ u.1 ∧ u.1 ≤ t
        · rw [drawnIn_cons_of_mem hs]
        · rw [drawnIn_cons_of_not_mem hs]
          exact le_add_of_nonneg_left hpos
      linarith
    · -- The use is late, and so are all that follow it.
      rw [drawnIn_eq_zero]
      · exact add_nonneg h.tokens_nonneg (mul_nonneg h.rate_nonneg (sub_nonneg.2 ht))
      · rintro v (_ | ⟨_, hv⟩)
        · exact hut
        · exact hut.trans_le (lastRefill_le_of_runs hrest v hv)

/-- **Window bound**: in any window a bucket lets through at most its capacity and what
it gains over the length of the window. -/
theorem drawnIn_le_window (h : b.Sound) (hrun : Lib.runs TokenBucket.use b uses = some b')
    (hst : s ≤ t) : drawnIn s t uses ≤ b.capacity + b.rate * (t - s) := by
  induction uses generalizing b with
  | nil =>
    exact add_nonneg (h.tokens_nonneg.trans h.tokens_le)
      (mul_nonneg h.rate_nonneg (sub_nonneg.2 hst))
  | cons u uses ih =>
    obtain ⟨b₁, hb₁, hrest⟩ := Option.bind_eq_some_iff.1 hrun
    have hsound := h.use hb₁
    obtain ⟨-, rfl⟩ := use_eq_some.1 hb₁
    by_cases hu : s ≤ u.1 ∧ u.1 ≤ t
    · -- The first use in the window: from here on the credit bound applies.
      rw [drawnIn_cons_of_mem hu]
      have hcredit := drawnIn_le_credit (s := s) hsound hrest hu.2
      change _ ≤ (b.refill u.1).tokens - u.2 + b.rate * (t - u.1) at hcredit
      have hcap : (b.refill u.1).tokens ≤ b.capacity := min_le_right _ _
      have hgain : b.rate * (t - u.1) ≤ b.rate * (t - s) :=
        mul_le_mul_of_nonneg_left (sub_le_sub_left hu.1 t) h.rate_nonneg
      linarith
    · rw [drawnIn_cons_of_not_mem hu]
      have hlater := ih hsound hrest
      exact hlater

/-- A bucket that gains tokens holds `x` of them from the time on at which it has gained what
it is short of. -/
theorem le_tokens_refill_iff {x : K} (hrate : 0 < b.rate)
    (hx : x ≤ b.capacity) :
    x ≤ (b.refill t).tokens ↔ b.lastRefill + (x - b.tokens) / b.rate ≤ t := by
  rw [refill, le_min_iff, and_iff_left hx, ← sub_le_iff_le_add', ← div_le_iff₀ hrate,
    le_sub_iff_add_le']

end TokenBucket

end SiestaVR.Lib
