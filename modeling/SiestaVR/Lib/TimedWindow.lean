import Mathlib.Algebra.Order.Group.Defs
import Mathlib.Algebra.Order.Sub.Basic
import Mathlib.Data.List.Induction
import Mathlib.Order.Basic
import Mathlib.Data.List.Basic

/-!
# Windows of time

Things that happen in the order of time, as times or as intervals.

A log of times drops old ones whenever a new one is recorded: those before the period that ends
with the new one. Because the times do not decrease, dropping from the front leaves exactly the
times of that period (`foldl_record`). Later than the last record, the log also has times that
the period no longer has (`length_inPeriod`).

A list of intervals has one of two shapes here: the intervals cover a window without gap or overlap
(`Tiles`), or they keep a distance from each other (`Spaced`).
-/

namespace SiestaVR.Lib

/-! ## Times of a period -/

section Period

variable {K : Type} [LinearOrder K] {times : List K} {period last now t : K}

/-- Values in the order of their times: dropping the early ones from the front drops all of
them. -/
theorem dropWhile_time_lt {α : Type} (time : α → K) {values : List α}
    (h : values.Pairwise fun a b => time a ≤ time b) (c : K) :
    values.dropWhile (time · < c) = values.filter (c ≤ time ·) := by
  induction values with
  | nil => rfl
  | cons v values ih =>
    obtain ⟨hfirst, hrest⟩ := List.pairwise_cons.1 h
    by_cases hv : time v < c
    · rw [List.dropWhile_cons_of_pos (by simpa using hv), ih hrest,
        List.filter_cons_of_neg (by simpa using hv)]
    · -- from here on no time is before
      have hall : ∀ x ∈ v :: values, decide (c ≤ time x) = true := by
        intro x hx
        rcases List.mem_cons.1 hx with rfl | hx
        · exact decide_eq_true (not_lt.1 hv)
        · exact decide_eq_true ((not_lt.1 hv).trans (hfirst x hx))
      rw [List.dropWhile_cons_of_neg (by simpa using hv), List.filter_eq_self.2 hall]

/-- What is late enough for a cutoff is late enough for an earlier one. -/
theorem filter_time_filter {α : Type} (time : α → K) {c c' : K} (h : c ≤ c') (values : List α) :
    (values.filter (c ≤ time ·)).filter (c' ≤ time ·) = values.filter (c' ≤ time ·) := by
  rw [List.filter_filter]
  refine List.filter_congr fun x _ => ?_
  rw [Bool.eq_iff_iff, Bool.and_eq_true, decide_eq_true_eq, decide_eq_true_eq]
  exact ⟨And.left, fun hx => ⟨hx, h.trans hx⟩⟩

variable [AddCommGroup K]

/-- A time is recorded, and those before its period are dropped. -/
def record (period : K) (kept : List K) (t : K) : List K :=
  (kept ++ [t]).dropWhile (· < t - period)

/-- The times in the period that ends now. -/
def inPeriod (period now : K) (times : List K) : List K := times.filter (now - period ≤ ·)

/-- The times that were in the period at the last record, and are not now. -/
def outdated (period last now : K) (times : List K) : Nat :=
  times.countP fun t => last - period ≤ t ∧ t < now - period

variable [IsOrderedAddMonoid K]

theorem filter_inPeriod (period : K) (h : last ≤ now) (times : List K) :
    (inPeriod period last times).filter (now - period ≤ ·) = inPeriod period now times :=
  filter_time_filter id (sub_le_sub_right h period) times

/-- **Record** one more time. -/
theorem record_inPeriod (period : K) (h : (times ++ [t]).Pairwise (· ≤ ·)) (hlast : last ≤ t) :
    record period (inPeriod period last times) t = inPeriod period t (times ++ [t]) := by
  have hkept : (inPeriod period last times ++ [t]).Pairwise (· ≤ ·) :=
    h.sublist (List.filter_sublist.append_right [t])
  rw [record, dropWhile_time_lt (fun x => x) hkept, List.filter_append,
    filter_inPeriod period hlast, inPeriod, inPeriod, List.filter_append]

/-- **The log** holds the times of the period that ends with the last record. -/
theorem foldl_record (period : K) (h : times.Pairwise (· ≤ ·)) :
    times.foldl (record period) [] = times.getLast?.elim [] (inPeriod period · times) := by
  induction times using List.reverseRecOn with
  | nil => rfl
  | append_singleton times t ih =>
    obtain ⟨hbefore, -, hlast⟩ := List.pairwise_append.1 h
    rw [List.foldl_append, ih hbefore, List.getLast?_concat, Option.elim_some]
    show record period _ t = _
    cases hend : times.getLast? with
    | none =>
      rw [List.getLast?_eq_none_iff.1 hend] at h ⊢
      exact record_inPeriod period h (le_refl t)
    | some last =>
      exact record_inPeriod period h
        (hlast last (List.mem_of_getLast? hend) t List.mem_cons_self)

theorem length_inPeriod (period : K) (h : last ≤ now) (times : List K) :
    (inPeriod period last times).length =
      (inPeriod period now times).length + outdated period last now times := by
  have hold : (inPeriod period last times).countP (fun t => ¬ decide (now - period ≤ t) = true) =
      outdated period last now times := by
    rw [inPeriod, outdated, List.countP_filter]
    refine List.countP_congr fun x _ => ?_
    simp only [Bool.and_eq_true, decide_eq_true_eq, not_le]
    exact and_comm
  rw [← filter_inPeriod period h, ← hold, ← List.countP_eq_length_filter]
  exact List.length_eq_countP_add_countP _

end Period

/-! ## Sequences of intervals -/

/-- The intervals tile the window from `a` to `b`: the first starts at `a`, each next one
where the one before it ends, the last ends at `b`, and none is empty. -/
inductive Tiles : Nat → Nat → List (Nat × Nat) → Prop
  | nil {a : Nat} : Tiles a a []
  | cons {a m b : Nat} {is : List (Nat × Nat)} (hlt : a < m) (hrest : Tiles m b is) :
      Tiles a b ((a, m) :: is)

/-- Each interval starts at least `gap` after the one before it ends, the first one at least
`gap` after `t`. -/
def Spaced (gap : Nat) : Nat → List (Nat × Nat) → Prop
  | _, [] => True
  | t, i :: is => t + gap ≤ i.1 ∧ i.1 ≤ i.2 ∧ Spaced gap i.2 is

theorem Spaced.le_start {gap t : Nat} {is : List (Nat × Nat)} (h : Spaced gap t is) :
    ∀ i ∈ is, t + gap ≤ i.1 := by
  induction is generalizing t with
  | nil => simp
  | cons j is ih =>
    obtain ⟨hstart, hnonneg, hrest⟩ := h
    intro i hi
    rcases List.mem_cons.1 hi with rfl | hi
    · exact hstart
    · have := ih hrest i hi
      omega

end SiestaVR.Lib
