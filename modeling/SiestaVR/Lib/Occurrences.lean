import Mathlib.Data.List.Basic

/-!
# Occurrences of a pattern

A search that goes on behind each occurrence it finds reports occurrences that do not
overlap, from left to right, and every other occurrence begins inside one that it reports
(`NonOverlapping`). In general it misses some. For a pattern without a border (no proper
beginning of it is also an end of it) two occurrences never overlap, and the search finds
them all (`NonOverlapping.mem_iff`).

What is proved from the result of a search is proved from `NonOverlapping` alone, so that it
holds for any search that is documented in these terms. `occurrences` is one, by recursion on
the list.
-/

namespace SiestaVR.Lib

variable {α : Type}

/-- The list begins with the pattern. -/
def StartsWith (needle xs : List α) : Prop := xs.take needle.length = needle

instance [DecidableEq α] (needle xs : List α) : Decidable (StartsWith needle xs) :=
  inferInstanceAs (Decidable (_ = _))

/-- No proper beginning of the pattern is an end of it. -/
def NoBorder (needle : List α) : Prop :=
  ∀ k < needle.length, 0 < k → needle.drop k ≠ needle.take (needle.length - k)

variable {needle xs : List α}

theorem not_startsWith_nil (hne : needle ≠ []) : ¬ StartsWith needle ([] : List α) := by
  intro h
  rw [StartsWith, List.take_nil] at h
  exact hne h.symm

/-- Two occurrences of a pattern without a border are not closer than its length. -/
theorem not_startsWith_drop (hborder : NoBorder needle) (h : StartsWith needle xs) {k : Nat}
    (hpos : 0 < k) (hk : k < needle.length) : ¬ StartsWith needle (xs.drop k) := by
  intro hlater
  refine hborder k hk hpos ?_
  calc needle.drop k
      = (xs.take needle.length).drop k := by rw [h]
    _ = (xs.drop k).take (needle.length - k) := List.drop_take
    _ = ((xs.drop k).take needle.length).take (needle.length - k) := by
      rw [List.take_take, Nat.min_eq_left (Nat.sub_le _ _)]
    _ = needle.take (needle.length - k) := by rw [hlater]

/-- The positions are those of all non-overlapping occurrences, as found from left to right. -/
structure NonOverlapping (needle xs : List α) (ps : List Nat) : Prop where
  occurs : ∀ p ∈ ps, StartsWith needle (xs.drop p)
  spaced : ps.Pairwise fun p q => p + needle.length ≤ q
  all : ∀ p, StartsWith needle (xs.drop p) → ∃ q ∈ ps, q ≤ p ∧ p < q + needle.length

/-- **All occurrences are found** of a pattern without a border. -/
theorem NonOverlapping.mem_iff {ps : List Nat} (h : NonOverlapping needle xs ps)
    (hborder : NoBorder needle) {p : Nat} : p ∈ ps ↔ StartsWith needle (xs.drop p) := by
  refine ⟨h.occurs p, fun hp => ?_⟩
  obtain ⟨q, hq, hle, hlt⟩ := h.all p hp
  obtain rfl | hne := Nat.eq_or_lt_of_le hle
  · exact hq
  · -- the occurrence would begin inside the one at `q`
    have hlater : StartsWith needle ((xs.drop q).drop (p - q)) := by
      rwa [List.drop_drop, Nat.add_sub_cancel' hle]
    exact absurd hlater (not_startsWith_drop hborder (h.occurs q hq) (by omega) (by omega))

variable [DecidableEq α]

/-- The occurrences in a list that starts at a position, where the first `skip` elements
belong to the occurrence before. -/
def occurrencesFrom (needle : List α) : Nat → Nat → List α → List Nat
  | _, _, [] => []
  | skip + 1, pos, _ :: xs => occurrencesFrom needle skip (pos + 1) xs
  | 0, pos, x :: xs =>
    if StartsWith needle (x :: xs) then
      pos :: occurrencesFrom needle (needle.length - 1) (pos + 1) xs
    else occurrencesFrom needle 0 (pos + 1) xs

/-- The positions of the pattern, from left to right and without overlaps. -/
def occurrences (needle xs : List α) : List Nat := occurrencesFrom needle 0 0 xs

/-- The search in a list that starts at a position, behind the elements to skip. -/
theorem nonOverlapping_occurrencesFrom (hne : needle ≠ []) (skip pos : Nat) (xs : List α) :
    (∀ p ∈ occurrencesFrom needle skip pos xs,
      ∃ k, skip ≤ k ∧ p = pos + k ∧ StartsWith needle (xs.drop k)) ∧
    (occurrencesFrom needle skip pos xs).Pairwise (fun p q => p + needle.length ≤ q) ∧
    ∀ k, skip ≤ k → StartsWith needle (xs.drop k) →
      ∃ q ∈ occurrencesFrom needle skip pos xs, q ≤ pos + k ∧ pos + k < q + needle.length := by
  have hlength := List.length_pos_of_ne_nil hne
  induction xs generalizing skip pos with
  | nil => exact ⟨nofun, .nil, fun k _ hk => absurd (List.drop_nil ▸ hk) (not_startsWith_nil hne)⟩
  | cons x xs ih =>
    -- what is found in the rest, by positions in the whole list
    have hrest (skip : Nat) :
        (∀ p ∈ occurrencesFrom needle skip (pos + 1) xs,
          ∃ k, skip + 1 ≤ k ∧ p = pos + k ∧ StartsWith needle ((x :: xs).drop k)) ∧
        ∀ k, skip + 1 ≤ k → StartsWith needle ((x :: xs).drop k) →
          ∃ q ∈ occurrencesFrom needle skip (pos + 1) xs,
            q ≤ pos + k ∧ pos + k < q + needle.length := by
      obtain ⟨hoccurs, -, hall⟩ := ih skip (pos + 1)
      constructor
      · intro p hp
        obtain ⟨k, hk, rfl, hs⟩ := hoccurs p hp
        exact ⟨k + 1, by omega, by omega, hs⟩
      · rintro (_ | k) hk hs
        · omega
        · obtain ⟨q, hq, hle, hlt⟩ := hall k (by omega) hs
          exact ⟨q, hq, by omega, by omega⟩
    cases skip with
    | succ skip => exact ⟨(hrest skip).1, (ih skip (pos + 1)).2.1, (hrest skip).2⟩
    | zero =>
      rw [occurrencesFrom]
      split
      · next hhere =>
        obtain ⟨hoccurs, hall⟩ := hrest (needle.length - 1)
        refine ⟨List.forall_mem_cons.2 ⟨⟨0, Nat.le_refl _, rfl, hhere⟩, fun p hp => ?_⟩,
          .cons (fun p hp => ?_) (ih _ _).2.1, fun k _ hs => ?_⟩
        · obtain ⟨k, -, hk⟩ := hoccurs p hp
          exact ⟨k, Nat.zero_le _, hk⟩
        · obtain ⟨k, hk, rfl, -⟩ := hoccurs p hp
          omega
        · by_cases hk : k < needle.length
          · exact ⟨pos, List.mem_cons_self, by omega, by omega⟩
          · obtain ⟨q, hq, hle⟩ := hall k (by omega) hs
            exact ⟨q, .tail _ hq, hle⟩
      · next hhere =>
        obtain ⟨hoccurs, hall⟩ := hrest 0
        refine ⟨fun p hp => ?_, (ih _ _).2.1, fun k _ hs => ?_⟩
        · obtain ⟨k, -, hk⟩ := hoccurs p hp
          exact ⟨k, Nat.zero_le _, hk⟩
        · obtain rfl | hk := Nat.eq_zero_or_pos k
          · exact absurd hs hhere
          · exact hall k hk hs

theorem nonOverlapping_occurrences (hne : needle ≠ []) (xs : List α) :
    NonOverlapping needle xs (occurrences needle xs) := by
  obtain ⟨hoccurs, hspaced, hall⟩ := nonOverlapping_occurrencesFrom hne 0 0 xs
  refine ⟨fun p hp => ?_, hspaced, fun p hs => ?_⟩
  · obtain ⟨k, -, rfl, hs⟩ := hoccurs p hp
    rwa [Nat.zero_add]
  · obtain ⟨q, hq, hle, hlt⟩ := hall p (Nat.zero_le _) hs
    exact ⟨q, hq, by omega, by omega⟩

end SiestaVR.Lib
