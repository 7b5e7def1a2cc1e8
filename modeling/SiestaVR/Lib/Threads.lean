import Mathlib.Data.List.Basic

/-!
# Threads and what they share

A system keeps its threads in a list, and a step replaces one of them. What the threads count for
is `List.countP`; the lemmas say how it changes (`countP_set`), and that a count of one belongs to
one thread (`two_le_countP`).

Threads that schedule each other without a lock keep a list as a table that gives each element its
successor, with a mark for the end. `Linked next stop a l` says that who starts at `a` and follows
the table finds `l`. Elements that are not in the list may have any entry, so that one thread can
prepare its element while the others see the list as it was (`Linked.congr`).
-/

namespace SiestaVR.Lib

/-! ## Lists of threads -/

section Threads

variable {α : Type} {l : List α} {i j k : Nat} {a b : α}

theorem getD_set {d : α} (hi : i < l.length) :
    (l.set i a).getD j d = if j = i then a else l.getD j d := by
  rw [List.getD_eq_getElem?_getD, List.getElem?_set, List.getD_eq_getElem?_getD]
  by_cases h : j = i
  · subst h
    simp [hi]
  · simp [h, Ne.symm h]

theorem getD_append_replicate {n : Nat} {d : α} :
    (l ++ List.replicate n d).getD i d = l.getD i d := by
  rw [List.getD_eq_getElem?_getD, List.getD_eq_getElem?_getD, List.getElem?_append]
  split
  · rfl
  · rw [List.getElem?_replicate, List.getElem?_eq_none (by omega)]
    split <;> rfl

theorem countP_set (p : α → Bool) (hk : l[k]? = some a) (b : α) :
    (l.set k b).countP p + (if p a then 1 else 0) = l.countP p + (if p b then 1 else 0) := by
  induction l generalizing k with
  | nil => simp at hk
  | cons c l ih =>
    cases k with
    | zero =>
      obtain rfl : c = a := by simpa using hk
      simp only [List.set_cons_zero, List.countP_cons]
      omega
    | succ k =>
      have := ih (k := k) (by simpa using hk)
      simp only [List.set_cons_succ, List.countP_cons]
      omega

/-- Two threads that count are two. -/
theorem two_le_countP {p : α → Bool} (hk : l[k]? = some a) (hj : l[j]? = some b) (hne : j ≠ k)
    (ha : p a = true) (hb : p b = true) : 2 ≤ l.countP p := by
  induction l generalizing j k with
  | nil => simp at hk
  | cons c l ih =>
    have hpos {x : α} {i : Nat} (hi : l[i]? = some x) (hx : p x = true) : 0 < l.countP p :=
      List.countP_pos_iff.mpr ⟨x, List.mem_of_getElem? hi, hx⟩
    rw [List.countP_cons]
    cases k with
    | zero =>
      obtain rfl : c = a := by simpa using hk
      cases j with
      | zero => exact absurd rfl hne
      | succ j =>
        have := hpos (i := j) (by simpa using hj) hb
        rw [if_pos ha]
        omega
    | succ k =>
      cases j with
      | zero =>
        obtain rfl : c = b := by simpa using hj
        have := hpos (i := k) (by simpa using hk) ha
        rw [if_pos hb]
        omega
      | succ j =>
        have := ih (k := k) (j := j) (by simpa using hk) (by simpa using hj) (by omega)
        omega

theorem forall_mem_set {P : α → Prop} (hb : P b)
    (h : ∀ j c, l[j]? = some c → j ≠ k → P c) : ∀ c ∈ l.set k b, P c := by
  intro c hc
  obtain ⟨j, hj⟩ := List.getElem?_of_mem hc
  rw [List.getElem?_set] at hj
  by_cases hne : k = j
  · subst hne
    rw [if_pos rfl] at hj
    split at hj
    · cases hj
      exact hb
    · cases hj
  · rw [if_neg hne] at hj
    exact h j c hj (Ne.symm hne)

end Threads

/-! ## Lists linked through a table -/

section Linked

variable {α : Type} {next next' : α → α} {stop a b : α} {l : List α}

/-- Following the table from the first argument gives the list. -/
def Linked (next : α → α) (stop : α) : α → List α → Prop
  | a, [] => a = stop
  | a, b :: l => a = b ∧ b ≠ stop ∧ Linked next stop (next b) l

theorem Linked.congr (h : Linked next stop a l) (hnext : ∀ b ∈ l, next' b = next b) :
    Linked next' stop a l := by
  induction l generalizing a with
  | nil => exact h
  | cons b l ih =>
    obtain ⟨rfl, hne, hl⟩ := h
    refine ⟨rfl, hne, ?_⟩
    rw [hnext a List.mem_cons_self]
    exact ih hl fun c hc => hnext c (List.mem_cons_of_mem a hc)

theorem Linked.nil_iff (h : Linked next stop a l) : l = [] ↔ a = stop := by
  cases l with
  | nil => exact ⟨fun _ => h, fun _ => rfl⟩
  | cons b l =>
    obtain ⟨rfl, hne, -⟩ := h
    simp [hne]

theorem Linked.exists_cons (h : Linked next stop a l) (ha : a ≠ stop) :
    ∃ l', l = a :: l' ∧ Linked next stop (next a) l' := by
  cases l with
  | nil => exact absurd h ha
  | cons b l =>
    obtain ⟨rfl, -, hl⟩ := h
    exact ⟨l, rfl, hl⟩

end Linked

end SiestaVR.Lib
