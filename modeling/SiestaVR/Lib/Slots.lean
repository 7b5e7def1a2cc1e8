import Mathlib.Data.List.Basic
import Mathlib.Data.List.Nodup
import Mathlib.Logic.Function.Basic

/-!
# Entries that are kept in slots

The entries of a list are kept in slots: each position of the list names a slot, and each slot
in use names a position. `Linked` says that the two are inverse to each other. While entries are
moved, one position is a hole and the entry that is going to fill it has a slot whose position is
out of date; `LinkedBut` says that the links are right as soon as it fills the hole.

Slots that are not in use form a chain from the first free one (`FreeList`).
-/

namespace SiestaVR.Slots

variable {ι : Type}

section Links

variable {pos : ι → Option Nat} {slots : List ι} {s t : ι} {i j : Nat}

/-- Positions and slots name each other. -/
def Linked (pos : ι → Option Nat) (slots : List ι) : Prop :=
  ∀ s i, pos s = some i ↔ slots[i]? = some s

theorem Linked.inj (h : Linked pos slots) (hi : slots[i]? = some s) (hj : slots[j]? = some s) :
    i = j :=
  Option.some.inj (((h s i).2 hi).symm.trans ((h s j).2 hj))

theorem Linked.nodup (h : Linked pos slots) : slots.Nodup := by
  rw [List.nodup_iff_getElem?_ne_getElem?]
  intro i j hij hj heq
  have hslot : slots[j]? = some slots[j] := List.getElem?_eq_getElem hj
  exact Nat.ne_of_lt hij (h.inj (heq.trans hslot) hslot)

variable [DecidableEq ι]

/-- The links are right as soon as slot `s` is at the hole. -/
def LinkedBut (pos : ι → Option Nat) (slots : List ι) (hole : Nat) (s : ι) : Prop :=
  Linked (Function.update pos s (some hole)) (slots.set hole s)

/-- A slot that was free is linked to a new last position. -/
theorem Linked.snoc (h : Linked pos slots) (hs : pos s = none) :
    Linked (Function.update pos s (some slots.length)) (slots ++ [s]) := by
  intro t i
  by_cases hts : t = s
  · subst hts
    rw [Function.update_self]
    constructor
    · intro hi
      cases hi
      exact List.getElem?_concat_length
    · intro hi
      rcases Nat.lt_or_ge i slots.length with hlt | hge
      · rw [List.getElem?_append_left hlt] at hi
        rw [(h t i).2 hi] at hs
        cases hs
      · obtain ⟨hlt, -⟩ := List.getElem?_eq_some_iff.1 hi
        rw [List.length_append, List.length_singleton] at hlt
        rw [show i = slots.length by omega]
  · rw [Function.update_of_ne hts, h t i]
    constructor
    · intro hi
      rw [List.getElem?_append_left (List.getElem?_eq_some_iff.1 hi).1]
      exact hi
    · intro hi
      rw [List.getElem?_append] at hi
      split at hi
      · exact hi
      · have hmem : t ∈ [s] := List.mem_of_getElem? hi
        exact absurd (List.mem_singleton.1 hmem) hts

theorem Linked.swap (h : Linked pos slots) (hi : slots[i]? = some s) (hj : slots[j]? = some t)
    (hij : i ≠ j) :
    Linked (Function.update (Function.update pos t (some i)) s (some j))
      ((slots.set i t).set j s) := by
  have hilt := (List.getElem?_eq_some_iff.1 hi).1
  have hjlt := (List.getElem?_eq_some_iff.1 hj).1
  have hst : s ≠ t := by
    rintro rfl
    exact hij (h.inj hi hj)
  intro u k
  rw [Function.update_apply, Function.update_apply, List.getElem?_set, List.getElem?_set,
    List.length_set]
  -- Only the two slots and the two positions are concerned.
  have hu := h u k
  have hs := h s k
  have ht := h t k
  have hsi := (h s i).2 hi
  have htj := (h t j).2 hj
  grind

theorem Linked.dropLast (h : Linked pos slots) (hs : slots[slots.length - 1]? = some s) :
    Linked (Function.update pos s none) slots.dropLast := by
  intro u k
  rw [Function.update_apply, List.getElem?_dropLast]
  have hu := h u k
  have hlt : slots[k]? = some u → k < slots.length := fun hk =>
    (List.getElem?_eq_some_iff.1 hk).1
  have hlast : slots[k]? = some s → k = slots.length - 1 := fun hk => h.inj hk hs
  grind

/-- A position is given up, and the slot of the last one is going to fill it. -/
theorem Linked.swapRemove (h : Linked pos slots) (hi : slots[i]? = some s)
    (ht : slots[slots.length - 1]? = some t) (hne : i ≠ slots.length - 1) :
    LinkedBut (Function.update pos s none) slots.dropLast i t := by
  have hts : t ≠ s := by
    rintro rfl
    exact hne (h.inj hi ht)
  intro u k
  rw [Function.update_apply, Function.update_apply, List.getElem?_set, List.getElem?_dropLast,
    List.length_dropLast]
  have hu := h u k
  have hlt : slots[k]? = some u → k < slots.length := fun hk =>
    (List.getElem?_eq_some_iff.1 hk).1
  have hilt := (List.getElem?_eq_some_iff.1 hi).1
  have hs : slots[k]? = some s → k = i := fun hk => h.inj hk hi
  have hlast : slots[k]? = some t → k = slots.length - 1 := fun hk => h.inj hk ht
  grind

theorem Linked.linkedBut_snoc (h : Linked pos slots) (hs : pos s = none) (t : ι)
    (i : Option Nat) : LinkedBut (Function.update pos s i) (slots ++ [t]) slots.length s := by
  have hset : (slots ++ [t]).set slots.length s = slots ++ [s] := by simp
  unfold LinkedBut
  rw [Function.update_idem, hset]
  exact h.snoc hs

/-- The slot of the entry that is going to fill the hole is at no other position. -/
theorem LinkedBut.ne {hole : Nat} (h : LinkedBut pos slots hole s) (hhole : hole < slots.length)
    (hi : slots[i]? = some t) (hne : i ≠ hole) : t ≠ s := by
  rintro rfl
  have hi' : (slots.set hole t)[i]? = some t := by
    rw [List.getElem?_set_ne hne.symm]
    exact hi
  exact hne (Linked.inj h hi' (List.getElem?_set_self hhole))

theorem LinkedBut.pos_eq {hole : Nat} (h : LinkedBut pos slots hole s)
    (hhole : hole < slots.length) (hi : slots[i]? = some t) (hne : i ≠ hole) :
    pos t = some i := by
  rw [← Function.update_of_ne (h.ne hhole hi hne) (some hole) pos]
  refine (h t i).2 ?_
  rw [List.getElem?_set_ne hne.symm]
  exact hi

theorem LinkedBut.move {hole : Nat} (h : LinkedBut pos slots hole s)
    (hhole : hole < slots.length) (hi : slots[i]? = some t) (hne : i ≠ hole) :
    LinkedBut (Function.update pos t (some hole)) (slots.set hole t) i s := by
  have hi' : (slots.set hole s)[i]? = some t := by
    rw [List.getElem?_set_ne hne.symm]
    exact hi
  have hswap := Linked.swap h (List.getElem?_set_self hhole) hi' hne.symm
  have hts := h.ne hhole hi hne
  rw [List.set_set, Function.update_comm hts, Function.update_idem,
    Function.update_comm hts.symm] at hswap
  exact hswap

end Links

section Free

variable {next : ι → Option (Option ι)} {first : Option ι} {s : ι} {l : List ι}

/-- The slots that are reached from `first`, each naming the next one. -/
def Chain (next : ι → Option (Option ι)) : Option ι → List ι → Prop
  | first, [] => first = none
  | first, s :: l => first = some s ∧ ∃ rest, next s = some rest ∧ Chain next rest l

/-- The free slots form a chain without repetitions. -/
def FreeList (next : ι → Option (Option ι)) (first : Option ι) : Prop :=
  ∃ l, Chain next first l ∧ l.Nodup ∧ ∀ s, s ∈ l ↔ (next s).isSome

theorem Chain.congr {next' : ι → Option (Option ι)} (h : Chain next first l)
    (heq : ∀ s ∈ l, next' s = next s) : Chain next' first l := by
  induction l generalizing first with
  | nil => exact h
  | cons s l ih =>
    obtain ⟨hfirst, rest, hs, hl⟩ := h
    refine ⟨hfirst, rest, (heq s List.mem_cons_self).trans hs, ih hl ?_⟩
    intro t ht
    exact heq t (List.mem_cons_of_mem s ht)

variable [DecidableEq ι]

theorem FreeList.push (h : FreeList next first) (hs : next s = none) :
    FreeList (Function.update next s (some first)) (some s) := by
  obtain ⟨l, hchain, hnodup, hmem⟩ := h
  have hsl : s ∉ l := by
    rw [hmem, hs]
    exact Bool.false_ne_true
  refine ⟨s :: l, ⟨rfl, first, Function.update_self .., ?_⟩, List.nodup_cons.2 ⟨hsl, hnodup⟩, ?_⟩
  · refine hchain.congr fun t ht => Function.update_of_ne ?_ ..
    rintro rfl
    exact hsl ht
  · intro t
    by_cases hts : t = s
    · simp [hts]
    · simp [hts, hmem]

theorem FreeList.pop (h : FreeList next (some s)) :
    ∃ rest, next s = some rest ∧ FreeList (Function.update next s none) rest := by
  obtain ⟨_ | ⟨t, l⟩, hchain, hnodup, hmem⟩ := h
  · cases hchain
  · obtain ⟨hst, rest, hs, hl⟩ := hchain
    cases hst
    obtain ⟨hsl, hnodup⟩ := List.nodup_cons.1 hnodup
    refine ⟨rest, hs, l, ?_, hnodup, ?_⟩
    · refine hl.congr fun t ht => Function.update_of_ne ?_ ..
      rintro rfl
      exact hsl ht
    · intro t
      by_cases hts : t = s
      · subst hts
        simp [hsl]
      · rw [Function.update_of_ne hts, ← hmem t, List.mem_cons, or_iff_right hts]

end Free

end SiestaVR.Slots
