import Mathlib.Data.List.Perm.Basic
import Mathlib.Order.Lattice

/-!
# Binary heaps in a list

A heap is a list in which no entry has a smaller key than the entry above it. An entry is sifted
through the heap by moving others over a hole: `Gap` says that the list is ordered as if the
hole were not there. It does not speak of the entry that is sifted, so the moves keep it in
both directions (`Gap.up`, `Gap.down`), and an entry that fits to its neighbours closes the hole
(`Gap.fill`).
-/

namespace SiestaVR.Heap

variable {α κ : Type} [LinearOrder κ] {key : α → κ} {l : List α} {hole i : Nat} {x y : α}

/-- The position above another one. -/
def parent (i : Nat) : Nat := (i - 1) / 2

theorem parent_lt (h : 0 < i) : parent i < i := by
  unfold parent
  omega

theorem eq_child_of_parent (h : 0 < i) (hi : parent i = hole) :
    i = 2 * hole + 1 ∨ i = 2 * hole + 2 := by
  unfold parent at hi
  omega

theorem parent_left (i : Nat) : parent (2 * i + 1) = i := by
  unfold parent
  omega

theorem parent_right (i : Nat) : parent (2 * i + 2) = i := by
  unfold parent
  omega

variable (key)

/-- A heap. -/
def Ordered (l : List α) : Prop :=
  ∀ ⦃i x y⦄, 0 < i → l[i]? = some x → l[parent i]? = some y → key y ≤ key x

/-- A heap without the entry at one position: what is below the hole is compared with what is
above it. -/
structure Gap (l : List α) (hole : Nat) : Prop where
  order : ∀ ⦃i x y⦄, 0 < i → i ≠ hole → parent i ≠ hole → l[i]? = some x →
    l[parent i]? = some y → key y ≤ key x
  across : ∀ ⦃i x y⦄, 0 < hole → 0 < i → parent i = hole → l[i]? = some x →
    l[parent hole]? = some y → key y ≤ key x

/-- Not smaller than the entry above the hole. -/
def FitsAbove (l : List α) (hole : Nat) (x : α) : Prop :=
  ∀ ⦃y⦄, 0 < hole → l[parent hole]? = some y → key y ≤ key x

/-- Not greater than the entries below the hole. -/
def FitsBelow (l : List α) (hole : Nat) (x : α) : Prop :=
  ∀ ⦃i y⦄, 0 < i → parent i = hole → l[i]? = some y → key x ≤ key y

variable {key}

theorem Ordered.head_le (h : Ordered key l) (hx : l[0]? = some x) (hy : l[i]? = some y) :
    key x ≤ key y := by
  induction i using Nat.strong_induction_on generalizing y with
  | _ i ih =>
    rcases Nat.eq_zero_or_pos i with rfl | hpos
    · rw [hx] at hy
      exact (congrArg key (Option.some.inj hy)).le
    · obtain ⟨hi, -⟩ := List.getElem?_eq_some_iff.1 hy
      have hlt := parent_lt hpos
      have hparent : l[parent i]? = some l[parent i] := List.getElem?_eq_getElem (hlt.trans hi)
      exact (ih (parent i) hlt hparent).trans (h hpos hy hparent)

theorem Ordered.dropLast (h : Ordered key l) : Ordered key l.dropLast := by
  have hsome {i : Nat} {x : α} (hx : l.dropLast[i]? = some x) : l[i]? = some x := by
    rw [List.getElem?_dropLast] at hx
    split at hx
    · exact hx
    · cases hx
  intro i x y hi hx hy
  exact h hi (hsome hx) (hsome hy)

theorem Ordered.gap (h : Ordered key l) (hole : Nat) : Gap key l hole where
  order _ _ _ hi _ _ hx hy := h hi hx hy
  across i x y hhole hi hparent hx hy := by
    obtain ⟨hlt, -⟩ := List.getElem?_eq_some_iff.1 hx
    have hmid_lt : parent i < l.length := (parent_lt hi).trans hlt
    have hmid : l[parent i]? = some l[parent i] := List.getElem?_eq_getElem hmid_lt
    have hup := h hi hx hmid
    subst hparent
    exact (h hhole hmid hy).trans hup

theorem Ordered.gap_snoc (h : Ordered key l) (x : α) : Gap key (l ++ [x]) l.length where
  order i a b hi hne _ ha hb := by
    have hlt : i < l.length := by
      obtain ⟨hlt, -⟩ := List.getElem?_eq_some_iff.1 ha
      rw [List.length_append, List.length_singleton] at hlt
      omega
    rw [List.getElem?_append_left hlt] at ha
    rw [List.getElem?_append_left ((parent_lt hi).trans hlt)] at hb
    exact h hi ha hb
  across i a b _ hi hparent ha _ := by
    obtain ⟨hlt, -⟩ := List.getElem?_eq_some_iff.1 ha
    rw [List.length_append, List.length_singleton] at hlt
    have := parent_lt hi
    omega

/-- The entry above the hole moves down into it. -/
theorem Gap.up (h : Gap key l hole) (hpos : 0 < hole) (hlt : hole < l.length)
    (hx : l[parent hole]? = some x) : Gap key (l.set hole x) (parent hole) := by
  have hup := parent_lt hpos
  constructor
  · intro i a b hi hne hparent ha hb
    have hne' : i ≠ hole := by
      rintro rfl
      exact hparent rfl
    rw [List.getElem?_set_ne hne'.symm] at ha
    by_cases hbelow : parent i = hole
    · -- Below the old hole there is now what was above it.
      rw [hbelow, List.getElem?_set_self hlt] at hb
      cases hb
      exact h.across hpos hi hbelow ha hx
    · rw [List.getElem?_set_ne (Ne.symm hbelow)] at hb
      exact h.order hi hne' hbelow ha hb
  · intro i a b hpos' hi hparent ha hb
    have hup' := parent_lt hpos'
    rw [List.getElem?_set_ne (by omega)] at hb
    have hxb : key b ≤ key x := h.order hpos' hup.ne (by omega) hx hb
    by_cases hih : i = hole
    · rw [hih, List.getElem?_set_self hlt] at ha
      cases ha
      exact hxb
    · rw [List.getElem?_set_ne (Ne.symm hih)] at ha
      exact hxb.trans (h.order hi hih (by omega) ha (hparent ▸ hx))

/-- The smaller one of the entries below the hole moves up into it. -/
theorem Gap.down (h : Gap key l hole) (hlt : hole < l.length) (hi : 0 < i)
    (hparent : parent i = hole) (hx : l[i]? = some x) (hleast : FitsBelow key l hole x) :
    Gap key (l.set hole x) i := by
  have hdown : hole < i := hparent ▸ parent_lt hi
  constructor
  · intro j a b hj hne hne' ha hb
    by_cases hjh : j = hole
    · subst hjh
      rw [List.getElem?_set_self hlt] at ha
      cases ha
      rw [List.getElem?_set_ne (parent_lt hj).ne'] at hb
      exact h.across hj hi hparent hx hb
    · rw [List.getElem?_set_ne (Ne.symm hjh)] at ha
      by_cases hbelow : parent j = hole
      · -- The other entry below the hole.
        rw [hbelow, List.getElem?_set_self hlt] at hb
        cases hb
        exact hleast hj hbelow ha
      · rw [List.getElem?_set_ne (Ne.symm hbelow)] at hb
        exact h.order hj hjh hbelow ha hb
  · intro j a b _ hj hji ha hb
    have := parent_lt hj
    rw [List.getElem?_set_ne (by omega)] at ha
    rw [hparent, List.getElem?_set_self hlt] at hb
    cases hb
    exact h.order hj (by omega) (by omega) ha (hji ▸ hx)

theorem Gap.fill (h : Gap key l hole) (hlt : hole < l.length) (habove : FitsAbove key l hole x)
    (hbelow : FitsBelow key l hole x) : Ordered key (l.set hole x) := by
  intro i a b hi ha hb
  by_cases hih : i = hole
  · subst hih
    rw [List.getElem?_set_self hlt] at ha
    cases ha
    rw [List.getElem?_set_ne (parent_lt hi).ne'] at hb
    exact habove hi hb
  · rw [List.getElem?_set_ne (Ne.symm hih)] at ha
    by_cases hparent : parent i = hole
    · rw [hparent, List.getElem?_set_self hlt] at hb
      cases hb
      exact hbelow hi hparent ha
    · rw [List.getElem?_set_ne (Ne.symm hparent)] at hb
      exact h.order hi hih hparent ha hb

/-- The entry above the hole is greater than what is sifted: then so is everything below it. -/
theorem Gap.fitsBelow_up (h : Gap key l hole) (hlt : hole < l.length) (hpos : 0 < hole)
    (hy : l[parent hole]? = some y) (hle : key x ≤ key y) :
    FitsBelow key (l.set hole y) (parent hole) x := by
  intro i a hi hparent ha
  by_cases hih : i = hole
  · rw [hih, List.getElem?_set_self hlt] at ha
    cases ha
    exact hle
  · rw [List.getElem?_set_ne (Ne.symm hih)] at ha
    have := parent_lt hpos
    exact hle.trans (h.order hi hih (by omega) ha (hparent ▸ hy))

theorem fitsAbove_down (hlt : hole < l.length) (hparent : parent i = hole)
    (hle : key y ≤ key x) : FitsAbove key (l.set hole y) i x := by
  intro b _ hb
  rw [hparent, List.getElem?_set_self hlt] at hb
  cases hb
  exact hle

theorem fitsBelow_iff :
    FitsBelow key l hole x ↔ (∀ y, l[2 * hole + 1]? = some y → key x ≤ key y) ∧
      ∀ y, l[2 * hole + 2]? = some y → key x ≤ key y := by
  constructor
  · intro h
    exact ⟨fun y hy => h (by omega) (parent_left hole) hy,
      fun y hy => h (by omega) (parent_right hole) hy⟩
  · rintro ⟨hleft, hright⟩ i y hi hparent hy
    rcases eq_child_of_parent hi hparent with rfl | rfl
    · exact hleft y hy
    · exact hright y hy

theorem fitsBelow_of_length_le (h : l.length ≤ 2 * hole + 1) : FitsBelow key l hole x := by
  intro i y hi hparent hy
  have hlt := (List.getElem?_eq_some_iff.1 hy).1
  have hchild := eq_child_of_parent hi hparent
  omega

/-! ### The entries off the hole -/

theorem perm_eraseIdx_move (hlt : hole < l.length) (hne : i ≠ hole) (hx : l[i]? = some x) :
    ((l.set hole x).eraseIdx i).Perm (l.eraseIdx hole) := by
  obtain ⟨hi, rfl⟩ := List.getElem?_eq_some_iff.1 hx
  have hset : (l.set hole l[i]).Perm (l[i] :: l.eraseIdx hole) := List.set_perm_cons_eraseIdx hlt _
  have hi' : i < (l.set hole l[i]).length := by
    rw [List.length_set]
    exact hi
  have hsame : (l.set hole l[i])[i] = l[i] := List.getElem_set_ne hne.symm hi'
  have hget := List.getElem_cons_eraseIdx_perm hi'
  rw [hsame] at hget
  exact (hget.trans hset).cons_inv

end SiestaVR.Heap
