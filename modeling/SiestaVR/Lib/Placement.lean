import SiestaVR.Lib.Runs
import Mathlib.Logic.Function.Basic

/-!
# Filling an indexed table

A table of entries, filled with placeholders beforehand, and an index that says where the
entry of a key is. A placement writes the entry of a key at a position and notes the position
in the index. After a list of placements in which each key has one position and each position
one key, the index holds exactly these placements, and every entry placed is still there
(`exists_filled`). If moreover every position has been written, the index is a bijection
between its keys and the positions (`Filled.existsUnique`).
-/

namespace SiestaVR.Lib

variable {κ α : Type} [DecidableEq κ]

/-- Entries, and where the entry of a key is. -/
structure Indexed (κ α : Type) where
  entries : List α
  index : κ → Option Nat

/-- Place the entry of a key; a position outside the table aborts. -/
def Indexed.place (make : κ → α) (t : Indexed κ α) (w : κ × Nat) : Option (Indexed κ α) :=
  if w.2 < t.entries.length then
    some ⟨t.entries.set w.2 (make w.1), Function.update t.index w.1 (some w.2)⟩
  else none

/-- A table of placeholders. -/
def Indexed.blank (placeholder : α) (size : Nat) : Indexed κ α :=
  ⟨List.replicate size placeholder, fun _ => none⟩

/-- The table after the placements `ws`. -/
structure Filled (make : κ → α) (size : Nat) (ws : List (κ × Nat)) (t : Indexed κ α) : Prop where
  length : t.entries.length = size
  index : ∀ k i, t.index k = some i ↔ (k, i) ∈ ws
  entry : ∀ k i, (k, i) ∈ ws → t.entries[i]? = some (make k)

variable {make : κ → α} {size : Nat} {ws : List (κ × Nat)}

/-- **One more placement**, of a key and a position that agree with those before. -/
theorem Filled.place {t : Indexed κ α} {w : κ × Nat} (h : Filled make size ws t)
    (hlt : w.2 < size) (hkey : ∀ v ∈ ws, v.1 = w.1 → v.2 = w.2)
    (hpos : ∀ v ∈ ws, v.2 = w.2 → v.1 = w.1) :
    ∃ t', t.place make w = some t' ∧ Filled make size (ws ++ [w]) t' := by
  obtain ⟨k₀, i₀⟩ := w
  refine ⟨_, if_pos (h.length.symm ▸ hlt), ?_, ?_, ?_⟩
  · rw [List.length_set, h.length]
  · intro k i
    show Function.update t.index k₀ (some i₀) k = some i ↔ _
    rw [List.mem_append, List.mem_singleton, Prod.mk.injEq]
    by_cases hk : k = k₀
    · subst hk
      rw [Function.update_self, Option.some.injEq]
      constructor
      · rintro rfl
        exact .inr ⟨rfl, rfl⟩
      · rintro (hold | ⟨-, rfl⟩)
        · exact (hkey (k, i) hold rfl).symm
        · rfl
    · rw [Function.update_of_ne hk, h.index]
      exact ⟨.inl, fun hor => hor.resolve_right fun heq => hk heq.1⟩
  · intro k i hki
    show (t.entries.set i₀ (make k₀))[i]? = some (make k)
    rcases List.mem_append.1 hki with hold | hnew
    · by_cases hi : i₀ = i
      · obtain rfl : k = k₀ := hpos (k, i) hold hi.symm
        rw [hi, List.getElem?_set_self (by rw [h.length, ← hi]; exact hlt)]
      · rw [List.getElem?_set_ne hi, h.entry k i hold]
    · obtain ⟨rfl, rfl⟩ := Prod.mk.inj (List.mem_singleton.1 hnew)
      rw [List.getElem?_set_self (by rw [h.length]; exact hlt)]

/-- **All placements** of a list in which each key has one position and each position one
key. -/
theorem exists_filled (make : κ → α) (placeholder : α) (hlt : ∀ w ∈ ws, w.2 < size)
    (hkey : ∀ v ∈ ws, ∀ w ∈ ws, v.1 = w.1 → v.2 = w.2)
    (hpos : ∀ v ∈ ws, ∀ w ∈ ws, v.2 = w.2 → v.1 = w.1) :
    ∃ t, runs (Indexed.place make) (.blank placeholder size) ws = some t ∧
      Filled make size ws t := by
  have hblank : Filled make size [] (.blank placeholder size) :=
    ⟨List.length_replicate, by simp [Indexed.blank], by simp⟩
  have hstep : ∀ (done : List (κ × Nat)) (t : Indexed κ α) (w : κ × Nat),
      ((∀ v ∈ done, v ∈ ws) ∧ Filled make size done t) → w ∈ ws →
      ∃ t', t.place make w = some t' ∧
        (∀ v ∈ done ++ [w], v ∈ ws) ∧ Filled make size (done ++ [w]) t' := by
    rintro done t w ⟨hsub, ht⟩ hw
    obtain ⟨t', hplace, ht'⟩ := ht.place (hlt w hw) (fun v hv => hkey v (hsub v hv) w hw)
      fun v hv => hpos v (hsub v hv) w hw
    refine ⟨t', hplace, ?_, ht'⟩
    intro v hv
    rcases List.mem_append.1 hv with hv | hv
    · exact hsub v hv
    · exact List.mem_singleton.1 hv ▸ hw
  obtain ⟨t, hruns, -, ht⟩ := exists_runs
    (P := fun done t => (∀ v ∈ done, v ∈ ws) ∧ Filled make size done t)
    ⟨by simp, hblank⟩ hstep (allOk_of_forall (fun w hw _ => hw) _)
  exact ⟨t, hruns, ht⟩

omit [DecidableEq κ] in
theorem Filled.existsUnique {t : Indexed κ α} (h : Filled make size ws t)
    (hpos : ∀ v ∈ ws, ∀ w ∈ ws, v.2 = w.2 → v.1 = w.1) (hall : ∀ i < size, ∃ k, (k, i) ∈ ws)
    {i : Nat} (hi : i < size) : ∃! k, t.index k = some i := by
  obtain ⟨k, hk⟩ := hall i hi
  refine ⟨k, (h.index k i).2 hk, ?_⟩
  intro k' hk'
  exact hpos (k', i) ((h.index k' i).1 hk') (k, i) hk rfl

end SiestaVR.Lib
