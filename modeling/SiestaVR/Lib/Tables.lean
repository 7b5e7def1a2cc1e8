import Mathlib.Data.List.AList

/-!
# Hash tables, their iteration order, caches and queues

- `Table κ ν` is a hash table: an association list without repeated keys. The
  lemmas give the value found under every key after an update, and after a loop
  of updates.
- `Shuffle α` is the order in which a program happens to visit the entries of a
  table: some rearrangement of them.
- `Channel α` is an unbounded queue between two parts of a program. It keeps all
  that was ever sent and how much of it has been taken out, so that what has
  passed through it can be spoken of after it is gone.
- `memo` is a cache in front of a loader, which may fail: what it returns is kept
  under a key computed from its argument, and a later call with the same key gets
  what is kept. Failures are not kept. Such a cache gives every call what the
  loader would have given exactly if a call never has the key of an earlier one
  that loaded something else (`memoAll_eq_map_iff`).
-/

namespace SiestaVR.Lib

/-! ## Tables -/

/-- A hash table. -/
abbrev Table (κ ν : Type) := AList (fun _ : κ => ν)

namespace Table

variable {κ ν β : Type} [DecidableEq κ]

theorem lookup_insert_ite (t : Table κ ν) (a k : κ) (b : ν) :
    (t.insert a b).lookup k = if k = a then some b else t.lookup k := by
  by_cases h : k = a
  · rw [if_pos h, h, AList.lookup_insert]
  · rw [if_neg h, AList.lookup_insert_ne h]

variable {t : Table κ ν} {xs : List β}

theorem mem_insert_of_lookup {a : κ} {b : ν} (h : t.lookup a = some b) (b' : ν)
    (k : κ) : k ∈ t.insert a b' ↔ k ∈ t := by
  rw [AList.mem_insert]
  constructor
  · rintro (rfl | hk)
    · exact AList.lookup_isSome.1 (by rw [h]; rfl)
    · exact hk
  · exact Or.inr

theorem lookup_erase_ite (t : Table κ ν) (a k : κ) :
    (t.erase a).lookup k = if k = a then none else t.lookup k := by
  by_cases h : k = a
  · rw [if_pos h, h, AList.lookup_erase]
  · rw [if_neg h, AList.lookup_erase_ne h]

/-- `for key in keys { table.remove(&key) }`. -/
def eraseAll (ks : List κ) (t : Table κ ν) : Table κ ν :=
  ks.foldl (fun t k => t.erase k) t

theorem lookup_eraseAll (ks : List κ) (t : Table κ ν) (k : κ) :
    (eraseAll ks t).lookup k = if k ∈ ks then none else t.lookup k := by
  induction ks generalizing t with
  | nil => simp [eraseAll]
  | cons a ks ih =>
    have hstep : eraseAll (a :: ks) t = eraseAll ks (t.erase a) := rfl
    rw [hstep, ih, lookup_erase_ite]
    by_cases hmem : k ∈ ks
    · simp [hmem]
    · by_cases hk : k = a <;> simp [hmem, hk]

/-- `for x in xs { table.insert(key(x), val(x)) }`. -/
def insertAll (key : β → κ) (val : β → ν) (xs : List β) (t : Table κ ν) : Table κ ν :=
  xs.foldl (fun t x => t.insert (key x) (val x)) t

variable {key : β → κ} {val : β → ν}

theorem insertAll_cons (x : β) (xs : List β) (t : Table κ ν) :
    insertAll key val (x :: xs) t = insertAll key val xs (t.insert (key x) (val x)) := rfl

theorem lookup_insertAll_of_ne {k : κ}
    (h : ∀ x ∈ xs, key x ≠ k) : (insertAll key val xs t).lookup k = t.lookup k := by
  induction xs generalizing t with
  | nil => rfl
  | cons x xs ih =>
    rw [insertAll_cons, ih fun y hy => h y (List.mem_cons_of_mem _ hy), lookup_insert_ite,
      if_neg fun e => h x List.mem_cons_self e.symm]

theorem mem_insertAll {k : κ} :
    k ∈ insertAll key val xs t ↔ k ∈ t ∨ ∃ x ∈ xs, key x = k := by
  induction xs generalizing t with
  | nil => simp [insertAll]
  | cons x xs ih =>
    rw [insertAll_cons, ih, AList.mem_insert]
    constructor
    · rintro ((rfl | hk) | ⟨y, hy, hkey⟩)
      · exact .inr ⟨x, List.mem_cons_self, rfl⟩
      · exact .inl hk
      · exact .inr ⟨y, List.mem_cons_of_mem _ hy, hkey⟩
    · rintro (hk | ⟨y, hy, rfl⟩)
      · exact .inl (.inr hk)
      · rcases List.mem_cons.1 hy with rfl | hy
        · exact .inl (.inl rfl)
        · exact .inr ⟨y, hy, rfl⟩

/-- A key that some inserted entry has gets a value on which all entries with
this key agree. -/
theorem lookup_insertAll_of_mem {k : κ} {v : ν}
    (hk : ∃ x ∈ xs, key x = k) (h : ∀ x ∈ xs, key x = k → val x = v) :
    (insertAll key val xs t).lookup k = some v := by
  induction xs generalizing t with
  | nil => simp at hk
  | cons y ys ih =>
    rw [insertAll_cons]
    by_cases hlater : ∃ x ∈ ys, key x = k
    · -- a later entry with this key overwrites the first one
      exact ih hlater fun x hx => h x (List.mem_cons_of_mem _ hx)
    · have hhead : key y = k := by
        obtain ⟨x, hx, hkey⟩ := hk
        rcases List.mem_cons.1 hx with rfl | hx
        · exact hkey
        · exact absurd ⟨x, hx, hkey⟩ hlater
      rw [lookup_insertAll_of_ne fun x hx e => hlater ⟨x, hx, e⟩, lookup_insert_ite,
        if_pos hhead.symm, h y List.mem_cons_self hhead]

/-- The entries of two tables correspond: the same keys in the same order, with related
values. -/
def Matched (r : ν → ν → Prop) (t t' : Table κ ν) : Prop :=
  List.Forall₂ (fun e e' => e.1 = e'.1 ∧ r e.2 e'.2) t.entries t'.entries

omit [DecidableEq κ] in
theorem matched_empty (r : ν → ν → Prop) : Matched r (∅ : Table κ ν) ∅ := .nil

theorem Matched.insert {r : ν → ν → Prop} {t' : Table κ ν} (h : Matched r t t') (k : κ)
    {v v' : ν} (hv : r v v') : Matched r (t.insert k v) (t'.insert k v') := by
  rw [Matched, AList.entries_insert, AList.entries_insert]
  refine .cons ⟨rfl, hv⟩ ?_
  unfold Matched at h
  generalize t.entries = l at h ⊢
  generalize t'.entries = l' at h ⊢
  induction h with
  | nil => exact .nil
  | @cons e e' es es' hhead htail ih =>
    by_cases hk : k = e.1
    · rw [List.kerase_cons_eq hk, List.kerase_cons_eq (hk.trans hhead.1)]
      exact htail
    · rw [List.kerase_cons_ne hk, List.kerase_cons_ne (hhead.1 ▸ hk)]
      exact .cons hhead ih

theorem Matched.insertAll {r : ν → ν → Prop} {val' : β → ν}
    (hval : ∀ x ∈ xs, r (val x) (val' x)) {t' : Table κ ν} (h : Matched r t t') :
    Matched r (insertAll key val xs t) (insertAll key val' xs t') := by
  induction xs generalizing t t' with
  | nil => exact h
  | cons x xs ih =>
    exact ih (fun y hy => hval y (List.mem_cons_of_mem _ hy))
      (h.insert (key x) (hval x List.mem_cons_self))

end Table

/-! ## Iteration orders -/

/-- An order in which the entries of a table are visited. -/
structure Shuffle (α : Type) where
  order : List α → List α
  perm : ∀ l, (order l).Perm l

namespace Shuffle

variable {α : Type}

/-- Every entry in the order in which the list has it. -/
def id : Shuffle α := ⟨fun l => l, fun l => .refl l⟩

@[simp] theorem mem_order (σ : Shuffle α) (l : List α) (a : α) : a ∈ σ.order l ↔ a ∈ l :=
  (σ.perm l).mem_iff

end Shuffle

/-! ## Queues -/

/-- An unbounded queue: everything sent on it, and how many of these have been
taken out. -/
structure Channel (α : Type) where
  sent : List α
  taken : Nat
  taken_le : taken ≤ sent.length

namespace Channel

variable {α : Type}

/-- A new queue. -/
def empty : Channel α := ⟨[], 0, Nat.le_refl 0⟩

/-- `sender.send(a)`. -/
def send (c : Channel α) (a : α) : Channel α where
  sent := c.sent ++ [a]
  taken := c.taken
  taken_le := by
    rw [List.length_append]
    exact Nat.le_add_right_of_le c.taken_le

/-- `receiver.try_recv()`: the oldest entry not yet taken. -/
def tryRecv (c : Channel α) : Option (α × Channel α) :=
  if h : c.taken < c.sent.length then some (c.sent.get ⟨c.taken, h⟩, ⟨c.sent, c.taken + 1, h⟩)
  else none

/-- How many entries have not been taken out. -/
def waiting (c : Channel α) : Nat := c.sent.length - c.taken

variable {c : Channel α} {a : α}

theorem tryRecv_eq_none : c.tryRecv = none ↔ c.taken = c.sent.length := by
  have hle := c.taken_le
  unfold tryRecv
  split
  · rename_i hlt
    simp only [reduceCtorEq, false_iff]
    omega
  · rename_i hge
    simp only [true_iff]
    omega

theorem taken_of_tryRecv {c' : Channel α} (h : c.tryRecv = some (a, c')) :
    c'.taken = c.taken + 1 := by
  unfold tryRecv at h
  split at h
  · cases h
    rfl
  · cases h

theorem take_of_tryRecv {c' : Channel α} (h : c.tryRecv = some (a, c')) :
    c'.sent.take c'.taken = c.sent.take c.taken ++ [a] := by
  unfold tryRecv at h
  split at h
  · rename_i hlt
    cases h
    exact (List.take_append_getElem hlt).symm
  · cases h

theorem sent_of_tryRecv {c' : Channel α} (h : c.tryRecv = some (a, c')) :
    c'.sent = c.sent := by
  unfold tryRecv at h
  split at h
  · cases h
    rfl
  · cases h

/-- The entries that have not been taken out, oldest first. -/
def pending (c : Channel α) : List α := c.sent.drop c.taken

theorem tryRecv_of_pending {rest : List α} (h : c.pending = a :: rest) :
    ∃ c', c.tryRecv = some (a, c') ∧ c'.pending = rest := by
  have hlt : c.taken < c.sent.length := by
    by_contra hge
    rw [pending, List.drop_eq_nil_of_le (not_lt.1 hge)] at h
    cases h
  rw [pending, List.drop_eq_getElem_cons hlt] at h
  obtain ⟨ha, hrest⟩ := List.cons.inj h
  refine ⟨⟨c.sent, c.taken + 1, hlt⟩, ?_, hrest⟩
  rw [tryRecv, dif_pos hlt]
  exact congrArg (fun a => some (a, _)) ha

end Channel

/-! ## Caches -/

section Memo

variable {α κ β ε : Type} [DecidableEq κ] (key : α → κ) (load : α → Except ε β)

/-- One call: what is kept under the key, or what the loader returns. -/
def memo (cache : Table κ β) (a : α) : Except ε β × Table κ β :=
  match cache.lookup (key a) with
  | some b => (.ok b, cache)
  | none =>
    match load a with
    | .error e => (.error e, cache)
    | .ok b => (.ok b, cache.insert (key a) b)

/-- The results of calls one after another. -/
def memoAll (cache : Table κ β) : List α → List (Except ε β)
  | [] => []
  | a :: as => (memo key load cache a).1 :: memoAll (memo key load cache a).2 as

/-- Whatever the earlier call has loaded, the later one would load. -/
def SameLoad (a b : α) : Prop := key a = key b → ∀ t, load a = .ok t → load b = .ok t

variable {key load}

theorem memoAll_eq_map_iff_of_cache (as : List α) (cache : Table κ β) :
    memoAll key load cache as = as.map load ↔
      (∀ a ∈ as, ∀ t, cache.lookup (key a) = some t → load a = .ok t) ∧
        as.Pairwise (SameLoad key load) := by
  induction as generalizing cache with
  | nil => simp [memoAll]
  | cons a as ih =>
    rw [memoAll, List.map_cons, List.cons.injEq, ih, List.pairwise_cons, List.forall_mem_cons]
    cases hkept : cache.lookup (key a) with
    | some kept =>
      have hmemo : memo key load cache a = (.ok kept, cache) := by rw [memo, hkept]
      rw [hmemo]
      unfold SameLoad
      grind
    | none =>
      cases hload : load a with
      | error e =>
        have hmemo : memo key load cache a = (.error e, cache) := by rw [memo, hkept, hload]
        rw [hmemo]
        unfold SameLoad
        grind
      | ok loaded =>
        have hmemo : memo key load cache a = (.ok loaded, cache.insert (key a) loaded) := by
          rw [memo, hkept, hload]
        rw [hmemo]
        unfold SameLoad
        simp only [Table.lookup_insert_ite]
        grind

/-- **When a cache is transparent.** -/
theorem memoAll_eq_map_iff (as : List α) :
    memoAll key load ∅ as = as.map load ↔ as.Pairwise (SameLoad key load) := by
  rw [memoAll_eq_map_iff_of_cache]
  simp

end Memo

end SiestaVR.Lib
