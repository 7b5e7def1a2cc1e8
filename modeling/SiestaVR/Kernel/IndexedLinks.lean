import SiestaVR.Kernel.IndexedQueue

/-!
# The links of the indexed priority queue

In a consistent queue the heap is ordered, heap and slab name each other, and the free nodes
form a list. Every operation returns in such a queue, unless the epochs are used up, and keeps
it so; what it does to the items and their values is all that the later proofs need to know.

An insertion and a removal both open a hole in the heap and sift one item through it (`Ready`,
`Sifted`); the links are right off the hole in between (`Lib.Slots`), and the order is that of a
heap without the hole (`Lib.Heap`).
-/

namespace SiestaVR.Kernel.IndexedPriorityQueue

variable {K V : Type} [LinearOrder K] {q q' : IndexedPriorityQueue K V} {it lastItem : Item K}
  {i : Nat}

/-- The links of heap and slab, and the order of the heap. -/
structure Consistent (q : IndexedPriorityQueue K V) : Prop where
  ordered : Heap.Ordered Item.key q.heap
  links : Slots.Linked q.heapIdxAt q.slots
  free : Slots.FreeList q.nextAt q.firstFreeNode

theorem consistent_new : Consistent (new : IndexedPriorityQueue K V) where
  ordered i x y _ hx _ := by cases hx
  links s i := by
    constructor
    · intro h
      cases h
    · intro h
      cases h
  free := ⟨[], rfl, List.nodup_nil, fun s => by simp [nextAt, look, new]⟩

namespace Consistent

theorem heapIdxAt_eq (h : Consistent q) (hit : q.heap[i]? = some it) :
    q.heapIdxAt it.slabIdx = some i :=
  (h.links it.slabIdx i).2 (slots_getElem? hit)

theorem exists_item (h : Consistent q) {s : Nat} (hs : q.heapIdxAt s = some i) :
    ∃ it, q.heap[i]? = some it ∧ it.slabIdx = s := by
  have hslot := (h.links s i).1 hs
  rw [slots, List.getElem?_map] at hslot
  exact Option.map_eq_some_iff.1 hslot

theorem isSome_value (h : Consistent q) (hit : q.heap[i]? = some it) :
    (q.valueAt it.slabIdx).isSome :=
  isSome_valueAt (h.heapIdxAt_eq hit)

theorem exists_node (h : Consistent q) (hit : q.heap[i]? = some it) :
    ∃ value, q.slab[it.slabIdx]? = some (.heapNode value i) := by
  obtain ⟨node, hnode, hidx⟩ := Option.bind_eq_some_iff.1 (h.heapIdxAt_eq hit)
  cases node with
  | freeNode next => cases hidx
  | heapNode value heapIdx =>
    cases hidx
    exact ⟨value, hnode⟩

theorem idx_eq (h : Consistent q) {it' : Item K} {j : Nat} (hi : q.heap[i]? = some it)
    (hj : q.heap[j]? = some it') (heq : it.slabIdx = it'.slabIdx) : i = j :=
  h.links.inj (slots_getElem? hi) (heq ▸ slots_getElem? hj)

/-! ### Inserting -/

/-- A new last place of the heap is ready for an item with a new node. -/
theorem ready_snoc (h : Consistent q) {q₁ : IndexedPriorityQueue K V} {s : Nat} {value : V}
    (hidx : q.heapIdxAt s = none) (hidx₁ : q₁.heapIdxAt = Function.update q.heapIdxAt s (some 0))
    (hvalue₁ : q₁.valueAt = Function.update q.valueAt s (some value)) (hheap₁ : q₁.heap = q.heap)
    (key : UniqueKey K) :
    Ready { q₁ with heap := q₁.heap ++ [⟨key, 0⟩] } ⟨key, s⟩ q₁.heap.length where
  lt := by
    rw [List.length_append, List.length_singleton]
    exact Nat.lt_succ_self _
  gap := by
    rw [hheap₁]
    exact h.ordered.gap_snoc _
  links := by
    have hlen : q₁.heap.length = q.slots.length := by rw [hheap₁, slots, List.length_map]
    have hslots : (q₁.heap ++ [(⟨key, 0⟩ : Item K)]).map Item.slabIdx = q.slots ++ [0] := by
      rw [hheap₁, List.map_append, slots, List.map_singleton]
    show Slots.LinkedBut q₁.heapIdxAt ((q₁.heap ++ [(⟨key, 0⟩ : Item K)]).map Item.slabIdx)
      q₁.heap.length s
    rw [hidx₁, hslots, hlen]
    exact h.links.linkedBut_snoc hidx 0 (some 0)
  node := by
    show (q₁.valueAt s).isSome
    rw [hvalue₁, Function.update_self]
    rfl

theorem insert_spec (h : Consistent q) (hepoch : q.nextEpoch ≠ 2 ^ 64 - 1) (key : K) (value : V) :
    ∃ s q', q.insert key value = some (⟨s, q.nextEpoch⟩, q') ∧ Consistent q' ∧
      q'.heap.Perm (⟨⟨key, q.nextEpoch⟩, s⟩ :: q.heap) ∧ q.valueAt s = none ∧
      q'.valueAt = Function.update q.valueAt s (some value) ∧ q'.nextEpoch = q.nextEpoch + 1 := by
  obtain ⟨s, q₁, htake, hidx, hnone, hidx₁, hvalue₁, hfree₁, hheap₁, hepoch₁⟩ :=
    takeNode_spec (q := { q with nextEpoch := q.nextEpoch + 1 }) h.free value
  have hready := h.ready_snoc hidx hidx₁ hvalue₁ hheap₁ ⟨key, q.nextEpoch⟩
  obtain ⟨q', hq', hsifted⟩ := siftUp_spec (Nat.lt_succ_self _) hready
    (Heap.fitsBelow_of_length_le (by simp; omega))
  refine ⟨s, q', ?_, ⟨hsifted.ordered, hsifted.links, ?_⟩, ?_, hnone, ?_, ?_⟩
  · rw [insert]
    dsimp only
    rw [if_neg hepoch, htake, Option.bind_some]
    dsimp only
    rw [hq', Option.map_some]
  · rw [hsifted.same.nextAt, hsifted.same.firstFreeNode]
    exact hfree₁
  · have herase : (q₁.heap ++ [(⟨⟨key, q.nextEpoch⟩, 0⟩ : Item K)]).eraseIdx q₁.heap.length =
        q.heap := by
      rw [← hheap₁, List.eraseIdx_append_of_length_le le_rfl]
      simp
    rw [← herase]
    exact hsifted.perm
  · exact hsifted.same.valueAt.trans hvalue₁
  · exact hsifted.same.nextEpoch.trans hepoch₁

/-! ### Removing -/

/-- An item has been removed. -/
structure Removed (q q' : IndexedPriorityQueue K V) (it : Item K) : Prop where
  consistent : Consistent q'
  perm : q.heap.Perm (it :: q'.heap)
  valueAt : q'.valueAt = Function.update q.valueAt it.slabIdx none
  nextEpoch : q'.nextEpoch = q.nextEpoch

section Remove

variable (h : Consistent q) (hit : q.heap[i]? = some it)
include h hit

theorem lt_slab : it.slabIdx < q.slab.length := by
  obtain ⟨value, hnode⟩ := h.exists_node hit
  exact (List.getElem?_eq_some_iff.1 hnode).1

theorem free_freeNode :
    Slots.FreeList (q.freeNode it.slabIdx).nextAt (q.freeNode it.slabIdx).firstFreeNode := by
  show Slots.FreeList (look (q.slab.set it.slabIdx (.freeNode q.firstFreeNode))
    Node.unwrapNextFreeNode) (some it.slabIdx)
  rw [look_set _ (h.lt_slab hit)]
  exact h.free.push (nextAt_of_valueAt (h.isSome_value hit))

theorem heapIdxAt_freeNode :
    (q.freeNode it.slabIdx).heapIdxAt = Function.update q.heapIdxAt it.slabIdx none :=
  look_set _ (h.lt_slab hit) _

theorem valueAt_freeNode :
    (q.freeNode it.slabIdx).valueAt = Function.update q.valueAt it.slabIdx none :=
  look_set _ (h.lt_slab hit) _

omit [LinearOrder K] h hit in
theorem slots_freeNode (s : Nat) : (q.freeNode s).slots = q.slots.dropLast :=
  List.map_dropLast ..

theorem removed_last (hi : i = q.heap.length - 1) : Removed q (q.freeNode it.slabIdx) it where
  consistent := by
    refine ⟨h.ordered.dropLast, ?_, h.free_freeNode hit⟩
    rw [h.heapIdxAt_freeNode hit, slots_freeNode]
    apply h.links.dropLast
    rw [slots, List.length_map, ← hi]
    exact slots_getElem? hit
  perm := by
    have hlast : q.heap.getLast? = some it := by
      rw [List.getLast?_eq_getElem?, ← hi]
      exact hit
    have heq : q.heap.dropLast ++ [it] = q.heap := List.dropLast_append_getLast? it hlast
    exact (List.Perm.of_eq heq.symm).trans (List.perm_append_singleton it _)
  valueAt := h.valueAt_freeNode hit
  nextEpoch := rfl

section NotLast

variable (hlast : q.heap.getLast? = some lastItem) (hi : i ≠ q.heap.length - 1)
include hlast hi

theorem ne_last : lastItem.slabIdx ≠ it.slabIdx := by
  intro heq
  rw [List.getLast?_eq_getElem?] at hlast
  exact hi (h.idx_eq hit hlast heq.symm)

omit h [LinearOrder K] hlast in
/-- The item is still at its place when the last one has been taken off. -/
theorem dropLast_getElem? : q.heap.dropLast[i]? = some it := by
  have hlt := (List.getElem?_eq_some_iff.1 hit).1
  rw [List.getElem?_dropLast, if_pos (by omega)]
  exact hit

theorem ready_freeNode : Ready (q.freeNode it.slabIdx) lastItem i where
  lt := (List.getElem?_eq_some_iff.1 (dropLast_getElem? hit hi)).1
  gap := h.ordered.dropLast.gap i
  links := by
    have hlen : q.slots.length = q.heap.length := List.length_map ..
    rw [h.heapIdxAt_freeNode hit, slots_freeNode]
    apply h.links.swapRemove (slots_getElem? hit)
    · rw [List.getLast?_eq_getElem?] at hlast
      rw [hlen]
      exact slots_getElem? hlast
    · rw [hlen]
      exact hi
  node := by
    rw [h.valueAt_freeNode hit, Function.update_of_ne (h.ne_last hit hlast hi)]
    rw [List.getLast?_eq_getElem?] at hlast
    exact h.isSome_value hlast

/-- The last item has been sifted from the place of the removed one. -/
theorem removed_of_sifted (hs : Sifted (q.freeNode it.slabIdx) q' lastItem i) :
    Removed q q' it where
  consistent := by
    refine ⟨hs.ordered, hs.links, ?_⟩
    rw [hs.same.nextAt, hs.same.firstFreeNode]
    exact h.free_freeNode hit
  perm := by
    obtain ⟨hlt, hget⟩ := List.getElem?_eq_some_iff.1 (dropLast_getElem? hit hi)
    have hdrop : q.heap.dropLast.Perm (it :: q.heap.dropLast.eraseIdx i) := by
      rw [← hget]
      exact (List.getElem_cons_eraseIdx_perm hlt).symm
    have heq : q.heap.dropLast ++ [lastItem] = q.heap :=
      List.dropLast_append_getLast? lastItem hlast
    calc q.heap = q.heap.dropLast ++ [lastItem] := heq.symm
      List.Perm _ (lastItem :: q.heap.dropLast) := List.perm_append_singleton ..
      List.Perm _ (lastItem :: it :: q.heap.dropLast.eraseIdx i) := hdrop.cons _
      List.Perm _ (it :: lastItem :: q.heap.dropLast.eraseIdx i) := List.Perm.swap ..
      List.Perm _ (it :: q'.heap) := hs.perm.symm.cons _
  valueAt := hs.same.valueAt.trans (h.valueAt_freeNode hit)
  nextEpoch := hs.same.nextEpoch

/-- The last item is sifted from the place of the removed one: it fits above or below it
because the removed one did. -/
theorem exists_sifted :
    ∃ q', (if lastItem.key < it.key then siftUp lastItem (i + 1) i (q.freeNode it.slabIdx)
        else siftDown lastItem ((q.freeNode it.slabIdx).heap.length + 1) i
          (q.freeNode it.slabIdx)) = some q' ∧
      Sifted (q.freeNode it.slabIdx) q' lastItem i := by
  have hready := h.ready_freeNode hit hlast hi
  have hvacant : (q.freeNode it.slabIdx).heap[i]? = some it := dropLast_getElem? hit hi
  have hordered : Heap.Ordered Item.key (q.freeNode it.slabIdx).heap := h.ordered.dropLast
  split
  next hlt =>
    apply siftUp_spec (Nat.lt_succ_self i) hready
    intro j y hj hparent hy
    exact hlt.le.trans (hordered hj hy (hparent ▸ hvacant))
  next hle =>
    apply siftDown_spec (by omega) hready
    intro y hpos hy
    exact le_trans (hordered hpos hvacant hy) (not_lt.1 hle)

end NotLast

omit [LinearOrder K] h in
theorem exists_last : ∃ lastItem, q.heap.getLast? = some lastItem := by
  have hlt := (List.getElem?_eq_some_iff.1 hit).1
  rw [List.getLast?_eq_getElem?]
  exact ⟨_, List.getElem?_eq_getElem (by omega)⟩

/-- The item on top is pulled. -/
theorem pull_spec (hi : i = 0) :
    ∃ value q', q.valueAt it.slabIdx = some value ∧
      q.pull = some (some (it.key.key, value), q') ∧ Removed q q' it := by
  subst hi
  obtain ⟨value, hvalue⟩ := Option.isSome_iff_exists.1 (h.isSome_value hit)
  obtain ⟨lastItem, hlast⟩ := exists_last hit
  have hhead : q.heap.head? = some it := by
    rw [List.head?_eq_getElem?]
    exact hit
  have hnode : (q.slab[it.slabIdx]?).bind Node.unwrapValue = some value := hvalue
  simp only [pull, hhead, hlast, hnode, Option.bind_some]
  by_cases hi : 0 = q.heap.length - 1
  · have hsame : lastItem.slabIdx = it.slabIdx := by
      rw [List.getLast?_eq_getElem?, ← hi, hit] at hlast
      cases hlast
      rfl
    refine ⟨value, _, hvalue, ?_, h.removed_last hit hi⟩
    rw [if_neg (not_not_intro hsame), Option.map_some]
  · have habove : Heap.FitsAbove Item.key (q.freeNode it.slabIdx).heap 0 lastItem := by
      intro y hpos
      omega
    obtain ⟨q', hq', hsifted⟩ :=
      siftDown_spec (Nat.le_succ _) (h.ready_freeNode hit hlast hi) habove
    refine ⟨value, q', hvalue, ?_, h.removed_of_sifted hit hlast hi hsifted⟩
    rw [if_pos (h.ne_last hit hlast hi), hq', Option.map_some]

/-- The item that an insertion key names is extracted. -/
theorem extract_spec (k : InsertKey) (hslot : it.slabIdx = k.slabIdx)
    (hepoch : it.key.epoch = k.epoch) :
    ∃ value q', q.valueAt it.slabIdx = some value ∧
      q.extract k = some (some (it.key.key, value), q') ∧ Removed q q' it := by
  obtain ⟨value, hnode⟩ := h.exists_node hit
  have hvalue : q.valueAt it.slabIdx = some value := by
    rw [valueAt, look, hnode]
    rfl
  obtain ⟨lastItem, hlast⟩ := exists_last hit
  simp only [extract, ← hslot, hnode, hit, hlast, Option.bind_some, ne_eq, hepoch,
    not_true_eq_false, if_false]
  by_cases hi : i = q.heap.length - 1
  · have hout : (q.freeNode it.slabIdx).heap[i]? = none := by
      show q.heap.dropLast[i]? = none
      exact List.getElem?_eq_none (by rw [List.length_dropLast]; omega)
    refine ⟨value, _, hvalue, ?_, h.removed_last hit hi⟩
    rw [hout, Option.map_some]
  · have hvacant : (q.freeNode it.slabIdx).heap[i]? = some it := dropLast_getElem? hit hi
    obtain ⟨q', hq', hsifted⟩ := h.exists_sifted hit hlast hi
    refine ⟨value, q', hvalue, ?_, h.removed_of_sifted hit hlast hi hsifted⟩
    rw [hvacant]
    dsimp only
    rw [hq', Option.map_some]

end Remove

theorem pull_nil (hempty : q.heap = []) : q.pull = some (none, q) := by
  rw [pull, hempty]
  rfl

theorem extract_stale (h : Consistent q) (k : InsertKey)
    (hstale : ∀ it ∈ q.heap, it.slabIdx = k.slabIdx → it.key.epoch ≠ k.epoch) :
    q.extract k = some (none, q) := by
  unfold extract
  cases hnode : q.slab[k.slabIdx]? with
  | none => rfl
  | some node =>
    cases node with
    | freeNode next => rfl
    | heapNode value heapIdx =>
      have hidx : q.heapIdxAt k.slabIdx = some heapIdx := by
        rw [heapIdxAt, look, hnode]
        rfl
      obtain ⟨it, hit, hslot⟩ := h.exists_item hidx
      dsimp only
      rw [hit, Option.bind_some, if_pos (hstale it (List.mem_of_getElem? hit) hslot)]

end Consistent

end SiestaVR.Kernel.IndexedPriorityQueue
