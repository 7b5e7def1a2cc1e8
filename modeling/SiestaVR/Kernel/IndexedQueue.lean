import Mathlib.Algebra.Order.Ring.Nat
import Mathlib.Data.Prod.Lex
import SiestaVR.Lib.Heap
import SiestaVR.Lib.Slots

/-!
# Indexed priority queue (asynchronix/src/util/indexed_priority_queue.rs)

A binary heap of keys, cross-indexed with a slab that holds the values: each item of the heap
names its node, each node in use its place in the heap, and the nodes that are not in use form a
list. What panics gives `none`: an index out of range, a node of the wrong kind, and the
assertion that the epochs of 64 bits suffice. The loops of `sift_up` and `sift_down` have a bound
on their rounds, which suffices (`siftUp_spec`, `siftDown_spec`).

While an item is sifted its place is a hole, and the item that is there belongs to another place or
to none. `Ready` is the state of the two tables in between; `Ready.move` fills the hole from a
neighbour and `Ready.finish` with the item.
-/

namespace SiestaVR.Kernel

variable {K V : Type}

/-- `UniqueKey`. -/
structure UniqueKey (K : Type) where
  key : K
  epoch : Nat
deriving Repr

/-- The derived order: by key, then by epoch. -/
instance [LinearOrder K] : LinearOrder (UniqueKey K) :=
  LinearOrder.lift' (fun k => toLex (k.key, k.epoch)) fun a b h => by
    obtain ⟨hkey, hepoch⟩ := Prod.mk.inj (toLex.injective h)
    cases a
    cases b
    cases hkey
    cases hepoch
    rfl

theorem UniqueKey.lt_iff [LinearOrder K] {a b : UniqueKey K} :
    a < b ↔ a.key < b.key ∨ a.key = b.key ∧ a.epoch < b.epoch :=
  Prod.Lex.toLex_lt_toLex

/-- `InsertKey`. -/
structure InsertKey where
  slabIdx : Nat
  epoch : Nat
deriving DecidableEq, Repr

namespace IndexedPriorityQueue

/-- `Item`: an item of the heap. -/
structure Item (K : Type) where
  key : UniqueKey K
  slabIdx : Nat
deriving Repr

/-- `Node`: a node of the slab. -/
inductive Node (V : Type) where
  | freeNode (next : Option Nat)
  | heapNode (value : V) (heapIdx : Nat)
deriving Repr

/-- `Node::unwrap_next_free_node`. -/
def Node.unwrapNextFreeNode : Node V → Option (Option Nat)
  | .freeNode next => some next
  | .heapNode _ _ => none

/-- `Node::unwrap_value`. -/
def Node.unwrapValue : Node V → Option V
  | .freeNode _ => none
  | .heapNode value _ => some value

/-- The index that `Node::unwrap_heap_index_mut` refers to. -/
def Node.heapIndex : Node V → Option Nat
  | .freeNode _ => none
  | .heapNode _ heapIdx => some heapIdx

/-- A node with another index in the heap. -/
def Node.setHeapIndex (heapIdx : Nat) : Node V → Option (Node V)
  | .freeNode _ => none
  | .heapNode value _ => some (.heapNode value heapIdx)

end IndexedPriorityQueue

/-- `IndexedPriorityQueue`. -/
structure IndexedPriorityQueue (K V : Type) where
  heap : List (IndexedPriorityQueue.Item K)
  slab : List (IndexedPriorityQueue.Node V)
  firstFreeNode : Option Nat
  nextEpoch : Nat
deriving Repr

namespace IndexedPriorityQueue

/-- `IndexedPriorityQueue::new`. -/
def new : IndexedPriorityQueue K V := ⟨[], [], none, 0⟩

/-- An item is written to a place of the heap, and the place to its node. -/
def place (q : IndexedPriorityQueue K V) (item : Item K) (heapIdx : Nat) :
    Option (IndexedPriorityQueue K V) :=
  if heapIdx < q.heap.length then
    ((q.slab[item.slabIdx]?).bind (Node.setHeapIndex heapIdx)).map fun node =>
      { q with heap := q.heap.set heapIdx item, slab := q.slab.set item.slabIdx node }
  else none

variable [LinearOrder K]

/-- `IndexedPriorityQueue::sift_up`. -/
def siftUp (item : Item K) : Nat → Nat → IndexedPriorityQueue K V →
    Option (IndexedPriorityQueue K V)
  | 0, _, _ => none
  | n + 1, childHeapIdx, q =>
    if childHeapIdx = 0 then q.place item childHeapIdx
    else
      (q.heap[Heap.parent childHeapIdx]?).bind fun up =>
        if up.key ≤ item.key then q.place item childHeapIdx
        else
          (q.place up childHeapIdx).bind fun q =>
            -- The key is compared with the same parent a second time.
            (q.heap[Heap.parent childHeapIdx]?).bind fun up =>
              if up.key ≤ item.key then q.place item childHeapIdx
              else siftUp item n (Heap.parent childHeapIdx) q

/-- The child with the smaller key, if there is a second one. -/
def lesserChild (heap : List (Item K)) (childHeapIdx : Nat) : Nat :=
  match heap[childHeapIdx]?, heap[childHeapIdx + 1]? with
  | some child, some otherChild =>
    if otherChild.key < child.key then childHeapIdx + 1 else childHeapIdx
  | _, _ => childHeapIdx

/-- `IndexedPriorityQueue::sift_down`. -/
def siftDown (item : Item K) : Nat → Nat → IndexedPriorityQueue K V →
    Option (IndexedPriorityQueue K V)
  | 0, _, _ => none
  | n + 1, parentHeapIdx, q =>
    if 2 * parentHeapIdx + 1 < q.heap.length then
      let childHeapIdx := lesserChild q.heap (2 * parentHeapIdx + 1)
      (q.heap[childHeapIdx]?).bind fun down =>
        if item.key ≤ down.key then q.place item parentHeapIdx
        else (q.place down parentHeapIdx).bind (siftDown item n childHeapIdx)
    else q.place item parentHeapIdx

/-- The node that `insert` takes for a value, and the queue with it. -/
def takeNode (q : IndexedPriorityQueue K V) (value : V) :
    Option (Nat × IndexedPriorityQueue K V) :=
  match q.firstFreeNode with
  | some idx =>
    ((q.slab[idx]?).bind Node.unwrapNextFreeNode).map fun next =>
      (idx, { q with slab := q.slab.set idx (.heapNode value 0), firstFreeNode := next })
  | none => some (q.slab.length, { q with slab := q.slab ++ [.heapNode value 0] })

/-- `IndexedPriorityQueue::insert`. -/
def insert (q : IndexedPriorityQueue K V) (key : K) (value : V) :
    Option (InsertKey × IndexedPriorityQueue K V) :=
  let epoch := q.nextEpoch
  if epoch = 2 ^ 64 - 1 then none
  else
    (takeNode { q with nextEpoch := q.nextEpoch + 1 } value).bind fun (slabIdx, q) =>
      let heapIdx := q.heap.length
      (siftUp ⟨⟨key, epoch⟩, slabIdx⟩ (heapIdx + 1) heapIdx
        { q with heap := q.heap ++ [⟨⟨key, epoch⟩, 0⟩] }).map fun q => (⟨slabIdx, epoch⟩, q)

/-- The queue in which a node has been freed and the last item of the heap taken off. -/
def freeNode (q : IndexedPriorityQueue K V) (slabIdx : Nat) : IndexedPriorityQueue K V :=
  { q with
    heap := q.heap.dropLast
    slab := q.slab.set slabIdx (.freeNode q.firstFreeNode)
    firstFreeNode := some slabIdx }

/-- `IndexedPriorityQueue::pull`. -/
def pull (q : IndexedPriorityQueue K V) :
    Option (Option (K × V) × IndexedPriorityQueue K V) :=
  match q.heap.head?, q.heap.getLast? with
  | some item, some lastItem =>
    ((q.slab[item.slabIdx]?).bind Node.unwrapValue).bind fun value =>
      let freed := q.freeNode item.slabIdx
      (if lastItem.slabIdx ≠ item.slabIdx then
        siftDown lastItem (freed.heap.length + 1) 0 freed
      else some freed).map fun q => (some (item.key.key, value), q)
  | _, _ => some (none, q)

/-- `IndexedPriorityQueue::peek`. -/
def peek (q : IndexedPriorityQueue K V) : Option (Option (K × V)) :=
  match q.heap.head? with
  | some item =>
    ((q.slab[item.slabIdx]?).bind Node.unwrapValue).map fun value => some (item.key.key, value)
  | none => some none

/-- `IndexedPriorityQueue::extract`. -/
def extract (q : IndexedPriorityQueue K V) (insertKey : InsertKey) :
    Option (Option (K × V) × IndexedPriorityQueue K V) :=
  match q.slab[insertKey.slabIdx]? with
  | none | some (.freeNode _) => some (none, q)
  | some (.heapNode value heapIdx) =>
    (q.heap[heapIdx]?).bind fun item =>
      if item.key.epoch ≠ insertKey.epoch then some (none, q)
      else
        let freed := q.freeNode insertKey.slabIdx
        (q.heap.getLast?).bind fun lastItem =>
          (match freed.heap[heapIdx]? with
          | some vacant =>
            if lastItem.key < vacant.key then siftUp lastItem (heapIdx + 1) heapIdx freed
            else siftDown lastItem (freed.heap.length + 1) heapIdx freed
          | none => some freed).map fun q => (some (item.key.key, value), q)

/-! ### What the slab shows -/

section Look

variable {β : Type} {q q' q'' : IndexedPriorityQueue K V} {slab : List (Node V)} {s : Nat}

omit [LinearOrder K]

/-- What `f` sees in the nodes of the slab. -/
def look (slab : List (Node V)) (f : Node V → Option β) (s : Nat) : Option β := (slab[s]?).bind f

theorem look_set (f : Node V → Option β) (hs : s < slab.length) (node : Node V) :
    look (slab.set s node) f = Function.update (look slab f) s (f node) := by
  funext t
  by_cases hts : t = s
  · subst hts
    rw [look, List.getElem?_set_self hs, Function.update_self, Option.bind_some]
  · rw [look, List.getElem?_set_ne (Ne.symm hts), Function.update_of_ne hts, look]

theorem look_snoc (f : Node V → Option β) (node : Node V) :
    look (slab ++ [node]) f = Function.update (look slab f) slab.length (f node) := by
  funext t
  rcases Nat.lt_trichotomy t slab.length with hlt | rfl | hgt
  · rw [look, List.getElem?_append_left hlt, Function.update_of_ne hlt.ne, look]
  · rw [look, List.getElem?_concat_length, Function.update_self, Option.bind_some]
  · rw [look, Function.update_of_ne hgt.ne', look, List.getElem?_eq_none (by simp; omega),
      List.getElem?_eq_none hgt.le]

/-- Where the nodes in use are in the heap. -/
def heapIdxAt (q : IndexedPriorityQueue K V) : Nat → Option Nat := look q.slab Node.heapIndex

/-- The values of the nodes in use. -/
def valueAt (q : IndexedPriorityQueue K V) : Nat → Option V := look q.slab Node.unwrapValue

/-- The successors of the free nodes. -/
def nextAt (q : IndexedPriorityQueue K V) : Nat → Option (Option Nat) :=
  look q.slab Node.unwrapNextFreeNode

/-- The nodes to which the heap refers. -/
def slots (q : IndexedPriorityQueue K V) : List Nat := q.heap.map Item.slabIdx

/-- Values, free nodes and epochs are the same. -/
structure Same (q q' : IndexedPriorityQueue K V) : Prop where
  valueAt : q'.valueAt = q.valueAt
  nextAt : q'.nextAt = q.nextAt
  firstFreeNode : q'.firstFreeNode = q.firstFreeNode
  nextEpoch : q'.nextEpoch = q.nextEpoch

theorem Same.trans (h : Same q q') (h' : Same q' q'') : Same q q'' where
  valueAt := h'.valueAt.trans h.valueAt
  nextAt := h'.nextAt.trans h.nextAt
  firstFreeNode := h'.firstFreeNode.trans h.firstFreeNode
  nextEpoch := h'.nextEpoch.trans h.nextEpoch

theorem slots_getElem? {item : Item K} {i : Nat} (h : q.heap[i]? = some item) :
    q.slots[i]? = some item.slabIdx := by
  rw [slots, List.getElem?_map, h, Option.map_some]

theorem isSome_valueAt {i : Nat} (h : q.heapIdxAt s = some i) : (q.valueAt s).isSome := by
  obtain ⟨node, hnode, hi⟩ := Option.bind_eq_some_iff.1 h
  rw [valueAt, look, hnode, Option.bind_some]
  cases node with
  | freeNode next => cases hi
  | heapNode value heapIdx => rfl

/-- An item is placed: only its own node changes, and there only the place. -/
theorem place_spec {item : Item K} {i : Nat} (hi : i < q.heap.length)
    (hnode : (q.valueAt item.slabIdx).isSome) :
    ∃ q', q.place item i = some q' ∧ q'.heap = q.heap.set i item ∧
      q'.heapIdxAt = Function.update q.heapIdxAt item.slabIdx (some i) ∧ Same q q' := by
  obtain ⟨value, hvalue⟩ := Option.isSome_iff_exists.1 hnode
  obtain ⟨node, hnode, hv⟩ := Option.bind_eq_some_iff.1 hvalue
  have hs := (List.getElem?_eq_some_iff.1 hnode).1
  cases node with
  | freeNode next => cases hv
  | heapNode value' heapIdx =>
    cases hv
    have hnext : q.nextAt item.slabIdx = none := by
      rw [nextAt, look, hnode]
      rfl
    refine ⟨{ q with
      heap := q.heap.set i item
      slab := q.slab.set item.slabIdx (.heapNode value i) }, ?_, rfl, look_set _ hs _, ?_⟩
    · rw [place, if_pos hi, hnode]
      rfl
    · refine ⟨(look_set _ hs _).trans ?_, (look_set _ hs _).trans ?_, rfl, rfl⟩
      · exact Function.update_eq_self_iff.2 hvalue.symm
      · exact Function.update_eq_self_iff.2 hnext.symm

theorem nextAt_of_valueAt {s : Nat} (h : (q.valueAt s).isSome) : q.nextAt s = none := by
  obtain ⟨value, hvalue⟩ := Option.isSome_iff_exists.1 h
  obtain ⟨node, hnode, hv⟩ := Option.bind_eq_some_iff.1 hvalue
  rw [nextAt, look, hnode, Option.bind_some]
  cases node with
  | freeNode next => cases hv
  | heapNode value heapIdx => rfl

theorem look_of_nextAt {β : Type} {f : Node V → Option β} (hf : ∀ next, f (.freeNode next) = none)
    {s : Nat} {next : Option Nat} (h : q.nextAt s = some next) : look q.slab f s = none := by
  obtain ⟨node, hnode, hn⟩ := Option.bind_eq_some_iff.1 h
  rw [look, hnode, Option.bind_some]
  cases node with
  | freeNode next => exact hf next
  | heapNode value heapIdx => cases hn

/-- A node that is not in use is taken for a value. -/
theorem takeNode_spec (hfree : Slots.FreeList q.nextAt q.firstFreeNode) (value : V) :
    ∃ s q', q.takeNode value = some (s, q') ∧ q.heapIdxAt s = none ∧ q.valueAt s = none ∧
      q'.heapIdxAt = Function.update q.heapIdxAt s (some 0) ∧
      q'.valueAt = Function.update q.valueAt s (some value) ∧
      Slots.FreeList q'.nextAt q'.firstFreeNode ∧
      q'.heap = q.heap ∧ q'.nextEpoch = q.nextEpoch := by
  -- The first free node, or a new one at the end of the slab.
  unfold takeNode
  cases hfirst : q.firstFreeNode with
  | some s =>
    rw [hfirst] at hfree
    obtain ⟨next, hnext, hrest⟩ := hfree.pop
    obtain ⟨node, hnode, -⟩ := Option.bind_eq_some_iff.1 hnext
    have hs := (List.getElem?_eq_some_iff.1 hnode).1
    have hbind : (q.slab[s]?).bind Node.unwrapNextFreeNode = some next := hnext
    refine ⟨s, { q with slab := q.slab.set s (.heapNode value 0), firstFreeNode := next }, ?_,
      look_of_nextAt (fun _ => rfl) hnext, look_of_nextAt (fun _ => rfl) hnext, look_set _ hs _,
      look_set _ hs _, ?_, rfl, rfl⟩
    · dsimp only
      rw [hbind, Option.map_some]
    · show Slots.FreeList (look (q.slab.set s (.heapNode value 0)) Node.unwrapNextFreeNode) next
      rw [look_set _ hs]
      exact hrest
  | none =>
    have hout {β : Type} (f : Node V → Option β) : look q.slab f q.slab.length = none := by
      rw [look, List.getElem?_eq_none le_rfl, Option.bind_none]
    rw [hfirst] at hfree
    have hnext : Function.update q.nextAt q.slab.length none = q.nextAt :=
      Function.update_eq_self_iff.2 (hout _).symm
    refine ⟨q.slab.length,
      { q with slab := q.slab ++ [.heapNode value 0], firstFreeNode := none }, rfl, hout _, hout _,
      look_snoc _ _, look_snoc _ _, ?_, rfl, rfl⟩
    show Slots.FreeList (look (q.slab ++ [.heapNode value 0]) Node.unwrapNextFreeNode) none
    rw [look_snoc]
    show Slots.FreeList (Function.update q.nextAt q.slab.length none) none
    rw [hnext]
    exact hfree

end Look

/-! ### Sifting -/

section Sift

variable {q q' q'' : IndexedPriorityQueue K V} {item x : Item K} {hole i : Nat}

/-- The heap has a hole for an item that has its node already. -/
structure Ready (q : IndexedPriorityQueue K V) (item : Item K) (hole : Nat) : Prop where
  lt : hole < q.heap.length
  gap : Heap.Gap Item.key q.heap hole
  links : Slots.LinkedBut q.heapIdxAt q.slots hole item.slabIdx
  node : (q.valueAt item.slabIdx).isSome

/-- The item has been added to the others. -/
structure Sifted (q q' : IndexedPriorityQueue K V) (item : Item K) (hole : Nat) : Prop where
  ordered : Heap.Ordered Item.key q'.heap
  perm : q'.heap.Perm (item :: q.heap.eraseIdx hole)
  links : Slots.Linked q'.heapIdxAt q'.slots
  same : Same q q'

theorem Ready.lt_slots (h : Ready q item hole) : hole < q.slots.length := by
  rw [slots, List.length_map]
  exact h.lt

/-- Another item moves into the hole. -/
theorem Ready.move (h : Ready q item hole) (hx : q.heap[i]? = some x) (hne : i ≠ hole)
    (hgap : Heap.Gap Item.key (q.heap.set hole x) i) :
    ∃ q', q.place x hole = some q' ∧ q'.heap = q.heap.set hole x ∧ Ready q' item i ∧
      ∀ q'', Sifted q' q'' item i → Sifted q q'' item hole := by
  have hslot := slots_getElem? hx
  obtain ⟨q', hplace, hheap, hidx, hsame⟩ :=
    place_spec h.lt (isSome_valueAt (h.links.pos_eq h.lt_slots hslot hne))
  have hslots : q'.slots = q.slots.set hole x.slabIdx := by
    rw [slots, hheap, List.map_set, slots]
  refine ⟨q', hplace, hheap, ⟨?_, ?_, ?_, ?_⟩, ?_⟩
  · rw [hheap, List.length_set]
    exact (List.getElem?_eq_some_iff.1 hx).1
  · rw [hheap]
    exact hgap
  · rw [hidx, hslots]
    exact h.links.move h.lt_slots hslot hne
  · rw [hsame.valueAt]
    exact h.node
  · intro q'' h'
    refine ⟨h'.ordered, h'.perm.trans (List.Perm.cons item ?_), h'.links, hsame.trans h'.same⟩
    rw [hheap]
    exact Heap.perm_eraseIdx_move h.lt hne hx

theorem Ready.finish (h : Ready q item hole) (habove : Heap.FitsAbove Item.key q.heap hole item)
    (hbelow : Heap.FitsBelow Item.key q.heap hole item) :
    ∃ q', q.place item hole = some q' ∧ Sifted q q' item hole := by
  obtain ⟨q', hplace, hheap, hidx, hsame⟩ := place_spec h.lt h.node
  refine ⟨q', hplace, ?_, ?_, ?_, hsame⟩
  · rw [hheap]
    exact h.gap.fill h.lt habove hbelow
  · rw [hheap]
    exact List.set_perm_cons_eraseIdx h.lt item
  · rw [hidx, slots, hheap, List.map_set]
    exact h.links

/-- An item that is not greater than what is below the hole is sifted up. -/
theorem siftUp_spec {n : Nat} (hn : hole < n) (h : Ready q item hole)
    (hbelow : Heap.FitsBelow Item.key q.heap hole item) :
    ∃ q', siftUp item n hole q = some q' ∧ Sifted q q' item hole := by
  induction n generalizing q hole with
  | zero => omega
  | succ n ih =>
    rw [siftUp]
    split
    next hzero =>
      apply h.finish _ hbelow
      intro y hpos
      omega
    next hpos =>
      have hpos := Nat.pos_of_ne_zero hpos
      have hlt := Heap.parent_lt hpos
      obtain ⟨up, hup⟩ : ∃ up, q.heap[Heap.parent hole]? = some up :=
        ⟨_, List.getElem?_eq_getElem (hlt.trans h.lt)⟩
      rw [hup, Option.bind_some]
      split
      next hle =>
        apply h.finish _ hbelow
        intro y _ hy
        cases hup.symm.trans hy
        exact hle
      next hle =>
        obtain ⟨q₁, hplace, hheap, hready, hback⟩ :=
          h.move hup hlt.ne (h.gap.up hpos h.lt hup)
        -- The parent has not moved, so the second comparison is as the first.
        rw [hplace, Option.bind_some, hheap, List.getElem?_set_ne hlt.ne', hup, Option.bind_some,
          if_neg hle]
        have hbelow₁ : Heap.FitsBelow Item.key q₁.heap (Heap.parent hole) item := by
          rw [hheap]
          exact h.gap.fitsBelow_up h.lt hpos hup (not_le.1 hle).le
        obtain ⟨q', hq', hsifted⟩ := ih (by omega) hready hbelow₁
        exact ⟨q', hq', hback q' hsifted⟩

/-- Of the children the lesser one is found. -/
theorem lesserChild_spec {heap : List (Item K)} {p : Nat} (hp : 2 * p + 1 < heap.length) :
    ∃ child, heap[lesserChild heap (2 * p + 1)]? = some child ∧
      0 < lesserChild heap (2 * p + 1) ∧ Heap.parent (lesserChild heap (2 * p + 1)) = p ∧
      Heap.FitsBelow Item.key heap p child := by
  obtain ⟨first, hfirst⟩ : ∃ first, heap[2 * p + 1]? = some first :=
    ⟨_, List.getElem?_eq_getElem hp⟩
  simp only [lesserChild, hfirst, Heap.fitsBelow_iff]
  cases hother : heap[2 * p + 2]? with
  | none =>
    dsimp only
    refine ⟨first, hfirst, by omega, Heap.parent_left p, ?_, ?_⟩
    · intro y hy
      cases hy
      exact le_rfl
    · intro y hy
      cases hy
  | some other =>
    dsimp only
    split
    next hlt =>
      refine ⟨other, hother, by omega, Heap.parent_right p, ?_, ?_⟩
      · intro y hy
        cases hy
        exact hlt.le
      · intro y hy
        cases hy
        exact le_rfl
    next hle =>
      refine ⟨first, hfirst, by omega, Heap.parent_left p, ?_, ?_⟩
      · intro y hy
        cases hy
        exact le_rfl
      · intro y hy
        cases hy
        exact not_lt.1 hle

/-- An item that is not smaller than what is above the hole is sifted down. -/
theorem siftDown_spec {n : Nat} (hn : q.heap.length ≤ n + hole) (h : Ready q item hole)
    (habove : Heap.FitsAbove Item.key q.heap hole item) :
    ∃ q', siftDown item n hole q = some q' ∧ Sifted q q' item hole := by
  induction n generalizing q hole with
  | zero =>
    have := h.lt
    omega
  | succ n ih =>
    rw [siftDown]
    split
    next hchild =>
      obtain ⟨down, hdown, hpos, hparent, hleast⟩ := lesserChild_spec hchild
      dsimp only
      rw [hdown, Option.bind_some]
      have hlt := Heap.parent_lt hpos
      rw [hparent] at hlt
      split
      next hle =>
        apply h.finish habove
        intro i y hi hi' hy
        exact le_trans hle (hleast hi hi' hy)
      next hle =>
        -- The lesser child moves up into the hole, and its place is the hole of the next round.
        obtain ⟨q₁, hplace, hheap, hready, hback⟩ :=
          h.move hdown hlt.ne' (h.gap.down h.lt hpos hparent hdown hleast)
        rw [hplace, Option.bind_some]
        have habove₁ :
            Heap.FitsAbove Item.key q₁.heap (lesserChild q.heap (2 * hole + 1)) item := by
          rw [hheap]
          exact Heap.fitsAbove_down h.lt hparent (not_le.1 hle).le
        have hn₁ : q₁.heap.length ≤ n + lesserChild q.heap (2 * hole + 1) := by
          rw [hheap, List.length_set]
          omega
        obtain ⟨q', hq', hsifted⟩ := ih hn₁ hready habove₁
        exact ⟨q', hq', hback q' hsifted⟩
    next hchild =>
      exact h.finish habove (Heap.fitsBelow_of_length_le (Nat.le_of_not_lt hchild))

end Sift

end IndexedPriorityQueue

end SiestaVR.Kernel
