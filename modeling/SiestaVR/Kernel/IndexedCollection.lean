import Mathlib.Data.List.Induction
import SiestaVR.Kernel.IndexedLinks
import SiestaVR.Kernel.PriorityQueue
import SiestaVR.Lib.Runs

/-!
# The indexed priority queue as an ordered collection

A `Collection` holds its elements in the order by key, and for equal keys in the order of their
insertion; an element is known by the number of its insertion, its epoch. It also lists the
insertion keys that were given out, one for each insertion. `Collection.Step` says what the
operations are for: pulling and peeking give the first element, and extracting removes the
element whose insertion key it is given, or nothing if there is none.

`Represents` relates the queue to a collection. Every operation of the queue is a step of the
collection (`Represents.call`), so every sequence of operations is a run of it.
-/

namespace SiestaVR.Kernel

variable {K V : Type} [LinearOrder K]

/-- The elements of a queue in their order, and the insertion keys given out so far. -/
structure Collection (K V : Type) [LinearOrder K] extends PriorityQueue K V where
  keys : List InsertKey
  distinct : heap.Pairwise fun x y => x.epoch ≠ y.epoch
  keys_length : keys.length = nextEpoch
  keys_epoch : ∀ (n : Nat) (k : InsertKey), keys[n]? = some k → k.epoch = n

/-- The operations of the queue. -/
inductive Call (K V : Type) where
  | insert (key : K) (value : V)
  | pull
  | peek
  | extract (insertKey : InsertKey)
deriving DecidableEq, Repr

def Call.isInsert : Call K V → Bool
  | .insert _ _ => true
  | _ => false

/-- What they return. -/
inductive Answer (K V : Type) where
  | inserted (insertKey : InsertKey)
  | entry (entry : Option (K × V))
deriving DecidableEq, Repr

namespace Collection

/-- No elements. -/
def empty : Collection K V where
  toPriorityQueue := .new
  keys := []
  distinct := .nil
  keys_length := rfl
  keys_epoch n k h := by cases h

/-- A new element behind those whose keys are not greater. -/
def insert (c : Collection K V) (key : K) (value : V) (slabIdx : Nat) : Collection K V where
  toPriorityQueue := c.toPriorityQueue.insert key value
  keys := c.keys ++ [⟨slabIdx, c.nextEpoch⟩]
  distinct := by
    refine ((c.toPriorityQueue.perm_insert key value).pairwise_iff fun h => Ne.symm h).2 ?_
    refine List.pairwise_cons.2 ⟨fun x hx => ?_, c.distinct⟩
    exact (c.fresh x hx).ne'
  keys_length := by
    rw [List.length_append, c.keys_length]
    rfl
  keys_epoch n k hk := by
    rcases Nat.lt_or_ge n c.keys.length with hlt | hge
    · rw [List.getElem?_append_left hlt] at hk
      exact c.keys_epoch n k hk
    · have hlt := (List.getElem?_eq_some_iff.1 hk).1
      rw [List.length_append, List.length_singleton] at hlt
      obtain rfl : n = c.keys.length := by omega
      rw [List.getElem?_concat_length] at hk
      cases hk
      exact c.keys_length.symm

/-- The collection without the element of an insertion. -/
def remove (c : Collection K V) (epoch : Nat) : Collection K V where
  heap := c.heap.filter (·.epoch ≠ epoch)
  nextEpoch := c.nextEpoch
  sorted := c.sorted.filter _
  fresh x hx := c.fresh x (List.mem_filter.1 hx).1
  keys := c.keys
  distinct := c.distinct.filter _
  keys_length := c.keys_length
  keys_epoch := c.keys_epoch

/-- The steps of a collection. -/
inductive Step : Collection K V → Call K V → Answer K V → Collection K V → Prop
  | insert (c : Collection K V) (key : K) (value : V) (slabIdx : Nat) :
      Step c (.insert key value) (.inserted ⟨slabIdx, c.nextEpoch⟩) (c.insert key value slabIdx)
  | pull {c : Collection K V} {x : Item K V} (hx : c.heap.head? = some x) :
      Step c .pull (.entry (some x.entry)) (c.remove x.epoch)
  | pullEmpty {c : Collection K V} (hc : c.heap = []) : Step c .pull (.entry none) c
  | peek (c : Collection K V) : Step c .peek (.entry (c.heap.head?.map Item.entry)) c
  | extract {c : Collection K V} {k : InsertKey} {x : Item K V} (hx : x ∈ c.heap)
      (hk : c.keys[x.epoch]? = some k) :
      Step c (.extract k) (.entry (some x.entry)) (c.remove x.epoch)
  | extractStale {c : Collection K V} {k : InsertKey}
      (hk : ∀ x ∈ c.heap, c.keys[x.epoch]? ≠ some k) : Step c (.extract k) (.entry none) c

/-- The runs of a collection from the empty one. -/
inductive Runs : List (Call K V) → List (Answer K V) → Collection K V → Prop
  | start : Runs [] [] empty
  | snoc {calls : List (Call K V)} {answers : List (Answer K V)} {c c' : Collection K V}
      {call : Call K V} {answer : Answer K V} :
      Runs calls answers c → Step c call answer c' →
      Runs (calls ++ [call]) (answers ++ [answer]) c'

variable {c : Collection K V} {x : Item K V}

theorem Step.nextEpoch {call : Call K V} {answer : Answer K V} {c' : Collection K V}
    (h : Step c call answer c') : c'.nextEpoch = c.nextEpoch + [call].countP Call.isInsert := by
  cases h with
  | insert key value slabIdx => rfl
  | pull hx => rfl
  | pullEmpty hc => rfl
  | peek => rfl
  | extract hx hk => rfl
  | extractStale hk => rfl

theorem Runs.nextEpoch {calls : List (Call K V)} {answers : List (Answer K V)}
    (h : Runs calls answers c) : c.nextEpoch = calls.countP Call.isInsert := by
  induction h with
  | start => rfl
  | snoc _ hstep ih => rw [hstep.nextEpoch, ih, List.countP_append]

theorem perm_remove (hx : x ∈ c.heap) : c.heap.Perm (x :: (c.remove x.epoch).heap) := by
  obtain ⟨l, l', hl⟩ := List.append_of_mem hx
  have hdistinct := c.distinct
  rw [hl, List.pairwise_append, List.pairwise_cons] at hdistinct
  obtain ⟨-, ⟨hright, -⟩, hleft⟩ := hdistinct
  have hremove : (c.remove x.epoch).heap = l ++ l' := by
    show c.heap.filter (·.epoch ≠ x.epoch) = l ++ l'
    rw [hl, List.filter_append, List.filter_cons_of_neg (by simp), List.filter_eq_self.2,
      List.filter_eq_self.2]
    · intro y hy
      simpa using (hright y hy).symm
    · intro y hy
      simpa using hleft y hy x List.mem_cons_self
  rw [hremove, hl]
  exact List.perm_middle

theorem head?_eq_of_forall (hx : x ∈ c.heap) (hmin : ∀ y ∈ c.heap, ¬ y.Before x) :
    c.heap.head? = some x := by
  cases hc : c.heap with
  | nil =>
    rw [hc] at hx
    cases hx
  | cons y l =>
    have hsorted := c.sorted
    rw [hc, List.pairwise_cons] at hsorted
    rw [hc] at hx hmin
    rcases List.mem_cons.1 hx with rfl | hx
    · rfl
    · exact absurd (hsorted.1 x hx) (hmin y List.mem_cons_self)

end Collection

namespace IndexedPriorityQueue

/-- An operation, and what it returns. -/
def call (q : IndexedPriorityQueue K V) :
    Call K V → Option (Answer K V × IndexedPriorityQueue K V)
  | .insert key value => (q.insert key value).map fun r => (.inserted r.1, r.2)
  | .pull => q.pull.map fun r => (.entry r.1, r.2)
  | .peek => q.peek.map fun e => (.entry e, q)
  | .extract insertKey => (q.extract insertKey).map fun r => (.entry r.1, r.2)

/-- The operation is called, and its answer noted behind those of the earlier ones. -/
def step (s : List (Answer K V) × IndexedPriorityQueue K V) (c : Call K V) :
    Option (List (Answer K V) × IndexedPriorityQueue K V) :=
  (s.2.call c).map fun r => (s.1 ++ [r.1], r.2)

/-- The element that an item of the heap stands for, with its value from the slab. -/
def itemOf (value : Nat → Option V) (it : Item K) : Option (Kernel.Item K V) :=
  (value it.slabIdx).map fun v => ⟨it.key.key, v, it.key.epoch⟩

/-- The queue is consistent, its items are the elements of the collection, and each element is
in the node that its insertion key names. -/
structure Represents (q : IndexedPriorityQueue K V) (c : Collection K V) : Prop where
  consistent : Consistent q
  items : (q.heap.map (itemOf q.valueAt)).Perm (c.heap.map some)
  epoch : q.nextEpoch = c.nextEpoch
  keys : ∀ it ∈ q.heap, c.keys[it.key.epoch]? = some ⟨it.slabIdx, it.key.epoch⟩

theorem represents_new : Represents (new : IndexedPriorityQueue K V) Collection.empty where
  consistent := consistent_new
  items := .nil
  epoch := rfl
  keys it hit := by cases hit

namespace Represents

variable {q q' : IndexedPriorityQueue K V} {c : Collection K V} {it : Item K}
  {x : Kernel.Item K V}

theorem exists_element (h : Represents q c) (hit : it ∈ q.heap) :
    ∃ x ∈ c.heap, itemOf q.valueAt it = some x := by
  have hmem := h.items.subset (List.mem_map_of_mem hit)
  obtain ⟨x, hx, heq⟩ := List.mem_map.1 hmem
  exact ⟨x, hx, heq.symm⟩

theorem exists_item (h : Represents q c) (hx : x ∈ c.heap) :
    ∃ it ∈ q.heap, itemOf q.valueAt it = some x :=
  List.mem_map.1 (h.items.symm.subset (List.mem_map_of_mem hx))

omit [LinearOrder K] in
theorem of_itemOf {value : Nat → Option V} (h : itemOf value it = some x) :
    it.key = ⟨x.key, x.epoch⟩ ∧ value it.slabIdx = some x.value := by
  obtain ⟨v, hv, rfl⟩ := Option.map_eq_some_iff.1 h
  exact ⟨rfl, hv⟩

theorem head?_eq (h : Represents q c) (hit : q.heap[0]? = some it)
    (hx : itemOf q.valueAt it = some x) : c.heap.head? = some x := by
  obtain ⟨x', hx', heq⟩ := h.exists_element (List.mem_of_getElem? hit)
  cases hx.symm.trans heq
  apply Collection.head?_eq_of_forall hx'
  intro y hy hbefore
  obtain ⟨it', hit', hy'⟩ := h.exists_item hy
  obtain ⟨j, hj⟩ := List.mem_iff_getElem?.1 hit'
  have hle := h.consistent.ordered.head_le hit hj
  rw [(of_itemOf hx).1, (of_itemOf hy').1] at hle
  have hlt : (⟨y.key, y.epoch⟩ : UniqueKey K) < ⟨x.key, x.epoch⟩ := UniqueKey.lt_iff.2 hbefore
  exact absurd hle (not_le.2 hlt)

/-- An item has been removed from the queue, and its element from the collection. -/
theorem removed (h : Represents q c) (hr : Consistent.Removed q q' it)
    (hx : itemOf q.valueAt it = some x) (hmem : x ∈ c.heap) :
    Represents q' (c.remove x.epoch) where
  consistent := hr.consistent
  items := by
    -- The node of the removed item is that of no other.
    have hnodup := (hr.perm.map Item.slabIdx).nodup_iff.1 h.consistent.links.nodup
    rw [List.map_cons, List.nodup_cons] at hnodup
    have hsame : q'.heap.map (itemOf q'.valueAt) = q'.heap.map (itemOf q.valueAt) := by
      refine List.map_congr_left fun it' hit' => ?_
      have hne : it'.slabIdx ≠ it.slabIdx := by
        intro heq
        exact hnodup.1 (heq ▸ List.mem_map_of_mem hit')
      rw [itemOf, itemOf, hr.valueAt, Function.update_of_ne hne]
    have hleft := (hr.perm.map (itemOf q.valueAt)).symm.trans
      (h.items.trans ((Collection.perm_remove hmem).map some))
    rw [List.map_cons, List.map_cons, hx] at hleft
    rw [hsame]
    exact hleft.cons_inv
  epoch := hr.nextEpoch.trans h.epoch
  keys it' hit' := h.keys it' (hr.perm.symm.subset (List.mem_cons_of_mem it hit'))

/-- An element has been inserted. -/
theorem insert_step (h : Represents q c) (hepoch : q.nextEpoch ≠ 2 ^ 64 - 1) (key : K)
    (value : V) :
    ∃ s q', q.insert key value = some (⟨s, c.nextEpoch⟩, q') ∧
      Represents q' (c.insert key value s) := by
  obtain ⟨s, q', hq', hconsistent, hperm, hnone, hvalue, hepoch'⟩ :=
    h.consistent.insert_spec hepoch key value
  rw [h.epoch] at hq' hperm hepoch'
  refine ⟨s, q', hq', hconsistent, ?_, hepoch', ?_⟩
  · -- The node was not in use, so the values of the other items are as before.
    have hsame : q.heap.map (itemOf q'.valueAt) = q.heap.map (itemOf q.valueAt) := by
      refine List.map_congr_left fun it hit => ?_
      have hne : it.slabIdx ≠ s := by
        rintro rfl
        obtain ⟨x, -, hx⟩ := h.exists_element hit
        rw [(of_itemOf hx).2] at hnone
        cases hnone
      rw [itemOf, itemOf, hvalue, Function.update_of_ne hne]
    have hnew : itemOf q'.valueAt (⟨⟨key, c.nextEpoch⟩, s⟩ : Item K) =
        some (c.toPriorityQueue.nextItem key value) := by
      rw [itemOf, hvalue, Function.update_self]
      rfl
    refine (hperm.map (itemOf q'.valueAt)).trans ?_
    rw [List.map_cons, hsame, hnew]
    exact (h.items.cons _).trans ((c.toPriorityQueue.perm_insert key value).symm.map some)
  · intro it hit
    -- The new item has the key that was handed out last.
    rcases List.mem_cons.1 (hperm.subset hit) with rfl | hit
    · show (c.keys ++ [⟨s, c.nextEpoch⟩])[c.nextEpoch]? = _
      rw [← c.keys_length, List.getElem?_concat_length]
    · have hkey := h.keys it hit
      show (c.keys ++ [⟨s, c.nextEpoch⟩])[it.key.epoch]? = _
      rw [List.getElem?_append_left (List.getElem?_eq_some_iff.1 hkey).1]
      exact hkey

theorem extract_stale (h : Represents q c) {k : InsertKey}
    (hk : ∀ x ∈ c.heap, c.keys[x.epoch]? ≠ some k) : q.extract k = some (none, q) := by
  apply h.consistent.extract_stale
  intro it hit hslot hepoch
  obtain ⟨x, hx, hitem⟩ := h.exists_element hit
  have hkey := h.keys it hit
  rw [hslot, hepoch] at hkey
  rw [(of_itemOf hitem).1] at hepoch
  dsimp only at hepoch
  apply hk x hx
  rw [hepoch]
  exact hkey

theorem top_cases (h : Represents q c) :
    (q.heap = [] ∧ c.heap = []) ∨
      ∃ it x, q.heap[0]? = some it ∧ itemOf q.valueAt it = some x ∧ x ∈ c.heap ∧
        c.heap.head? = some x := by
  cases hq : q.heap with
  | nil =>
    have hitems := h.items
    rw [hq, List.map_nil, List.nil_perm, List.map_eq_nil_iff] at hitems
    exact .inl ⟨rfl, hitems⟩
  | cons it l =>
    have hit : q.heap[0]? = some it := by
      rw [hq]
      rfl
    obtain ⟨x, hx, hitem⟩ := h.exists_element (List.mem_of_getElem? hit)
    exact .inr ⟨it, x, rfl, hitem, hx, h.head?_eq hit hitem⟩

theorem peek_eq (h : Represents q c) : q.peek = some (c.heap.head?.map Kernel.Item.entry) := by
  rcases h.top_cases with ⟨hq, hc⟩ | ⟨it, x, hit, hitem, -, hhead⟩
  · rw [peek, hq, hc]
    rfl
  · obtain ⟨hkey, hvalue⟩ := of_itemOf hitem
    have hnode : (q.slab[it.slabIdx]?).bind Node.unwrapValue = some x.value := hvalue
    rw [← List.head?_eq_getElem?] at hit
    rw [peek, hit, hhead]
    dsimp only
    rw [hnode, hkey, Option.map_some, Option.map_some]
    rfl

/-- Every operation is a step of the collection. -/
theorem call (h : Represents q c) (call : Call K V)
    (hinsert : call.isInsert = true → q.nextEpoch ≠ 2 ^ 64 - 1) :
    ∃ answer q' c', q.call call = some (answer, q') ∧ Collection.Step c call answer c' ∧
      Represents q' c' := by
  cases call with
  | insert key value =>
    obtain ⟨s, q', hq', hrep⟩ := h.insert_step (hinsert rfl) key value
    refine ⟨_, q', _, ?_, .insert c key value s, hrep⟩
    rw [IndexedPriorityQueue.call, hq', Option.map_some]
  | pull =>
    rcases h.top_cases with ⟨hq, hc⟩ | ⟨it, x, hit, hitem, hx, hhead⟩
    · refine ⟨_, q, c, ?_, .pullEmpty hc, h⟩
      rw [IndexedPriorityQueue.call, Consistent.pull_nil hq, Option.map_some]
    · obtain ⟨value, q', hvalue, hq', hremoved⟩ := h.consistent.pull_spec hit rfl
      obtain ⟨hkey, hvalue'⟩ := of_itemOf hitem
      cases hvalue.symm.trans hvalue'
      refine ⟨_, q', _, ?_, .pull hhead, h.removed hremoved hitem hx⟩
      rw [IndexedPriorityQueue.call, hq', Option.map_some, hkey]
      rfl
  | peek =>
    refine ⟨_, q, c, ?_, .peek c, h⟩
    rw [IndexedPriorityQueue.call, h.peek_eq, Option.map_some]
  | extract k =>
    by_cases hk : ∃ x ∈ c.heap, c.keys[x.epoch]? = some k
    · obtain ⟨x, hx, hk⟩ := hk
      obtain ⟨it, hit, hitem⟩ := h.exists_item hx
      obtain ⟨hkey, hvalue'⟩ := of_itemOf hitem
      obtain ⟨i, hi⟩ := List.mem_iff_getElem?.1 hit
      -- The key is the one of the item that stands for the element.
      have hown := h.keys it hit
      rw [hkey] at hown
      cases hk.symm.trans hown
      obtain ⟨value, q', hvalue, hq', hremoved⟩ :=
        h.consistent.extract_spec hi ⟨it.slabIdx, x.epoch⟩ rfl (by rw [hkey])
      cases hvalue.symm.trans hvalue'
      refine ⟨_, q', _, ?_, .extract hx hk, h.removed hremoved hitem hx⟩
      rw [IndexedPriorityQueue.call, hq', Option.map_some, hkey]
      rfl
    · have hk : ∀ x ∈ c.heap, c.keys[x.epoch]? ≠ some k := fun x hx heq => hk ⟨x, hx, heq⟩
      refine ⟨_, q, c, ?_, .extractStale hk, h⟩
      rw [IndexedPriorityQueue.call, h.extract_stale hk, Option.map_some]

end Represents

/-- Every sequence of operations with which the epochs suffice returns, with the answers of a run
of the collection. The queue then stands for the collection that the run leads to, with heap and
slab naming each other, and the insertion key of an element that is no longer there extracts
nothing and leaves the queue as it is. -/
theorem indexed_queue_as_collection (calls : List (Call K V))
    (hcalls : calls.countP Call.isInsert < 2 ^ 64) :
    ∃ answers q c, Lib.runs step ([], (new : IndexedPriorityQueue K V)) calls = some (answers, q) ∧
      Collection.Runs calls answers c ∧ Represents q c ∧
      ∀ n k, c.keys[n]? = some k → (∀ x ∈ c.heap, x.epoch ≠ n) → q.extract k = some (none, q) := by
  suffices h : ∃ answers q c,
      Lib.runs step ([], (new : IndexedPriorityQueue K V)) calls = some (answers, q) ∧
        Collection.Runs calls answers c ∧ Represents q c by
    obtain ⟨answers, q, c, hruns, hc, hrep⟩ := h
    refine ⟨answers, q, c, hruns, hc, hrep, fun n k hk hgone => hrep.extract_stale ?_⟩
    intro x hx hkx
    exact hgone x hx ((c.keys_epoch _ k hkx).symm.trans (c.keys_epoch n k hk))
  induction calls using List.reverseRecOn with
  | nil => exact ⟨[], new, .empty, rfl, .start, represents_new⟩
  | append_singleton calls call ih =>
    rw [List.countP_append] at hcalls
    obtain ⟨answers, q, c, hruns, hc, hrep⟩ := ih (by omega)
    have hinsert : call.isInsert = true → q.nextEpoch ≠ 2 ^ 64 - 1 := by
      intro hcall
      rw [hrep.epoch, hc.nextEpoch]
      have : [call].countP Call.isInsert = 1 := by simp [hcall]
      omega
    obtain ⟨answer, q', c', hq', hstep, hrep'⟩ := hrep.call call hinsert
    refine ⟨answers ++ [answer], q', c', ?_, hc.snoc hstep, hrep'⟩
    rw [Lib.runs_append, hruns, Option.bind_some, Lib.runs, step, hq']
    rfl

/-- The node of the second element is used again by the third one. -/
def nodeReused : List (Call Nat Char) :=
  [.insert 5 'a', .insert 3 'b', .pull, .insert 4 'c', .extract ⟨1, 1⟩, .extract ⟨0, 0⟩, .peek]

/-- The key of the second element extracts nothing, although its node is in use. -/
theorem indexed_queue_node_reused :
    (Lib.runs step ([], new) nodeReused).map Prod.fst =
      some [.inserted ⟨0, 0⟩, .inserted ⟨1, 1⟩, .entry (some (3, 'b')), .inserted ⟨1, 2⟩,
        .entry none, .entry (some (5, 'a')), .entry (some (4, 'c'))] ∧
    ∃ answers q c, Lib.runs step ([], new) nodeReused = some (answers, q) ∧
      Collection.Runs nodeReused answers c ∧ Represents q c := by
  refine ⟨by decide, ?_⟩
  obtain ⟨answers, q, c, hruns, hc, hrep, -⟩ :=
    indexed_queue_as_collection nodeReused (by decide)
  exact ⟨answers, q, c, hruns, hc, hrep⟩

end IndexedPriorityQueue

end SiestaVR.Kernel
