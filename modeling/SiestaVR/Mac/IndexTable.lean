import SiestaVR.Mac.Module
import SiestaVR.Lib.Placement

/-!
# The index of the contention functions (lib/models_mm1k.rs:2554–2640, 2723–2746)

The constructor of the MAC keeps its contention functions and its queues in vectors. It fills
the first with placeholders, then goes through links, stations and categories, writes the
contention function of each key at

  `sta_idx * (num_links * 4) + link_idx * 4 + ac_idx`

and notes the position in `mac_key_index`; the access point comes behind the stations. The
digits of a position say which key it belongs to (`position_inj`, `exists_position`), so every
position is written for exactly one key and no placeholder is left.

`Mac.Module` keeps both as functions of the key. `Represents` says that look-ups through the
index give what these functions say; the constructor establishes it and `dcf_mut` keeps it.
-/

namespace SiestaVR.Mac

open Lib

/-- `ac_idx`. -/
def acIdx : EdcaAc → Nat
  | .voice => 0
  | .video => 1
  | .bestEffort => 2
  | .background => 3

theorem acIdx_lt (ac : EdcaAc) : acIdx ac < 4 := by
  cases ac <;> decide

theorem acIdx_inj {ac ac' : EdcaAc} (h : acIdx ac = acIdx ac') : ac = ac' := by
  cases ac <;> cases ac' <;> first | rfl | exact absurd h (by decide)

theorem exists_acIdx {i : Nat} (h : i < 4) : ∃ ac, acIdx ac = i := by
  match i, h with
  | 0, _ => exact ⟨.voice, rfl⟩
  | 1, _ => exact ⟨.video, rfl⟩
  | 2, _ => exact ⟨.bestEffort, rfl⟩
  | 3, _ => exact ⟨.background, rfl⟩

/-! ## The tables -/

/-- `DcfStats` with its `mac_key`. -/
structure DcfEntry extends DcfStats where
  macKey : MacKey

/-- `DcfStats::new`, each key drawing from a stream of its own. -/
def DcfEntry.new (draws : MacKey → Nat → Nat) (ac : EdcaAc) (macKey : MacKey) : DcfEntry :=
  { DcfStats.new ac (draws macKey) with macKey }

/-- `dummy_key`, of which a table is full before it is written. -/
def dummyKey : MacKey := ⟨-2, .bestEffort, 0⟩

/-- The vectors of `QueueModule` and their index. -/
structure MacTables where
  /-- `dcf_values` and `mac_key_index`. -/
  dcf : Indexed MacKey DcfEntry
  perFlowQueues : List (List MpduPacket)

/-- The position of a key, from the places of its station and its link. -/
def position (numLinks staIdx linkIdx : Nat) (ac : EdcaAc) : Nat :=
  staIdx * (numLinks * 4) + linkIdx * 4 + acIdx ac

/-- The categories of one station on one link. -/
def staPlacements (numLinks : Nat) (link : Nat × Nat) (sta : Int × Nat) : List (MacKey × Nat) :=
  EdcaAc.all.map fun ac => (⟨sta.1, ac, link.1⟩, position numLinks sta.2 link.2 ac)

/-- What the loops of `QueueModule::new` write, in their order: link by link, the access
point before the stations. -/
def placements (numStas : Nat) (vecIds : List Int) (links : List Nat) : List (MacKey × Nat) :=
  links.zipIdx.flatMap fun link =>
    staPlacements links.length link (-1, numStas) ++
      vecIds.zipIdx.flatMap (staPlacements links.length link)

/-- The tables that `QueueModule::new` builds. No result: an index is out of bounds (also
where the per-station statistics read `vec_ids[i]` for every `i` below `num_stas`). -/
def MacTables.new (draws : MacKey → Nat → Nat) (numStas : Nat) (vecIds : List Int)
    (links : List Nat) : Option MacTables :=
  let totalEntries := (numStas + 1) * links.length * 4
  let dummy := DcfEntry.new draws .bestEffort dummyKey
  if vecIds.length < numStas then none
  else
    (runs (Indexed.place fun k => DcfEntry.new draws k.ac k) (.blank dummy totalEntries)
      (placements numStas vecIds links)).map
      fun dcf => ⟨dcf, List.replicate totalEntries []⟩

namespace MacTables

variable (t : MacTables)

/-- `mac_key_index`. -/
def macKeyIndex : MacKey → Option Nat := t.dcf.index

/-- `dcf_values`. -/
def dcfValues : List DcfEntry := t.dcf.entries

/-- `dcf`; a key outside the index aborts, as does a position outside the table. -/
def dcfAt (key : MacKey) : Option DcfEntry :=
  (t.macKeyIndex key).bind fun idx => t.dcfValues[idx]?

/-- `dcf_mut`. No caller changes `mac_key`. -/
def dcfMut (key : MacKey) (f : DcfStats → DcfStats) : Option MacTables :=
  (t.macKeyIndex key).bind fun idx => t.dcfValues[idx]?.map fun st =>
    { t with dcf := { t.dcf with
        entries := t.dcfValues.set idx { f st.toDcfStats with macKey := st.macKey } } }

/-- `queue_depth`. -/
def queueDepth (key : MacKey) : Option Nat :=
  (t.macKeyIndex key).bind fun idx => t.perFlowQueues[idx]?.map List.length

end MacTables

/-! ## Positions -/

/-- The places of stations and links and the category are the digits of a position. -/
theorem position_inj {numLinks s s' l l' : Nat} {ac ac' : EdcaAc} (hl : l < numLinks)
    (hl' : l' < numLinks) (h : position numLinks s l ac = position numLinks s' l' ac') :
    s = s' ∧ l = l' ∧ ac = ac' := by
  have hac := acIdx_lt ac
  have hac' := acIdx_lt ac'
  -- below a multiple of the row length, what is left is the place in the row
  have hrow : l * 4 + acIdx ac < numLinks * 4 := by omega
  have hrow' : l' * 4 + acIdx ac' < numLinks * 4 := by omega
  unfold position at h
  rw [Nat.add_assoc, Nat.add_assoc, Nat.mul_comm s, Nat.mul_comm s'] at h
  have hs : s = s' := by
    have hdiv := congrArg (· / (numLinks * 4)) h
    rwa [Nat.mul_add_div (by omega), Nat.mul_add_div (by omega), Nat.div_eq_of_lt hrow,
      Nat.div_eq_of_lt hrow', Nat.add_zero, Nat.add_zero] at hdiv
  subst hs
  have hrest : l * 4 + acIdx ac = l' * 4 + acIdx ac' := Nat.add_left_cancel h
  exact ⟨rfl, by omega, acIdx_inj (by omega)⟩

theorem position_lt {numStas numLinks s l : Nat} (ac : EdcaAc) (hs : s < numStas + 1)
    (hl : l < numLinks) : position numLinks s l ac < (numStas + 1) * numLinks * 4 := by
  have hac := acIdx_lt ac
  have hrows : (s + 1) * (numLinks * 4) ≤ (numStas + 1) * (numLinks * 4) :=
    Nat.mul_le_mul_right _ hs
  unfold position
  rw [Nat.add_mul, Nat.one_mul] at hrows
  rw [Nat.mul_assoc]
  omega

theorem exists_position {numStas numLinks i : Nat} (h : i < (numStas + 1) * numLinks * 4) :
    ∃ s < numStas + 1, ∃ l < numLinks, ∃ ac, position numLinks s l ac = i := by
  rw [Nat.mul_assoc] at h
  have hrow : 0 < numLinks * 4 := by
    rcases Nat.eq_zero_or_pos (numLinks * 4) with hzero | hpos
    · rw [hzero, Nat.mul_zero] at h
      exact absurd h (Nat.not_lt_zero i)
    · exact hpos
  have hplace := Nat.mod_lt i hrow
  obtain ⟨ac, hac⟩ := exists_acIdx (Nat.mod_lt (i % (numLinks * 4)) (by decide : 0 < 4))
  refine ⟨i / (numLinks * 4), (Nat.div_lt_iff_lt_mul hrow).2 h, i % (numLinks * 4) / 4, ?_, ac, ?_⟩
  · omega
  · have hsplit := Nat.div_add_mod i (numLinks * 4)
    have hdigit := Nat.div_add_mod (i % (numLinks * 4)) 4
    rw [Nat.mul_comm] at hsplit
    unfold position
    omega

/-! ## What is placed where -/

section Placements

variable {vecIds : List Int} {links : List Nat}

/-- A key is placed by the places of its station and its link; the access point is behind
the stations. -/
theorem mem_placements {k : MacKey} {i : Nat} :
    (k, i) ∈ placements vecIds.length vecIds links ↔
      ∃ s l, (vecIds ++ [-1])[s]? = some k.sta ∧ links[l]? = some k.link ∧
        i = position links.length s l k.ac := by
  obtain ⟨sta, ac, link⟩ := k
  simp only [placements, staPlacements, List.mem_flatMap, List.mem_append, List.mem_map,
    List.mem_zipIdx_iff_getElem?, Prod.exists]
  constructor
  · rintro ⟨link', l, hl, ⟨ac', -, heq⟩ | ⟨sta', s, hs, ac', -, heq⟩⟩
    · obtain ⟨hkey, rfl⟩ := Prod.mk.inj heq
      obtain ⟨rfl, rfl, rfl⟩ := MacKey.mk.inj hkey
      exact ⟨vecIds.length, l, by simp, hl, rfl⟩
    · obtain ⟨hkey, rfl⟩ := Prod.mk.inj heq
      obtain ⟨rfl, rfl, rfl⟩ := MacKey.mk.inj hkey
      have hlt := (List.getElem?_eq_some_iff.1 hs).1
      exact ⟨s, l, (List.getElem?_append_left hlt).trans hs, hl, rfl⟩
  · rintro ⟨s, l, hs, hl, rfl⟩
    refine ⟨link, l, hl, ?_⟩
    rcases Nat.lt_or_ge s vecIds.length with hlt | hge
    · rw [List.getElem?_append_left hlt] at hs
      exact .inr ⟨sta, s, hs, ac, EdcaAc.mem_all ac, rfl⟩
    · -- behind the stations there is only the access point
      rw [List.getElem?_append_right hge] at hs
      obtain ⟨hone, hsta⟩ := List.getElem?_eq_some_iff.1 hs
      have hzero : s - vecIds.length = 0 := by
        rw [List.length_singleton] at hone
        omega
      simp only [hzero, List.getElem_cons_zero] at hsta
      obtain rfl : s = vecIds.length := by omega
      exact .inl ⟨ac, EdcaAc.mem_all ac, by rw [hsta]⟩

theorem owners_nodup_of (hids : vecIds.Nodup) (hap : (-1 : Int) ∉ vecIds) :
    (vecIds ++ [-1]).Nodup := by
  refine List.nodup_append.2 ⟨hids, List.nodup_singleton _, ?_⟩
  rintro a ha b hb rfl
  exact hap (List.mem_singleton.1 hb ▸ ha)

theorem placements_key (hids : vecIds.Nodup) (hap : (-1 : Int) ∉ vecIds) (hlinks : links.Nodup) :
    ∀ v ∈ placements vecIds.length vecIds links, ∀ w ∈ placements vecIds.length vecIds links,
      v.1 = w.1 → v.2 = w.2 := by
  rintro ⟨k, i⟩ hv ⟨k', i'⟩ hw (rfl : k = k')
  obtain ⟨s, l, hs, hl, rfl⟩ := mem_placements.1 hv
  obtain ⟨s', l', hs', hl', rfl⟩ := mem_placements.1 hw
  have hsta : s = s' := (List.getElem?_inj (List.getElem?_eq_some_iff.1 hs).1
    (owners_nodup_of hids hap)).1 (hs.trans hs'.symm)
  have hlink : l = l' := (List.getElem?_inj (List.getElem?_eq_some_iff.1 hl).1 hlinks).1
    (hl.trans hl'.symm)
  rw [hsta, hlink]

theorem placements_position :
    ∀ v ∈ placements vecIds.length vecIds links, ∀ w ∈ placements vecIds.length vecIds links,
      v.2 = w.2 → v.1 = w.1 := by
  rintro ⟨k, i⟩ hv ⟨k', i'⟩ hw (rfl : i = i')
  obtain ⟨s, l, hs, hl, rfl⟩ := mem_placements.1 hv
  obtain ⟨s', l', hs', hl', heq⟩ := mem_placements.1 hw
  obtain ⟨rfl, rfl, hac⟩ := position_inj (List.getElem?_eq_some_iff.1 hl).1
    (List.getElem?_eq_some_iff.1 hl').1 heq
  have hsta : k.sta = k'.sta := Option.some.inj (hs.symm.trans hs')
  have hlink : k.link = k'.link := Option.some.inj (hl.symm.trans hl')
  cases k
  cases k'
  cases hsta
  cases hlink
  cases hac
  rfl

theorem placements_lt :
    ∀ w ∈ placements vecIds.length vecIds links,
      w.2 < (vecIds.length + 1) * links.length * 4 := by
  rintro ⟨k, i⟩ hw
  obtain ⟨s, l, hs, hl, rfl⟩ := mem_placements.1 hw
  refine position_lt k.ac ?_ (List.getElem?_eq_some_iff.1 hl).1
  simpa using (List.getElem?_eq_some_iff.1 hs).1

theorem exists_placement {i : Nat} (h : i < (vecIds.length + 1) * links.length * 4) :
    ∃ k, (k, i) ∈ placements vecIds.length vecIds links := by
  obtain ⟨s, hs, l, hl, ac, rfl⟩ := exists_position h
  have hs' : s < (vecIds ++ [-1]).length := by simpa using hs
  exact ⟨⟨(vecIds ++ [-1])[s], ac, links[l]⟩, mem_placements.2
    ⟨s, l, List.getElem?_eq_getElem hs', List.getElem?_eq_getElem hl, rfl⟩⟩

/-- The keys that are placed: those of a station or the access point on a link. -/
theorem exists_mem_placements {k : MacKey} :
    (∃ i, (k, i) ∈ placements vecIds.length vecIds links) ↔
      (k.sta ∈ vecIds ∨ k.sta = -1) ∧ k.link ∈ links := by
  have howner : k.sta ∈ vecIds ++ [-1] ↔ k.sta ∈ vecIds ∨ k.sta = -1 := by simp
  rw [← howner, List.mem_iff_getElem?, List.mem_iff_getElem?]
  simp only [mem_placements]
  constructor
  · rintro ⟨-, s, l, hs, hl, -⟩
    exact ⟨⟨s, hs⟩, l, hl⟩
  · rintro ⟨⟨s, hs⟩, l, hl⟩
    exact ⟨_, s, l, hs, hl, rfl⟩

end Placements

theorem exists_tables (draws : MacKey → Nat → Nat) {vecIds : List Int} {links : List Nat}
    (hids : vecIds.Nodup) (hap : (-1 : Int) ∉ vecIds) (hlinks : links.Nodup) :
    ∃ t, MacTables.new draws vecIds.length vecIds links = some t ∧
      Filled (fun k => DcfEntry.new draws k.ac k) ((vecIds.length + 1) * links.length * 4)
        (placements vecIds.length vecIds links) t.dcf ∧
      t.perFlowQueues = List.replicate ((vecIds.length + 1) * links.length * 4) [] := by
  obtain ⟨dcf, hruns, hfilled⟩ := exists_filled (fun k => DcfEntry.new draws k.ac k)
    (DcfEntry.new draws .bestEffort dummyKey) placements_lt (placements_key hids hap hlinks)
    placements_position
  refine ⟨⟨dcf, _⟩, ?_, hfilled, rfl⟩
  rw [MacTables.new, if_neg (lt_irrefl _), hruns]
  rfl

/-- For every list of distinct station ids and every list of distinct links, the constructor
returns, and its index is a bijection between the keys and the positions of both vectors: it
has exactly the keys of a station or the access point on a link, each position has exactly
one of them, and the entry there was made for it. Every entry is where the index has its key,
so that none is a placeholder. -/
theorem mac_key_index_bijective (draws : MacKey → Nat → Nat) (vecIds : List Int)
    (links : List Nat) (hids : vecIds.Nodup) (hap : (-1 : Int) ∉ vecIds) (hlinks : links.Nodup) :
    ∃ t, MacTables.new draws vecIds.length vecIds links = some t ∧
      t.perFlowQueues.length = t.dcfValues.length ∧
      (∀ k, (∃ i < t.dcfValues.length, t.macKeyIndex k = some i) ↔
        (k.sta ∈ vecIds ∨ k.sta = -1) ∧ k.link ∈ links) ∧
      (∀ i < t.dcfValues.length, ∃! k, t.macKeyIndex k = some i) ∧
      (∀ k i, t.macKeyIndex k = some i → i < t.dcfValues.length ∧
        t.dcfValues[i]? = some (DcfEntry.new draws k.ac k)) ∧
      (∀ i e, t.dcfValues[i]? = some e → t.macKeyIndex e.macKey = some i) := by
  obtain ⟨t, hnew, hfilled, hqueues⟩ := exists_tables draws hids hap hlinks
  have hlength : t.dcfValues.length = (vecIds.length + 1) * links.length * 4 := hfilled.length
  have hplaced : ∀ k i, t.macKeyIndex k = some i → i < t.dcfValues.length ∧
      t.dcfValues[i]? = some (DcfEntry.new draws k.ac k) := by
    intro k i hi
    have hmem := (hfilled.index k i).1 hi
    exact ⟨hlength ▸ placements_lt _ hmem, hfilled.entry k i hmem⟩
  have hunique : ∀ i < t.dcfValues.length, ∃! k, t.macKeyIndex k = some i := by
    intro i hi
    exact hfilled.existsUnique placements_position (fun _ => exists_placement) (hlength ▸ hi)
  refine ⟨t, hnew, ?_, ?_, hunique, hplaced, ?_⟩
  · rw [hqueues, List.length_replicate, hlength]
  · intro k
    rw [← exists_mem_placements]
    constructor
    · rintro ⟨i, -, hi⟩
      exact ⟨i, (hfilled.index k i).1 hi⟩
    · rintro ⟨i, hi⟩
      have hindex := (hfilled.index k i).2 hi
      exact ⟨i, (hplaced k i hindex).1, hindex⟩
  · intro i e he
    obtain ⟨k, hk, -⟩ := hunique i (List.getElem?_eq_some_iff.1 he).1
    obtain rfl : e = DcfEntry.new draws k.ac k :=
      Option.some.inj (he.symm.trans (hplaced k i hk).2)
    exact hk

/-- Two stations and two links: 24 positions, the access point's behind the stations'. -/
theorem mac_key_index_two_stations :
    [(200 : Int), 201].Nodup ∧ (-1 : Int) ∉ [(200 : Int), 201] ∧ [0, 1].Nodup ∧
    ∃ t, MacTables.new (fun _ _ => 0) 2 [200, 201] [0, 1] = some t ∧
      t.perFlowQueues.length = t.dcfValues.length ∧
      (∀ k, (∃ i < t.dcfValues.length, t.macKeyIndex k = some i) ↔
        (k.sta ∈ [200, 201] ∨ k.sta = -1) ∧ k.link ∈ [0, 1]) ∧
      (∀ i < t.dcfValues.length, ∃! k, t.macKeyIndex k = some i) ∧
      (∀ k i, t.macKeyIndex k = some i → i < t.dcfValues.length ∧
        t.dcfValues[i]? = some (DcfEntry.new (fun _ _ => 0) k.ac k)) ∧
      (∀ i e, t.dcfValues[i]? = some e → t.macKeyIndex e.macKey = some i) :=
  ⟨by decide, by decide, by decide,
    mac_key_index_bijective (fun _ _ => 0) [200, 201] [0, 1] (by decide) (by decide) (by decide)⟩

/-! ## The tables and the functions of the keys -/

/-- The tables hold what a state of the MAC says of its keys, and nothing of others. -/
structure Represents (cfg : MacConfig) (t : MacTables) (m : QueueModule) : Prop where
  distinct : ∀ k k' i, t.macKeyIndex k = some i → t.macKeyIndex k' = some i → k = k'
  dcf : ∀ k, t.dcfAt k =
    if cfg.hasKey k then some { m.dcfValues k with macKey := k } else none
  depth : ∀ k, t.queueDepth k = m.queueDepth cfg k

/-- **The constructor** builds the tables of the initial state. -/
theorem represents_new (cfg : MacConfig) :
    ∃ t, MacTables.new cfg.edcafDraws cfg.staIds.length cfg.staIds cfg.links = some t ∧
      Represents cfg t (QueueModule.new cfg) := by
  obtain ⟨t, hnew, hfilled, hqueues⟩ :=
    exists_tables cfg.edcafDraws cfg.staIds_nodup cfg.ap_notMem cfg.links_nodup
  -- A key has a position exactly if its station and its link are configured.
  have hkeys : ∀ k, (∃ i, t.macKeyIndex k = some i) ↔ cfg.hasKey k = true := by
    intro k
    have howner : k.sta ∈ cfg.owners ↔ k.sta ∈ cfg.staIds ∨ k.sta = -1 := by
      simp [MacConfig.owners]
    rw [MacConfig.hasKey, Bool.and_eq_true, decide_eq_true_eq, decide_eq_true_eq, howner,
      ← exists_mem_placements]
    exact exists_congr fun i => hfilled.index k i
  refine ⟨t, hnew, ?_, ?_, ?_⟩
  · intro k k' i hk hk'
    exact placements_position (k, i) ((hfilled.index k i).1 hk) (k', i)
      ((hfilled.index k' i).1 hk') rfl
  · intro k
    rw [MacTables.dcfAt]
    cases hk : t.macKeyIndex k with
    | none =>
      rw [if_neg fun hhas => by simpa [hk] using (hkeys k).2 hhas]
      rfl
    | some i =>
      rw [if_pos ((hkeys k).1 ⟨i, hk⟩)]
      exact hfilled.entry k i ((hfilled.index k i).1 hk)
  · intro k
    rw [MacTables.queueDepth, QueueModule.queueDepth]
    cases hk : t.macKeyIndex k with
    | none =>
      rw [if_neg fun hhas => by simpa [hk] using (hkeys k).2 hhas]
      rfl
    | some i =>
      rw [if_pos ((hkeys k).1 ⟨i, hk⟩), hqueues]
      have hlt := placements_lt _ ((hfilled.index k i).1 hk)
      show (List.replicate _ _)[i]?.map List.length = some 0
      rw [List.getElem?_replicate_of_lt hlt]
      rfl

/-- **A change** of one contention function through the index is a change at its key. -/
theorem Represents.dcfMut {cfg : MacConfig} {t : MacTables} {m : QueueModule}
    (h : Represents cfg t m) {k : MacKey} (hk : cfg.hasKey k = true) (f : DcfStats → DcfStats) :
    ∃ t', t.dcfMut k f = some t' ∧ Represents cfg t' (m.dcfMut k f) := by
  have hdcf := h.dcf k
  rw [if_pos hk, MacTables.dcfAt] at hdcf
  obtain ⟨idx, hidx, hentry⟩ := Option.bind_eq_some_iff.1 hdcf
  refine ⟨{ t with dcf := { t.dcf with
      entries := t.dcfValues.set idx { f (m.dcfValues k) with macKey := k } } }, ?_,
    h.distinct, ?_, h.depth⟩
  · rw [MacTables.dcfMut, hidx, Option.bind_some, hentry]
    rfl
  intro k'
  show (t.macKeyIndex k').bind (fun i =>
    (t.dcfValues.set idx { f (m.dcfValues k) with macKey := k })[i]?) = _
  by_cases hkk : k' = k
  · subst hkk
    rw [hidx, Option.bind_some, List.getElem?_set_self (List.getElem?_eq_some_iff.1 hentry).1,
      if_pos hk]
    show _ = some ({ Function.update m.dcfValues k' (f (m.dcfValues k')) k' with
      macKey := k' } : DcfEntry)
    rw [Function.update_self]
  · have hother := h.dcf k'
    rw [MacTables.dcfAt] at hother
    have hsame : (m.dcfMut k f).dcfValues k' = m.dcfValues k' := Function.update_of_ne hkk _ _
    rw [hsame, ← hother]
    cases hidx' : t.macKeyIndex k' with
    | none => rfl
    | some i =>
      -- another key has another position
      have hne : idx ≠ i := by
        rintro rfl
        exact hkk (h.distinct k' k idx hidx' hidx)
      exact List.getElem?_set_ne hne

end SiestaVR.Mac
