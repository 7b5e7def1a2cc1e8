import SiestaVR.Mac.Counters
import SiestaVR.Lib.Quota

/-!
# What the overflow pass drops

The pass goes through the flows above their limit and, for each, through the
categories and the links. It does not look at the flow of a packet: an uplink
flow pops from the back of its source's queues, a downlink flow drops the oldest
packets to its destination. So flows with the same source (uplink) or the same
destination (downlink) drop from the same packets; they form a `dropGroup`. And
each category starts again from the full excess.

`lane` is what a group can drop from in one category, in the order it is dropped.
The pass takes the group's whole excess from the front of each lane
(`lane_overflowPass`), whatever the order of the flows. Which packets of which
flows these are is then a matter of counting (`Lib.Quota`).
-/

namespace SiestaVR.Mac

open Lib

instance : Fintype EdcaAc := ⟨⟨EdcaAc.all, by decide⟩, EdcaAc.mem_all⟩

/-! ## Groups and lanes -/

/-- The station whose queues a flow drops from, and for downlink the destination
its drops are selected by. -/
def dropGroup (f : Int × Int) : Int × Option Int :=
  if f.2 < f.1 then (f.1, none) else (-1, some f.2)

/-- No uplink flow of the access point, whose queues are for downlink. -/
def Proper (f : Int × Int) : Prop := f.2 < f.1 → f.1 ≠ -1

instance (f : Int × Int) : Decidable (Proper f) := inferInstanceAs (Decidable (_ → _))

/-- The packets of a queue a group drops, first to go first. -/
def dropOrder (g : Int × Option Int) (q : List MpduPacket) : List MpduPacket :=
  match g.2 with
  | none => q.reverse
  | some d => q.filter fun p => p.staDestId = d

/-- What a group drops from in one category, first to go first. -/
def lane (cfg : MacConfig) (m : QueueModule) (g : Int × Option Int) (ac : EdcaAc) :
    List MpduPacket :=
  cfg.mediumOrder.flatMap fun l => dropOrder g (m.perFlowQueues ⟨g.1, ac, l⟩)

/-- A queue after a flow has dropped `n` packets from it. -/
def dropFrom (f : Int × Int) (n : Nat) (q : List MpduPacket) : List MpduPacket :=
  if f.2 < f.1 then q.take (q.length - n) else (dropFirstTo f.2 n q).2

section OneQueue

variable (f : Int × Int) (n : Nat) (q : List MpduPacket)

theorem dropFirstTo_sublist (dest : Int) : (dropFirstTo dest n q).2.Sublist q := by
  induction q generalizing n with
  | nil => exact .refl _
  | cons p ps ih =>
    rw [dropFirstTo]
    split
    · exact (ih (n - 1)).cons p
    · exact (ih n).cons_cons p

theorem dropFirstTo_zero (dest : Int) : dropFirstTo dest 0 q = ([], q) := by
  induction q with
  | nil => rfl
  | cons p ps ih => simp [dropFirstTo, ih]

theorem dropFirstTo_length (dest : Int) :
    (dropFirstTo dest n q).1.length = min n (q.filter fun p => p.staDestId = dest).length := by
  induction q generalizing n with
  | nil => simp [dropFirstTo]
  | cons p ps ih =>
    rw [dropFirstTo]
    by_cases hp : p.staDestId = dest
    · cases n with
      | zero => simp [hp, dropFirstTo_zero]
      | succ n => simp [hp, ih]
    · simp [hp, ih]

theorem filter_dropFirstTo (dest : Int) :
    (dropFirstTo dest n q).2.filter (fun p => p.staDestId = dest)
      = (q.filter fun p => p.staDestId = dest).drop n := by
  induction q generalizing n with
  | nil => simp [dropFirstTo]
  | cons p ps ih =>
    rw [dropFirstTo]
    by_cases hp : p.staDestId = dest
    · cases n with
      | zero => simp [dropFirstTo_zero]
      | succ n => simp [hp, ih]
    · simp [hp, ih]

theorem filter_dropFirstTo_of_ne {dest d : Int} (hd : d ≠ dest) :
    (dropFirstTo dest n q).2.filter (fun p => p.staDestId = d)
      = q.filter fun p => p.staDestId = d := by
  induction q generalizing n with
  | nil => rfl
  | cons p ps ih =>
    rw [dropFirstTo]
    split
    · rename_i h
      have hp : p.staDestId ≠ d := fun e => hd (e.symm.trans h.2)
      simp [hp, ih]
    · simp [List.filter_cons, ih]

theorem dropFrom_zero : dropFrom f 0 q = q := by
  unfold dropFrom
  split
  · simp
  · rw [dropFirstTo_zero]

theorem dropFrom_sublist : (dropFrom f n q).Sublist q := by
  unfold dropFrom
  split
  · exact List.take_sublist _ _
  · exact dropFirstTo_sublist n q f.2

theorem dropOrder_dropFrom :
    dropOrder (dropGroup f) (dropFrom f n q) = (dropOrder (dropGroup f) q).drop n := by
  unfold dropFrom dropGroup
  split
  · exact List.drop_reverse.symm
  · exact filter_dropFirstTo n q f.2

theorem dropOrder_dropFrom_of_ne {f' : Int × Int} (hf : Proper f) (hf' : Proper f')
    (hsta : (dropGroup f).1 = (dropGroup f').1) (hne : dropGroup f ≠ dropGroup f') :
    dropOrder (dropGroup f') (dropFrom f n q) = dropOrder (dropGroup f') q := by
  unfold dropGroup at hsta hne ⊢
  unfold dropFrom
  by_cases hul : f.2 < f.1 <;> by_cases hul' : f'.2 < f'.1 <;>
    simp only [hul, hul', if_true, if_false] at hsta hne ⊢
  · -- two uplink flows of one source are one group
    exact absurd (by rw [hsta]) hne
  · exact absurd hsta (hf hul)
  · exact absurd hsta.symm (hf' hul')
  · exact filter_dropFirstTo_of_ne n q fun hd => hne (by rw [hd])

end OneQueue

/-! ## The loops -/

section Loops

variable {cfg : MacConfig}

variable (cfg) in
/-- **One queue of the pass.** -/
theorem overflowQueue_queues (f : Int × Int) {k : MacKey} (hk : cfg.hasKey k = true)
    (m : QueueModule) (n : Nat) :
    (overflowQueue cfg f k (m, n)).1.perFlowQueues
        = Function.update m.perFlowQueues k (dropFrom f n (m.perFlowQueues k)) ∧
      (overflowQueue cfg f k (m, n)).2
        = n - (dropOrder (dropGroup f) (m.perFlowQueues k)).length := by
  unfold overflowQueue
  dsimp only
  split
  · rename_i hzero
    have hn : n = 0 := by simpa [hk] using hzero
    subst hn
    rw [dropFrom_zero, Function.update_eq_self]
    exact ⟨rfl, by simp⟩
  · unfold dropFrom dropGroup
    split
    · have hmin : (m.perFlowQueues k).length - min n (m.perFlowQueues k).length
          = (m.perFlowQueues k).length - n := by omega
      refine ⟨by rw [hmin]; rfl, ?_⟩
      simp only [dropOrder, List.length_reverse]
      omega
    · refine ⟨rfl, ?_⟩
      simp only [dropOrder, dropFirstTo_length]
      omega

/-- The links of one category: the lane loses its front, other queues stay. -/
theorem overflowLinks_queues (f : Int × Int) {key : Nat → MacKey}
    (hinj : Function.Injective key) {ls : List Nat} (hn : ls.Nodup)
    (hk : ∀ l ∈ ls, cfg.hasKey (key l) = true) (st : QueueModule × Nat) :
    let st' := ls.foldl (fun st l => overflowQueue cfg f (key l) st) st
    (ls.flatMap fun l => dropOrder (dropGroup f) (st'.1.perFlowQueues (key l)))
        = (ls.flatMap fun l => dropOrder (dropGroup f) (st.1.perFlowQueues (key l))).drop st.2 ∧
      ∀ k, k ∉ ls.map key → st'.1.perFlowQueues k = st.1.perFlowQueues k := by
  induction ls generalizing st with
  | nil => simp
  | cons l ls ih =>
    obtain ⟨hl, hn⟩ := List.nodup_cons.1 hn
    obtain ⟨hq, hrem⟩ := overflowQueue_queues cfg f (hk l List.mem_cons_self) st.1 st.2
    obtain ⟨hlane, hother⟩ := ih hn (fun l hl => hk l (List.mem_cons_of_mem _ hl))
      (overflowQueue cfg f (key l) st)
    have hhead := hother (key l) fun hmem => hl ((List.mem_map_of_injective hinj).1 hmem)
    have hrest : (ls.flatMap fun l' => dropOrder (dropGroup f)
          ((overflowQueue cfg f (key l) st).1.perFlowQueues (key l')))
        = ls.flatMap fun l' => dropOrder (dropGroup f) (st.1.perFlowQueues (key l')) := by
      refine List.flatMap_congr fun l' hl' => ?_
      have hne : key l' ≠ key l := fun e => hl (hinj e ▸ hl')
      rw [hq, Function.update_of_ne hne]
    refine ⟨?_, fun k hkey => ?_⟩
    · -- what the first queue cannot cover is left to the other links
      rw [List.flatMap_cons, List.flatMap_cons, List.drop_append, ← dropOrder_dropFrom, ← hrem,
        ← hrest, ← hlane, List.foldl_cons, hhead, hq, Function.update_self]
    · rw [List.map_cons, List.mem_cons, not_or] at hkey
      rw [List.foldl_cons, hother k hkey.2, hq, Function.update_of_ne hkey.1]

/-- One category of a flow's turn. -/
def overflowCategory (cfg : MacConfig) (x : (Int × Int) × Nat) (m : QueueModule) (ac : EdcaAc) :
    QueueModule :=
  (cfg.mediumOrder.foldl
    (fun st l => overflowQueue cfg x.1 ⟨(dropGroup x.1).1, ac, l⟩ st) (m, x.2)).1

theorem dropGroup_fst (f : Int × Int) : (dropGroup f).1 = if f.2 < f.1 then f.1 else -1 := by
  unfold dropGroup
  split <;> rfl

variable (cfg) in
theorem overflowFlow_eq (m : QueueModule) (x : (Int × Int) × Nat) :
    overflowFlow cfg m x = EdcaAc.all.foldl (overflowCategory cfg x) m := by
  unfold overflowCategory
  rw [dropGroup_fst]
  rfl

section Group

variable {x : (Int × Int) × Nat} (hx : (dropGroup x.1).1 ∈ cfg.owners)

include hx

/-- The lane of the category loses its front, those of the others stay. -/
theorem lane_overflowCategory (m : QueueModule) (ac ac' : EdcaAc) :
    lane cfg (overflowCategory cfg x m ac) (dropGroup x.1) ac'
      = (lane cfg m (dropGroup x.1) ac').drop (if ac' = ac then x.2 else 0) := by
  have hinj : Function.Injective fun l => (⟨(dropGroup x.1).1, ac, l⟩ : MacKey) :=
    fun l l' h => (MacKey.mk.inj h).2.2
  have hn : cfg.mediumOrder.Nodup := cfg.mediumOrder_perm.nodup_iff.2 cfg.links_nodup
  have hk : ∀ l ∈ cfg.mediumOrder, cfg.hasKey ⟨(dropGroup x.1).1, ac, l⟩ = true := by
    intro l hl
    simp [MacConfig.hasKey, hx, cfg.mediumOrder_perm.mem_iff.1 hl]
  obtain ⟨hlane, hother⟩ := overflowLinks_queues x.1 hinj hn hk (m, x.2)
  by_cases hac : ac' = ac
  · subst hac
    rw [if_pos rfl]
    exact hlane
  · rw [if_neg hac, List.drop_zero]
    refine List.flatMap_congr fun l _ => ?_
    have hkey := hother ⟨(dropGroup x.1).1, ac', l⟩ fun hmem => by
      obtain ⟨l', -, heq⟩ := List.mem_map.1 hmem
      exact hac (MacKey.mk.inj heq).2.1.symm
    exact congrArg (dropOrder (dropGroup x.1)) hkey

/-- **One flow of the pass**: every lane of its group loses its front, as each
category starts from the full excess. -/
theorem lane_overflowFlow (m : QueueModule) (ac : EdcaAc) :
    lane cfg (overflowFlow cfg m x) (dropGroup x.1) ac
      = (lane cfg m (dropGroup x.1) ac).drop x.2 := by
  have hloop : ∀ acs : List EdcaAc, acs.Nodup → ∀ m,
      lane cfg (acs.foldl (overflowCategory cfg x) m) (dropGroup x.1) ac
        = (lane cfg m (dropGroup x.1) ac).drop (if ac ∈ acs then x.2 else 0) := by
    intro acs hn
    induction acs with
    | nil => exact fun m => rfl
    | cons a acs ih =>
      intro m
      obtain ⟨ha, hn⟩ := List.nodup_cons.1 hn
      rw [List.foldl_cons, ih hn, lane_overflowCategory hx, List.drop_drop]
      congr 1
      by_cases hac : ac = a
      · subst hac
        simp [ha]
      · simp [hac]
  rw [overflowFlow_eq, hloop EdcaAc.all (by decide) m, if_pos (EdcaAc.mem_all ac)]

end Group

variable (cfg) in
theorem overflowQueue_sublist (f : Int × Int) (k j : MacKey) (st : QueueModule × Nat) :
    ((overflowQueue cfg f k st).1.perFlowQueues j).Sublist (st.1.perFlowQueues j) := by
  by_cases hk : cfg.hasKey k = true
  · rw [(overflowQueue_queues cfg f hk st.1 st.2).1]
    by_cases hj : j = k
    · subst hj
      rw [Function.update_self]
      exact dropFrom_sublist f st.2 _
    · rw [Function.update_of_ne hj]
  · have hskip : overflowQueue cfg f k st = st := by simp [overflowQueue, hk]
    rw [hskip]

variable (cfg) in
theorem overflowPass_sublist (order : HashOrder) (m : QueueModule) (k : MacKey) :
    ((overflowPass cfg order m).perFlowQueues k).Sublist (m.perFlowQueues k) :=
  overflowPass_rel cfg (R := fun m m' => (m'.perFlowQueues k).Sublist (m.perFlowQueues k))
    (fun _ => .refl _) (fun h h' => h'.trans h) order m
    fun x _ j st => overflowQueue_sublist cfg x.1 j k st

/-- The turn of a flow leaves the lanes of other groups. -/
theorem lane_overflowFlow_of_ne {x : (Int × Int) × Nat} {f : Int × Int} (hx : Proper x.1)
    (hf : Proper f) (hne : dropGroup x.1 ≠ dropGroup f) (m : QueueModule) (ac : EdcaAc) :
    lane cfg (overflowFlow cfg m x) (dropGroup f) ac = lane cfg m (dropGroup f) ac := by
  have hqueue : ∀ k : MacKey, k.sta = (dropGroup f).1 →
      dropOrder (dropGroup f) ((overflowFlow cfg m x).perFlowQueues k)
        = dropOrder (dropGroup f) (m.perFlowQueues k) := by
    refine overflowFlow_rel cfg (R := fun m m' => ∀ k : MacKey, k.sta = (dropGroup f).1 →
      dropOrder (dropGroup f) (m'.perFlowQueues k) = dropOrder (dropGroup f) (m.perFlowQueues k))
      (fun _ _ _ => rfl) (fun h h' k hk => (h' k hk).trans (h k hk)) ?_ m
    intro st j hj k hk
    rw [← dropGroup_fst] at hj
    by_cases hkey : cfg.hasKey j = true
    · rw [(overflowQueue_queues cfg x.1 hkey st.1 st.2).1]
      by_cases hkj : k = j
      · subst hkj
        rw [Function.update_self]
        exact dropOrder_dropFrom_of_ne x.1 st.2 _ hx hf (hj.symm.trans hk) hne
      · rw [Function.update_of_ne hkj]
    · have hskip : overflowQueue cfg x.1 j st = st := by simp [overflowQueue, hkey]
      rw [hskip]
  exact List.flatMap_congr fun l _ => hqueue ⟨(dropGroup f).1, ac, l⟩ rfl

/-- **The flows of the pass**: a lane loses as many packets as the flows of its
group drop together. -/
theorem lane_overflowFlows {xs : List ((Int × Int) × Nat)}
    (hxs : ∀ x ∈ xs, Proper x.1 ∧ (dropGroup x.1).1 ∈ cfg.owners) {f : Int × Int}
    (hf : Proper f) (m : QueueModule) (ac : EdcaAc) :
    lane cfg (xs.foldl (overflowFlow cfg) m) (dropGroup f) ac
      = (lane cfg m (dropGroup f) ac).drop
          ((xs.filter fun x => dropGroup x.1 = dropGroup f).map Prod.snd).sum := by
  induction xs generalizing m with
  | nil => rfl
  | cons x xs ih =>
    obtain ⟨hsrc, hown⟩ := hxs x List.mem_cons_self
    rw [List.foldl_cons, ih fun y hy => hxs y (List.mem_cons_of_mem x hy)]
    by_cases hg : dropGroup x.1 = dropGroup f
    · rw [List.filter_cons_of_pos (by simpa using hg), List.map_cons, List.sum_cons, ← hg,
        lane_overflowFlow hown, List.drop_drop]
    · rw [List.filter_cons_of_neg (by simpa using hg), lane_overflowFlow_of_ne hsrc hf hg]

end Loops

/-! ## Counting -/

/-- Packets lie in the queues of their sender and category, which for an uplink
packet are not those of the access point. -/
structure Filed (cfg : MacConfig) (m : QueueModule) : Prop where
  placed : ∀ k ∈ cfg.macKeys, ∀ p ∈ m.perFlowQueues k, p.acKey = (k.sta, k.ac)
  sources : ∀ k ∈ cfg.macKeys, ∀ p ∈ m.perFlowQueues k, Proper p.flow

section Counting

variable {cfg : MacConfig} {m m' : QueueModule}

theorem Filed.sublist (h : Filed cfg m)
    (hsub : ∀ k, (m'.perFlowQueues k).Sublist (m.perFlowQueues k)) : Filed cfg m' :=
  ⟨fun k hk p hp => h.placed k hk p ((hsub k).subset hp),
    fun k hk p hp => h.sources k hk p ((hsub k).subset hp)⟩

theorem dropGroup_flow_fst (p : MpduPacket) : (dropGroup p.flow).1 = p.queueSta := by
  unfold dropGroup MpduPacket.queueSta MpduPacket.isUl MpduPacket.flow
  by_cases h : p.staDestId < p.staSrcId <;> simp [h]

theorem Filed.group_fst (h : Filed cfg m) {k : MacKey} (hk : k ∈ cfg.macKeys) {p : MpduPacket}
    (hp : p ∈ m.perFlowQueues k) : (dropGroup p.flow).1 = k.sta := by
  rw [dropGroup_flow_fst]
  exact congrArg Prod.fst (h.placed k hk p hp)

variable (cfg m) in
theorem storedOfFlow_eq_sum (f : Int × Int) : storedOfFlow cfg m f
    = ∑ k ∈ cfg.macKeys.toFinset, (m.perFlowQueues k).countP fun p => p.flow = f :=
  (List.sum_toFinset _ cfg.macKeys_nodup).symm

variable {f : Int × Int}

theorem exists_of_stored (hf : storedOfFlow cfg m f ≠ 0) :
    ∃ k ∈ cfg.macKeys, ∃ p ∈ m.perFlowQueues k, p.flow = f := by
  rw [storedOfFlow_eq_sum] at hf
  obtain ⟨k, hk, hcount⟩ := Finset.exists_ne_zero_of_sum_ne_zero hf
  obtain ⟨p, hp, hflow⟩ := List.countP_pos_iff.1 (Nat.pos_of_ne_zero hcount)
  exact ⟨k, List.mem_toFinset.1 hk, p, hp, of_decide_eq_true hflow⟩

/-- A flow with stored packets is proper and has a station of the table. -/
theorem Filed.of_stored (h : Filed cfg m) (hf : storedOfFlow cfg m f ≠ 0) :
    Proper f ∧ (dropGroup f).1 ∈ cfg.owners := by
  obtain ⟨k, hk, p, hp, rfl⟩ := exists_of_stored hf
  refine ⟨h.sources k hk p hp, ?_⟩
  rw [h.group_fst hk hp]
  have hkey := cfg.mem_macKeys.1 hk
  simp only [MacConfig.hasKey, Bool.and_eq_true, decide_eq_true_eq] at hkey
  exact hkey.1

theorem mem_queue_of_lane {g : Int × Option Int} (hown : g.1 ∈ cfg.owners) {ac : EdcaAc}
    {p : MpduPacket} (hp : p ∈ lane cfg m g ac) :
    ∃ k ∈ cfg.macKeys, k.sta = g.1 ∧ p ∈ m.perFlowQueues k ∧
      p ∈ dropOrder g (m.perFlowQueues k) := by
  obtain ⟨l, hl, hp⟩ := List.mem_flatMap.1 hp
  refine ⟨⟨g.1, ac, l⟩, ?_, rfl, ?_, hp⟩
  · rw [cfg.mem_macKeys]
    simp [MacConfig.hasKey, hown, cfg.mediumOrder_perm.mem_iff.1 hl]
  · unfold dropOrder at hp
    split at hp
    · exact List.mem_reverse.1 hp
    · exact (List.mem_filter.1 hp).1

theorem Filed.group_of_mem_lane (h : Filed cfg m) (hf : Proper f)
    (hown : (dropGroup f).1 ∈ cfg.owners) {ac : EdcaAc} {p : MpduPacket}
    (hp : p ∈ lane cfg m (dropGroup f) ac) : dropGroup p.flow = dropGroup f := by
  obtain ⟨k, hk, hkf, hq, hp⟩ := mem_queue_of_lane hown hp
  have hsrc := h.sources k hk p hq
  have hsta := (h.group_fst hk hq).trans hkf
  unfold dropGroup at hsta hp ⊢
  by_cases hul : f.2 < f.1 <;> by_cases hul' : p.flow.2 < p.flow.1 <;>
    simp only [hul, hul', if_true, if_false] at hsta hp ⊢
  · rw [hsta]
  · exact absurd hsta.symm (hf hul)
  · exact absurd hsta (hsrc hul')
  · have hdest : p.staDestId = f.2 := by simpa [dropOrder] using (List.mem_filter.1 hp).2
    rw [← hdest]
    rfl

theorem countP_dropOrder (f : Int × Int) (q : List MpduPacket) :
    (dropOrder (dropGroup f) q).countP (fun p => p.flow = f) = q.countP fun p => p.flow = f := by
  unfold dropGroup
  split
  · exact List.countP_reverse
  · rw [dropOrder, List.countP_filter]
    refine List.countP_congr fun p _ => ?_
    have hdest : p.flow = f → p.staDestId = f.2 := congrArg Prod.snd
    simpa using hdest

/-- The packets of a flow are in the lanes of its group. -/
theorem Filed.stored_eq_available (h : Filed cfg m) (hown : (dropGroup f).1 ∈ cfg.owners) :
    storedOfFlow cfg m f = available MpduPacket.flow (lane cfg m (dropGroup f)) f := by
  have hlane : ∀ ac, (lane cfg m (dropGroup f) ac).countP (fun p => p.flow = f)
      = ∑ l ∈ cfg.links.toFinset,
          (m.perFlowQueues ⟨(dropGroup f).1, ac, l⟩).countP fun p => p.flow = f := by
    intro ac
    rw [lane, List.countP_flatMap, (cfg.mediumOrder_perm.map _).sum_eq,
      List.sum_toFinset _ cfg.links_nodup]
    congr 1
    exact List.map_congr_left fun l _ => countP_dropOrder f _
  rw [storedOfFlow_eq_sum, available]
  simp only [hlane]
  rw [← Finset.sum_product']
  symm
  refine Finset.sum_of_injOn (fun x => ⟨(dropGroup f).1, x.1, x.2⟩) ?_ ?_ ?_ fun _ _ => rfl
  · intro x _ y _ hxy
    obtain ⟨-, hac, hl⟩ := MacKey.mk.inj hxy
    exact Prod.ext hac hl
  · intro x hx
    have hl := List.mem_toFinset.1 (Finset.mem_product.1 hx).2
    rw [Finset.mem_coe, List.mem_toFinset, cfg.mem_macKeys]
    simp [MacConfig.hasKey, hown, hl]
  · -- the queues of other stations hold nothing of the flow
    intro k hk hno
    have hk := List.mem_toFinset.1 hk
    refine List.countP_eq_zero.2 fun p hp hflow => hno ?_
    have hsta := h.group_fst hk hp
    rw [of_decide_eq_true hflow] at hsta
    refine ⟨(k.ac, k.link), ?_, by rw [hsta]⟩
    simp [cfg.link_mem hk]

end Counting

/-! ## Exactness -/

/-- A state whose packets are filed properly and counted exactly under their
flows. -/
structure Consistent (cfg : MacConfig) (m : QueueModule) : Prop extends Filed cfg m where
  flows : ∀ f, m.staStatsCache.count f = storedOfFlow cfg m f

section Exactness

variable (cfg : MacConfig) (m : QueueModule)

/-- How many packets of a flow are above its limit. -/
def excess (f : Int × Int) : Nat := storedOfFlow cfg m f - flowLimit cfg f

/-- The excess of all flows of a group. -/
def groupExcess (g : Int × Option Int) : Nat :=
  (((overflowingFlows cfg m).filter fun x => dropGroup x.1 = g).map Prod.snd).sum

/-- All packets of the group are of one category, and those first to go are as
many of each flow as the flow has in excess. -/
def Droppable (g : Int × Option Int) : Prop :=
  ∃ ac, (∀ ac', ac' ≠ ac → lane cfg m g ac' = []) ∧
    ∀ f, dropGroup f = g →
      ((lane cfg m g ac).take (groupExcess cfg m g)).countP (fun p => p.flow = f) = excess cfg m f

/-- The flows of a group that have an entry. -/
def groupFlows (g : Int × Option Int) : Finset (Int × Int) :=
  (m.staStatsCache.keys.filter fun f => dropGroup f = g).toFinset

variable {cfg m}

theorem mem_groupFlows {g : Int × Option Int} {f : Int × Int} :
    f ∈ groupFlows m g ↔ f ∈ m.staStatsCache.keys ∧ dropGroup f = g := by
  simp [groupFlows]

theorem flowLimit_congr {f f' : Int × Int} (h : dropGroup f = dropGroup f') :
    flowLimit cfg f = flowLimit cfg f' := by
  have hdir : ∀ f : Int × Int, flowLimit cfg f
      = if (dropGroup f).2 = none then cfg.ulCapacityQueueDevice else cfg.queueMaxsizeDl := by
    intro f
    by_cases hul : f.2 < f.1 <;> simp [flowLimit, dropGroup, hul]
  rw [hdir, hdir, h]

variable (cfg m) in
theorem stored_overflowPass_le (order : HashOrder) (f : Int × Int) :
    storedOfFlow cfg (overflowPass cfg order m) f ≤ storedOfFlow cfg m f := by
  rw [storedOfFlow_eq_sum, storedOfFlow_eq_sum]
  exact Finset.sum_le_sum fun k _ => (overflowPass_sublist cfg order m k).countP_le

section

variable (hm : Consistent cfg m)

include hm

variable {f f₀ : Int × Int}

theorem Consistent.mem_keys (hf : storedOfFlow cfg m f ≠ 0) :
    f ∈ m.staStatsCache.keys := by
  refine m.staStatsCache.support f ?_
  rw [hm.flows]
  exact Nat.pos_of_ne_zero hf

theorem Consistent.groupExcess_eq (g : Int × Option Int) :
    groupExcess cfg m g = ∑ f ∈ groupFlows m g, excess cfg m f := by
  unfold groupFlows
  rw [List.sum_toFinset _ (m.staStatsCache.nodup.filter _)]
  unfold groupExcess overflowingFlows
  induction m.staStatsCache.keys with
  | nil => rfl
  | cons f fs ih =>
    have hexcess : excess cfg m f = m.staStatsCache.count f - flowLimit cfg f := by
      rw [excess, hm.flows]
    by_cases hg : dropGroup f = g <;> by_cases hover : flowLimit cfg f < m.staStatsCache.count f
    · simp [hg, hover, ih, hexcess]
    · have hzero : excess cfg m f = 0 := by omega
      simp [hg, hover, ih, hzero]
    · simp [hg, hover, ih]
    · simp [hg, hover, ih]

/-- **The pass on one lane**, whatever order the flows come in. -/
theorem Consistent.lane_overflowPass (order : HashOrder) (hf : Proper f) (ac : EdcaAc) :
    lane cfg (overflowPass cfg order m) (dropGroup f) ac
      = (lane cfg m (dropGroup f) ac).drop (groupExcess cfg m (dropGroup f)) := by
  have hxs : ∀ x ∈ order.flows (overflowingFlows cfg m),
      Proper x.1 ∧ (dropGroup x.1).1 ∈ cfg.owners := by
    intro x hx
    have hover := (overflowing_spec hx).2
    rw [hm.flows] at hover
    exact hm.toFiled.of_stored (Nat.ne_zero_of_lt hover)
  have hperm := order.flows_perm (overflowingFlows cfg m)
  rw [overflowPass, lane_overflowFlows hxs hf, groupExcess,
    ((hperm.filter _).map Prod.snd).sum_eq]

/-- **What the pass drops of a flow**: its packets among the first of each lane. -/
theorem Consistent.stored_overflowPass (order : HashOrder) (hf₀ : Proper f₀)
    (hown : (dropGroup f₀).1 ∈ cfg.owners) (hg : dropGroup f = dropGroup f₀) :
    taken MpduPacket.flow (lane cfg m (dropGroup f₀)) (groupExcess cfg m (dropGroup f₀)) f
        + storedOfFlow cfg (overflowPass cfg order m) f
      = storedOfFlow cfg m f := by
  have hfiled : Filed cfg (overflowPass cfg order m) :=
    hm.toFiled.sublist fun k => overflowPass_sublist cfg order m k
  have hown' : (dropGroup f).1 ∈ cfg.owners := by rwa [hg]
  rw [hfiled.stored_eq_available hown', hm.toFiled.stored_eq_available hown', hg]
  simp only [available, hm.lane_overflowPass order hf₀]
  exact taken_add_dropped MpduPacket.flow _ _ f

theorem Consistent.flow_mem_groupFlows (hf₀ : Proper f₀)
    (hown : (dropGroup f₀).1 ∈ cfg.owners) (ac : EdcaAc) :
    ∀ p ∈ lane cfg m (dropGroup f₀) ac, p.flow ∈ groupFlows m (dropGroup f₀) := by
  intro p hp
  have hg := hm.toFiled.group_of_mem_lane hf₀ hown hp
  refine mem_groupFlows.2 ⟨hm.mem_keys ?_, hg⟩
  rw [hm.toFiled.stored_eq_available (by rwa [hg]), hg]
  have hcount : 0 < (lane cfg m (dropGroup f₀) ac).countP fun q => q.flow = p.flow :=
    List.countP_pos_iff.2 ⟨p, hp, by simp⟩
  have hle := Finset.single_le_sum
    (f := fun ac => (lane cfg m (dropGroup f₀) ac).countP fun q => q.flow = p.flow)
    (fun _ _ => Nat.zero_le _) (Finset.mem_univ ac)
  exact Nat.ne_zero_of_lt (Nat.lt_of_lt_of_le hcount hle)

theorem Consistent.stored_eq_zero {g : Int × Option Int} (hg : dropGroup f = g)
    (hno : f ∉ groupFlows m g) : storedOfFlow cfg m f = 0 := by
  by_contra hne
  exact hno (mem_groupFlows.2 ⟨hm.mem_keys hne, hg⟩)

theorem Consistent.excess_eq_available (hown : (dropGroup f₀).1 ∈ cfg.owners)
    (hg : dropGroup f = dropGroup f₀) : excess cfg m f
      = available MpduPacket.flow (lane cfg m (dropGroup f₀)) f - flowLimit cfg f₀ := by
  rw [excess, flowLimit_congr hg, hm.toFiled.stored_eq_available (by rwa [hg]), hg]

/-- The drops are exact if the flows with an entry lose their excess. -/
theorem Consistent.drops_exact_iff (order : HashOrder) (hf₀ : Proper f₀)
    (hown : (dropGroup f₀).1 ∈ cfg.owners) :
    (∀ f, dropGroup f = dropGroup f₀ →
        storedOfFlow cfg (overflowPass cfg order m) f + excess cfg m f = storedOfFlow cfg m f) ↔
      ∀ f ∈ groupFlows m (dropGroup f₀), taken MpduPacket.flow (lane cfg m (dropGroup f₀))
        (groupExcess cfg m (dropGroup f₀)) f = excess cfg m f := by
  constructor
  · intro hexact f hf
    have hg := (mem_groupFlows.1 hf).2
    have hdrop := hm.stored_overflowPass order hf₀ hown hg
    have hf' := hexact f hg
    omega
  · intro hserved f hg
    by_cases hf : f ∈ groupFlows m (dropGroup f₀)
    · have hdrop := hm.stored_overflowPass order hf₀ hown hg
      have htaken := hserved f hf
      omega
    · have hzero := hm.stored_eq_zero hg hf
      have hle := stored_overflowPass_le cfg m order f
      unfold excess
      omega

/-- The front of a lane is composed as demanded if it is for the flows with an entry. -/
theorem Consistent.front_exact_iff (hf₀ : Proper f₀)
    (hown : (dropGroup f₀).1 ∈ cfg.owners) (ac : EdcaAc) (n : Nat) :
    (∀ f, dropGroup f = dropGroup f₀ → ((lane cfg m (dropGroup f₀) ac).take n).countP
        (fun p => p.flow = f) = excess cfg m f) ↔
      ∀ f ∈ groupFlows m (dropGroup f₀), ((lane cfg m (dropGroup f₀) ac).take n).countP
        (fun p => p.flow = f) = excess cfg m f := by
  constructor
  · intro hfront f hf
    exact hfront f (mem_groupFlows.1 hf).2
  · intro hfront f hg
    by_cases hf : f ∈ groupFlows m (dropGroup f₀)
    · exact hfront f hf
    · rw [excess, hm.stored_eq_zero hg hf, Nat.zero_sub, List.countP_eq_zero]
      intro p hp hflow
      have hmem := hm.flow_mem_groupFlows hf₀ hown ac p (List.mem_of_mem_take hp)
      rw [of_decide_eq_true hflow] at hmem
      exact hf hmem

/-- **Exactness for one group** with a flow above its limit. -/
theorem Consistent.group_exact_iff (order : HashOrder)
    (hover : flowLimit cfg f₀ < storedOfFlow cfg m f₀) :
    (∀ f, dropGroup f = dropGroup f₀ →
        storedOfFlow cfg (overflowPass cfg order m) f + excess cfg m f = storedOfFlow cfg m f) ↔
      flowLimit cfg f₀ = 0 ∨ Droppable cfg m (dropGroup f₀) := by
  obtain ⟨hsrc, hown⟩ := hm.toFiled.of_stored (Nat.ne_zero_of_lt hover)
  have hexcess : ∀ f ∈ groupFlows m (dropGroup f₀), excess cfg m f
      = available MpduPacket.flow (lane cfg m (dropGroup f₀)) f - flowLimit cfg f₀ :=
    fun f hf => hm.excess_eq_available hown (mem_groupFlows.1 hf).2
  have hsum : ∑ f ∈ groupFlows m (dropGroup f₀),
      (available MpduPacket.flow (lane cfg m (dropGroup f₀)) f - flowLimit cfg f₀)
        = groupExcess cfg m (dropGroup f₀) := by
    rw [hm.groupExcess_eq]
    exact Finset.sum_congr rfl fun f hf => (hexcess f hf).symm
  have hmem := mem_groupFlows.2 ⟨hm.mem_keys (Nat.ne_zero_of_lt hover), rfl⟩
  rw [hm.toFiled.stored_eq_available hown] at hover
  have hquota := taken_eq_quota_iff (hm.flow_mem_groupFlows hsrc hown) hsum ⟨f₀, hmem, hover⟩
  -- the library's quotas are the excesses of the flows
  rw [hm.drops_exact_iff order hsrc hown]
  simp only [Droppable, hm.front_exact_iff hsrc hown]
  refine Iff.trans (forall₂_congr fun f hf => by rw [hexcess f hf]) (hquota.trans ?_)
  refine or_congr Iff.rfl (exists_congr fun ac => and_congr Iff.rfl ?_)
  refine forall₂_congr fun f hf => ?_
  rw [hexcess f hf]

end

/-- A group of one flow in one category drops what it should. -/
theorem Consistent.droppable_of_one_flow (hm : Consistent cfg m) {f₀ : Int × Int}
    (hover : flowLimit cfg f₀ < storedOfFlow cfg m f₀)
    (hone : ∀ k ∈ cfg.macKeys, ∀ p ∈ m.perFlowQueues k, dropGroup p.flow = dropGroup f₀ →
      p.flow = f₀) {ac : EdcaAc} (hac : ∀ ac', ac' ≠ ac → lane cfg m (dropGroup f₀) ac' = []) :
    Droppable cfg m (dropGroup f₀) := by
  obtain ⟨hsrc, hown⟩ := hm.toFiled.of_stored (Nat.ne_zero_of_lt hover)
  have hother : ∀ f, dropGroup f = dropGroup f₀ → f ≠ f₀ → storedOfFlow cfg m f = 0 := by
    intro f hg hne
    rw [storedOfFlow_eq_sum]
    refine Finset.sum_eq_zero fun k hk => List.countP_eq_zero.2 fun p hp hflow => hne ?_
    have hflow := of_decide_eq_true hflow
    rw [← hflow] at hg ⊢
    exact hone k (List.mem_toFinset.1 hk) p hp hg
  have hlane : ∀ p ∈ lane cfg m (dropGroup f₀) ac, p.flow = f₀ := by
    intro p hp
    obtain ⟨k, hk, -, hq, -⟩ := mem_queue_of_lane hown hp
    exact hone k hk p hq (hm.toFiled.group_of_mem_lane hsrc hown hp)
  have hexcess : groupExcess cfg m (dropGroup f₀) = excess cfg m f₀ := by
    rw [hm.groupExcess_eq]
    refine Finset.sum_eq_single f₀ (fun f hf hne => ?_) fun hno => ?_
    · rw [excess, hother f (mem_groupFlows.1 hf).2 hne, Nat.zero_sub]
    · exact absurd (mem_groupFlows.2 ⟨hm.mem_keys (Nat.ne_zero_of_lt hover), rfl⟩) hno
  have hstored : storedOfFlow cfg m f₀ = (lane cfg m (dropGroup f₀) ac).length := by
    rw [hm.toFiled.stored_eq_available hown, available,
      Finset.sum_eq_single ac (fun ac' _ hne => by rw [hac ac' hne]; rfl)
        fun hno => absurd (Finset.mem_univ ac) hno]
    exact List.countP_eq_length.2 fun p hp => by simp [hlane p hp]
  -- So the lane is the flow, and the front of the lane is its excess.
  refine ⟨ac, hac, fun f hg => ?_⟩
  by_cases hf : f = f₀
  · subst hf
    rw [List.countP_eq_length.2 fun p hp => by simp [hlane p (List.mem_of_mem_take hp)],
      List.length_take, ← hstored, hexcess]
    exact Nat.min_eq_left (Nat.sub_le _ _)
  · rw [excess, hother f hg hf, Nat.zero_sub, List.countP_eq_zero]
    intro p hp hflow
    exact hf ((of_decide_eq_true hflow).symm.trans (hlane p (List.mem_of_mem_take hp)))

/-- **The overflow pass removes exactly the excess** of every flow above its limit
and nothing of the others iff, in each group with such a flow, nothing may stay
or what goes first is what is in excess. -/
theorem overflowPass_exact_iff (hm : Consistent cfg m) (order : HashOrder) :
    (∀ f, storedOfFlow cfg (overflowPass cfg order m) f + excess cfg m f
        = storedOfFlow cfg m f) ↔
      ∀ f, flowLimit cfg f < storedOfFlow cfg m f →
        flowLimit cfg f = 0 ∨ Droppable cfg m (dropGroup f) := by
  constructor
  · intro hexact f hover
    exact (hm.group_exact_iff order hover).1 fun f' _ => hexact f'
  · intro hcond f
    by_cases hgroup : ∃ f₀, dropGroup f₀ = dropGroup f ∧
        flowLimit cfg f₀ < storedOfFlow cfg m f₀
    · obtain ⟨f₀, hg, hover⟩ := hgroup
      exact (hm.group_exact_iff order hover).2 (hcond f₀ hover) f hg.symm
    · -- no flow of the group is above its limit
      have hzero : ∀ f', dropGroup f' = dropGroup f → excess cfg m f' = 0 := fun f' hg =>
        Nat.sub_eq_zero_of_le (Nat.le_of_not_lt fun hover => hgroup ⟨f', hg, hover⟩)
      rw [hzero f rfl, Nat.add_zero]
      by_cases hstored : storedOfFlow cfg m f = 0
      · have hle := stored_overflowPass_le cfg m order f
        omega
      · obtain ⟨hsrc, hown⟩ := hm.toFiled.of_stored hstored
        have hnone : groupExcess cfg m (dropGroup f) = 0 := by
          rw [hm.groupExcess_eq]
          exact Finset.sum_eq_zero fun f' hf' => hzero f' (mem_groupFlows.1 hf').2
        have hdrop := hm.stored_overflowPass order hsrc hown (f := f) rfl
        rw [hnone] at hdrop
        simpa [taken] using hdrop

end Exactness

/-! ## Reachable states -/

/-- **Reachable states are consistent**, for disciplined traffic of which the access
point sends nothing uplink. -/
theorem run_consistent {cfg : MacConfig} {es : List Event} {s : Sim} (h : MacRun cfg es s)
    (hsrc : SingleSource (accepted (offers es)))
    (hleg : cfg.dlPacketIdLegacy = true → DistinctDownlinkIds (accepted (offers es)))
    (hap : ∀ p ∈ accepted (offers es), Proper p.flow) : Consistent cfg s.mac := by
  have hexact := run_exact h (hsrc.disciplined hleg)
  have hmem : ∀ k ∈ cfg.macKeys, ∀ p ∈ s.mac.perFlowQueues k,
      (k, p.withoutStamps) ∈ (s.ledger cfg).queued := by
    intro k hk p hp
    exact mem_contents.2 ⟨hk, Multiset.mem_coe.2 (List.mem_map.2 ⟨p, hp, rfl⟩)⟩
  refine ⟨⟨fun k hk p hp => ?_, fun k hk p hp => ?_⟩, fun f => ?_⟩
  · exact ((run_sound h).placed _ (hmem k hk p hp)).2.1.symm
  · have htriple := Multiset.mem_of_le hexact.known (Multiset.mem_map_of_mem _ (hmem k hk p hp))
    obtain ⟨q, hq, heq⟩ := List.mem_map.1 (Multiset.mem_coe.1 htriple)
    have hflow : q.flow = p.flow := congrArg (fun t : Int × Int × Nat => (t.1, t.2.1)) heq
    rw [← hflow]
    exact hap q hq
  · rw [← ofFlow_ledger]
    exact hexact.flows f

/-- One station whose uplink queues hold one packet each. -/
def shortQueues : MacConfig :=
  { oneStation with
    ulCapacityQueueDevice := 1, ul_le_dl := by decide }

/-- A voice packet and a best-effort packet of one flow. -/
def twoCategories : List Event :=
  [.inputUL 0 { plainPacket 200 100 0 with edcaAc := .voice }, .inputUL 0 (plainPacket 200 100 1)]

/-- The flow is one packet above its limit, and the pass drops both packets. -/
theorem overflowPass_drops_twice :
    ∃ s, MacRun shortQueues twoCategories s ∧ Consistent shortQueues s.mac ∧
      excess shortQueues s.mac (200, 100) = 1 ∧ storedOfFlow shortQueues s.mac (200, 100) = 2 ∧
      storedOfFlow shortQueues (overflowPass shortQueues .insertion s.mac) (200, 100) = 0 := by
  have hrun : (runs (step shortQueues) (Sim.new shortQueues) twoCategories).map (fun s =>
      (excess shortQueues s.mac (200, 100), storedOfFlow shortQueues s.mac (200, 100),
        storedOfFlow shortQueues (overflowPass shortQueues .insertion s.mac) (200, 100)))
          = some (1, 2, 0) := by
    decide +kernel
  obtain ⟨s, hmac, heq⟩ := exists_run_of_map hrun
  simp only [Prod.mk.injEq] at heq
  refine ⟨s, hmac, run_consistent hmac ⟨by decide +kernel, by decide +kernel⟩ (fun hleg => ?_)
    (by decide +kernel), heq⟩
  exact absurd hleg (by decide)

/-- One station with short queues on two links, the less loaded chosen. -/
def shortQueuesTwoLinks : MacConfig :=
  { twoLinks with
    staCapabilities := fun _ => some [0, 1], mloLinkselectionStrat := .lyapunovBackpressure
    ulCapacityQueueDevice := 1, ul_le_dl := by decide }

/-- Two best-effort packets of one flow. -/
def twoPackets : List Event :=
  [.inputUL 0 (plainPacket 200 100 0), .inputUL 0 (plainPacket 200 100 1)]

/-- Spread over the links only, the flow loses its excess. -/
theorem overflowPass_exact_two_links :
    ∃ s, MacRun shortQueuesTwoLinks twoPackets s ∧ Consistent shortQueuesTwoLinks s.mac ∧
      excess shortQueuesTwoLinks s.mac (200, 100) = 1 ∧
      ∀ f, storedOfFlow shortQueuesTwoLinks (overflowPass shortQueuesTwoLinks .insertion s.mac) f
        + excess shortQueuesTwoLinks s.mac f = storedOfFlow shortQueuesTwoLinks s.mac f := by
  have hrun : (runs (step shortQueuesTwoLinks) (Sim.new shortQueuesTwoLinks) twoPackets).map
      (fun s => (storedOfFlow shortQueuesTwoLinks s.mac (200, 100),
        decide (∀ k ∈ shortQueuesTwoLinks.macKeys, ∀ p ∈ s.mac.perFlowQueues k,
          p.flow = (200, 100)),
        decide (∀ ac ∈ EdcaAc.all, ac ≠ .bestEffort →
          lane shortQueuesTwoLinks s.mac (200, none) ac = [])))
          = some (2, true, true) := by
    decide +kernel
  obtain ⟨s, hmac, heq⟩ := exists_run_of_map hrun
  simp only [Prod.mk.injEq, decide_eq_true_eq] at heq
  obtain ⟨hstored, hone, hac⟩ := heq
  have hm : Consistent shortQueuesTwoLinks s.mac :=
    run_consistent hmac ⟨by decide +kernel, by decide +kernel⟩
      (fun hleg => absurd hleg (by decide)) (by decide +kernel)
  refine ⟨s, hmac, hm, by rw [excess, hstored]; decide, ?_⟩
  refine (overflowPass_exact_iff hm .insertion).2 fun f hover => Or.inr ?_
  obtain ⟨k, hk, p, hp, rfl⟩ := exists_of_stored (Nat.ne_zero_of_lt hover)
  rw [hone k hk p hp] at hover ⊢
  exact hm.droppable_of_one_flow hover (fun k hk p hp _ => hone k hk p hp)
    fun ac' hne => hac ac' (EdcaAc.mem_all ac') hne

end SiestaVR.Mac
