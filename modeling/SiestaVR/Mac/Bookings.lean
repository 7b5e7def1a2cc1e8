import SiestaVR.Mac.Conservation
import SiestaVR.Mac.Ledger
import SiestaVR.Mac.Inversion

/-!
# The handlers book ledger entries

Refinement of the MAC's handlers by the ledger: an arrival books exactly one
entry, a slot tick books a series of drops and builds, and nothing else changes
the ledger (`arrival_booked`, `tick_bookings`, `completion_ledger`). The results
of `Ledger` then hold along every run.

Most of a handler concerns back-off, media and statistics. `QueueModule.books`
collects what the ledger reads of the state, and the `books_` lemmas say which
operations leave it alone. What remains of a handler is the call that
books: an arrival, a drop at the retry limit, or a build (`BuildEffect`).
-/

namespace SiestaVR.Mac

open Lib

/-! ## The ledger of a state -/

/-- What the ledger reads of the MAC's state. -/
structure Books where
  queues : MacKey → List MpduPacket
  active : CountMap (Int × EdcaAc)
  flows : CountMap (Int × Int)
  depths : CountMap Nat
  arrived : Nat
  blocked : Nat

/-- The books of a state. -/
def QueueModule.books (m : QueueModule) : Books :=
  ⟨m.perFlowQueues, m.activeMacKeyCounts, m.staStatsCache, m.linkQueueDepths,
    m.arrivedPacketCounter, m.blockedPacketCounter⟩

/-- The ledger that books and a number of handed-over packets give. -/
def Books.ledger (cfg : MacConfig) (b : Books) (handed : Nat) : Ledger where
  queued := contents cfg.macKeys fun k => unstampedPackets (b.queues k)
  active := b.active.count
  flows := b.flows.count
  flowKeys := b.flows.keys
  depths := b.depths.count
  arrived := b.arrived
  blocked := b.blocked
  handed := handed

/-- Packets in A-MPDUs on the air or delivered. -/
def Sim.handed (s : Sim) : Nat :=
  (s.completions.map fun c => c.2.mpduPackets.length).sum
    + (s.delivered.map fun a => a.mpduPackets.length).sum

/-- The ledger of a state of the simulator. -/
def Sim.ledger (cfg : MacConfig) (s : Sim) : Ledger := s.mac.books.ledger cfg s.handed

theorem ledger_congr {cfg : MacConfig} {s s' : Sim} (hb : s'.mac.books = s.mac.books)
    (hh : s'.handed = s.handed) : s'.ledger cfg = s.ledger cfg := by
  rw [Sim.ledger, Sim.ledger, hb, hh]

section Quiet

variable (m : QueueModule)

@[simp] theorem books_dcfMut (k : MacKey) (f : DcfStats → DcfStats) :
    (m.dcfMut k f).books = m.books := rfl
@[simp] theorem books_setMedium (l : Nat) (md : Medium) : (m.setMedium l md).books = m.books := rfl
@[simp] theorem books_freezeLink (l t : Nat) : (freezeLink m l t).books = m.books := rfl
@[simp] theorem books_updateWindowStats (key : WindowKey) (mcs : Option Nat) (d : Nat) (b : Bool)
    (now : Nat) : (updateWindowStats m key mcs d b now).books = m.books := rfl

@[simp] theorem books_drainStats (a : AmpduPacket) (now : Nat) :
    (drainStats m a now).books = m.books := by
  unfold drainStats
  split <;> rfl

theorem books_resolveLoop (ks winners : List MacKey) (m : QueueModule) :
    (resolveLoop ks winners m).2.books = m.books := by
  induction ks generalizing winners m with
  | nil => rfl
  | cons k ks ih =>
    rw [resolveLoop]
    split
    · rw [ih, books_dcfMut]
    · exact ih _ m

@[simp] theorem books_resolveVirtualCollision (order : HashOrder) (link : Nat)
    (ready : List MacKey) :
    (resolveVirtualCollision order link m ready).2.books = m.books :=
  books_resolveLoop _ _ m

@[simp] theorem books_collideMac (now link : Nat) (contenders : List MacKey) :
    (collideMac m now link contenders).books = m.books := by
  unfold collideMac
  show QueueModule.books (List.foldl _ _ contenders) = _
  rw [foldl_view _ (fun _ _ => books_updateWindowStats ..), books_freezeLink,
    foldl_view _ (fun _ _ => books_dcfMut ..), books_setMedium]

@[simp] theorem books_scheduleTick (s : Sim) : (scheduleTick s).mac.books = s.mac.books := by
  unfold scheduleTick
  split <;> rfl

@[simp] theorem handed_scheduleTick (s : Sim) : (scheduleTick s).handed = s.handed := by
  unfold scheduleTick
  split <;> rfl

end Quiet

theorem ledger_scheduleTick (cfg : MacConfig) (s : Sim) :
    (scheduleTick s).ledger cfg = s.ledger cfg :=
  ledger_congr (books_scheduleTick s) (handed_scheduleTick s)

/-! ## Changing one queue -/

section OneQueue

variable {cfg : MacConfig}

variable {k : MacKey}

theorem contents_update_queue (hk : k ∈ cfg.macKeys)
    (queues : MacKey → List MpduPacket) (q : List MpduPacket) :
    contents cfg.macKeys (fun j => unstampedPackets (Function.update queues k q j))
        + (unstampedPackets (queues k)).map (Prod.mk k)
      = contents cfg.macKeys (fun j => unstampedPackets (queues j))
        + (unstampedPackets q).map (Prod.mk k) := by
  rw [← contents_update cfg.macKeys_nodup hk (fun j => unstampedPackets (queues j))]
  congr 1
  refine contents_congr fun j _ => ?_
  by_cases hj : j = k
  · subst hj
    simp
  · simp [hj]

variable (cfg) in
theorem inQueue_ledger (s : Sim) (hk : k ∈ cfg.macKeys) :
    (s.ledger cfg).inQueue k = (s.mac.perFlowQueues k).length := by
  have h := countP_key_contents cfg.macKeys_nodup hk
    fun j => unstampedPackets (s.mac.perFlowQueues j)
  rw [card_unstampedPackets] at h
  exact h

theorem contents_push (hk : k ∈ cfg.macKeys) (queues : MacKey → List MpduPacket) (p : MpduPacket) :
    contents cfg.macKeys
        (fun j => unstampedPackets (Function.update queues k (queues k ++ [p]) j))
      = (k, p.withoutStamps) ::ₘ contents cfg.macKeys (fun j => unstampedPackets (queues j)) := by
  have h := contents_update_queue hk queues (queues k ++ [p])
  rw [unstampedPackets_append, Multiset.map_add, add_comm ((unstampedPackets (queues k)).map _),
    ← add_assoc] at h
  have h' := add_right_cancel h
  rw [h', add_comm]
  rfl

/-- A packet that found room is booked as stored. -/
theorem enqueue_booked {s : Sim} {p : MpduPacket} (arrived : Nat)
    (hk : k ∈ cfg.macKeys) (hp : (k.sta, k.ac) = p.acKey) (hl : p.assignedLinkId = none)
    (hroom : (s.mac.perFlowQueues k).length < capacity cfg k)
    (harr : s.mac.arrivedPacketCounter = arrived + 1) :
    Booked cfg
      ({ s with mac := { s.mac with arrivedPacketCounter := arrived } }.ledger cfg)
      (.stored k p.withoutStamps) ((enqueue cfg s k p).ledger cfg) := by
  have hac : (k.sta, p.edcaAc) = p.acKey := by
    rw [← hp]
    rw [(Prod.mk.inj hp).2]
  -- the tick that may be scheduled does not concern the ledger
  have hledger : (enqueue cfg s k p).ledger cfg
      = { s with mac := { s.mac with
            staStatsCache := s.mac.staStatsCache.incr p.flow
            linkQueueDepths := s.mac.linkQueueDepths.incr k.link
            activeMacKeyCounts := s.mac.activeMacKeyCounts.incr p.acKey
            perFlowQueues := Function.update s.mac.perFlowQueues k
              (s.mac.perFlowQueues k ++ [p]) } }.ledger cfg := by
    unfold enqueue
    rw [hac]
    dsimp only
    split
    · rw [ledger_scheduleTick]
      rfl
    · rfl
  rw [hledger]
  set s₀ : Sim := { s with mac := { s.mac with arrivedPacketCounter := arrived } } with hs₀
  have hin : (s₀.ledger cfg).inQueue k < capacity cfg k := by
    rw [inQueue_ledger cfg s₀ hk]
    exact hroom
  have hkeys : ∀ f ∈ (s.mac.staStatsCache.incr p.flow).keys,
      f = p.withoutStamps.flow ∨ f ∈ (s₀.ledger cfg).flowKeys := by
    intro f hf
    exact (CountMap.mem_keys_incr _ _ _).1 hf
  have hb : Booked cfg (s₀.ledger cfg) _ _ := Booked.stored _ k p.withoutStamps _ hk hp hl hin hkeys
  refine Eq.mp (congrArg _ ?_) hb
  simp only [Sim.ledger, Books.ledger, QueueModule.books, contents_push hk, hs₀]
  congr 1
  · funext a
    exact (CountMap.count_incr s.mac.activeMacKeyCounts p.acKey a).symm
  · funext f
    exact (CountMap.count_incr s.mac.staStatsCache p.flow f).symm
  · funext l
    exact (CountMap.count_incr s.mac.linkQueueDepths k.link l).symm
  · exact harr.symm

theorem portCapacity_le {ul : Bool} (hap : ul = false → k.sta = -1) :
    portCapacity cfg ul ≤ capacity cfg k := by
  unfold portCapacity capacity
  cases ul with
  | false => simp [hap rfl]
  | true =>
    by_cases hk : k.sta = -1
    · simpa [hk] using cfg.ul_le_dl
    · simp [hk]

/-- What the entry of an offer says about it. -/
def Outcome (cfg : MacConfig) (ul : Bool) (s : Sim) (pkt : MpduPacket) : Entry → Prop
  | .ignored => pkt.isUl ≠ ul ∨ (ul = true ∧ pkt.isUl = true ∧ UlFull cfg s pkt)
  | .refused => pkt.isUl = ul
  | .stored _ q => pkt.isUl = ul ∧ q.triple = pkt.triple
  | _ => False

/-- **An arrival books one entry.** -/
theorem arrival_booked {ul : Bool} {s s' : Sim} {pkt : MpduPacket}
    (h : Arrived cfg ul s pkt s') :
    ∃ e, Booked cfg (s.ledger cfg) e (s'.ledger cfg) ∧ Outcome cfg ul s pkt e := by
  cases h with
  | ignored qlc rng why => exact ⟨.ignored, .ignored (s.ledger cfg), why⟩
  | refused qlc rng hdir => exact ⟨.refused, .refused (s.ledger cfg), hdir⟩
  | stored qlc rng k p hdir hk hown hl htriple hroom hap =>
    have hb := enqueue_booked (s := { s with mac := counted s.mac qlc rng })
      s.mac.arrivedPacketCounter (cfg.mem_macKeys.2 hk) hown hl
      (Nat.lt_of_lt_of_le hroom (portCapacity_le hap)) rfl
    exact ⟨.stored k p.withoutStamps, hb, hdir, htriple⟩

end OneQueue

/-! ## The overflow pass -/

section Overflow

variable {cfg : MacConfig}

/-- `m` turns into `m'` by entries that meet `Q`, with nothing handed over. -/
def MacBookings (cfg : MacConfig) (Q : Entry → Prop) (m m' : QueueModule) : Prop :=
  ∀ handed, Bookings cfg Q (m.books.ledger cfg handed) (m'.books.ledger cfg handed)

theorem MacBookings.refl (Q : Entry → Prop) (m : QueueModule) : MacBookings cfg Q m m :=
  fun _ => .refl

theorem MacBookings.trans {Q : Entry → Prop} {m₁ m₂ m₃ : QueueModule}
    (h : MacBookings cfg Q m₁ m₂) (h' : MacBookings cfg Q m₂ m₃) : MacBookings cfg Q m₁ m₃ :=
  fun handed => (h handed).trans (h' handed)

/-- Taking packets out of a queue is booked as a drop. -/
theorem dropPackets_booked {m : QueueModule} {k : MacKey} {dropped kept : List MpduPacket}
    {flows : List (Int × Int)} (hk : k ∈ cfg.macKeys)
    (hsplit : (m.perFlowQueues k).Perm (dropped ++ kept))
    (hflows : flows = dropped.map MpduPacket.flow ∨ ∃ f ∈ m.staStatsCache.keys,
      (∀ p ∈ dropped, p.staDestId = f.2) ∧ flows = List.replicate dropped.length f)
    (handed : Nat) :
    Booked cfg (m.books.ledger cfg handed) (.dropped k (dropped.map MpduPacket.withoutStamps) flows)
      ((dropPackets m k dropped kept flows).books.ledger cfg handed) := by
  -- The queue splits into what is dropped and what is kept; the other queues stay.
  have hqueued : (m.books.ledger cfg handed).queued
      = contents cfg.macKeys (fun j => unstampedPackets (Function.update m.perFlowQueues k kept j))
        + ↑((dropped.map MpduPacket.withoutStamps).map (Prod.mk k)) := by
    have h := contents_update_queue hk m.perFlowQueues kept
    have hperm : unstampedPackets (m.perFlowQueues k)
        = unstampedPackets dropped + unstampedPackets kept := by
      rw [← unstampedPackets_append]
      exact Multiset.coe_eq_coe.2 (hsplit.map _)
    rw [hperm, Multiset.map_add, ← add_assoc] at h
    exact (add_right_cancel h).symm
  have hb : Booked cfg (m.books.ledger cfg handed) _ _ :=
    Booked.dropped _ _ k (dropped.map MpduPacket.withoutStamps) flows hqueued (by
      rcases hflows with rfl | ⟨f, hf, hdest, rfl⟩
      · left
        rw [List.map_map]
        rfl
      · right
        refine ⟨f, hf, ?_, by rw [List.length_map]⟩
        intro p hp
        obtain ⟨q, hq, rfl⟩ := List.mem_map.1 hp
        exact hdest q hq)
  -- The counters go down by one for each packet, as the entry says.
  refine Eq.mp (congrArg _ ?_) hb
  simp only [Books.ledger, QueueModule.books, dropPackets, List.length_map]
  congr 1
  · funext a
    rw [CountMap.count_decrAll, List.countP_replicate]
    simp only [decide_eq_true_eq, eq_comm (a := a)]
  · funext f
    rw [CountMap.count_decrAll]
  · exact (CountMap.keys_decrAll _ _).symm
  · funext l
    rw [CountMap.count_decrAll, List.countP_replicate]
    simp only [decide_eq_true_eq, eq_comm (a := l)]

theorem dropFirstTo_spec (dest : Int) (n : Nat) (q : List MpduPacket) :
    q.Perm ((dropFirstTo dest n q).1 ++ (dropFirstTo dest n q).2) ∧
      ∀ p ∈ (dropFirstTo dest n q).1, p.staDestId = dest := by
  induction q generalizing n with
  | nil => exact ⟨.refl _, fun p hp => by cases hp⟩
  | cons p ps ih =>
    rw [dropFirstTo]
    split
    · rename_i h
      obtain ⟨hperm, hdest⟩ := ih (n - 1)
      refine ⟨hperm.cons p, fun x hx => ?_⟩
      rcases List.mem_cons.1 hx with rfl | hx
      · exact h.2
      · exact hdest x hx
    · obtain ⟨hperm, hdest⟩ := ih n
      exact ⟨(hperm.cons p).trans List.perm_middle.symm, hdest⟩

/-- The books of a queue module whose flow keys are the same. -/
def SameFlowKeys (m m' : QueueModule) : Prop := m'.staStatsCache.keys = m.staStatsCache.keys

variable (cfg) in
/-- One queue of the overflow pass. -/
theorem overflowQueue_bookings {Q : Entry → Prop} (hQ : ∀ k ps fs, Q (.dropped k ps fs))
    {flow : Int × Int} {k : MacKey} {st : QueueModule × Nat}
    (hf : flow ∈ st.1.staStatsCache.keys) :
    MacBookings cfg Q st.1 (overflowQueue cfg flow k st).1 ∧
      SameFlowKeys st.1 (overflowQueue cfg flow k st).1 := by
  unfold overflowQueue
  dsimp only
  split
  · exact ⟨.refl Q st.1, rfl⟩
  · rename_i hcond
    have hk : k ∈ cfg.macKeys := by
      refine cfg.mem_macKeys.2 ?_
      by_contra hno
      exact hcond (Or.inr (by simpa using hno))
    split
    · refine ⟨fun handed => .single ⟨_, hQ _ _ _, dropPackets_booked hk ?_ (Or.inl rfl) handed⟩,
        CountMap.keys_decrAll _ _⟩
      have h := List.take_append_drop
        ((st.1.perFlowQueues k).length - min st.2 (st.1.perFlowQueues k).length)
        (st.1.perFlowQueues k)
      exact (List.Perm.of_eq h.symm).trans List.perm_append_comm
    · obtain ⟨hperm, hdest⟩ := dropFirstTo_spec flow.2 st.2 (st.1.perFlowQueues k)
      exact ⟨fun handed => .single ⟨_, hQ _ _ _,
        dropPackets_booked hk hperm (Or.inr ⟨flow, hf, hdest, rfl⟩) handed⟩,
        CountMap.keys_decrAll _ _⟩

/-- **The overflow pass books drops.** -/
theorem overflowPass_bookings {Q : Entry → Prop} (hQ : ∀ k ps fs, Q (.dropped k ps fs))
    (order : HashOrder) (m : QueueModule) : MacBookings cfg Q m (overflowPass cfg order m) := by
  -- the flows of the pass keep their entries, so that every drop finds one
  have hpass := overflowPass_rel cfg (R := fun m₁ m₂ =>
    (∀ x ∈ order.flows (overflowingFlows cfg m), x.1 ∈ m₁.staStatsCache.keys) →
      MacBookings cfg Q m₁ m₂ ∧ SameFlowKeys m₁ m₂)
    (fun m₁ _ => ⟨.refl Q m₁, rfl⟩) ?_ order m fun x hx k st hkeys =>
      overflowQueue_bookings cfg hQ (hkeys x hx)
  · exact (hpass fun x hx => (overflowing_spec hx).1).1
  · intro m₁ m₂ m₃ h h' hkeys
    obtain ⟨h₁, hk₁⟩ := h hkeys
    obtain ⟨h₂, hk₂⟩ := h' (by rw [hk₁]; exact hkeys)
    exact ⟨h₁.trans h₂, hk₂.trans hk₁⟩

end Overflow

/-! ## Builds -/

section Build

variable {cfg : MacConfig} {m : QueueModule} {first : MpduPacket} {linkId : Nat}

variable (cfg m first linkId) in
/-- The entry a build books. -/
def buildEntry (handed : Bool) : Entry :=
  .built (unstamped (sentOf cfg m first linkId))
    (unstamped (lostOf cfg m first linkId) + (swept cfg m first linkId).map unstamp)
    (failedOf cfg m first linkId).length handed

/-- The triples of two aggregated packets, or of an aggregated and a swept one,
are among the queued ones. -/
theorem triples_le_queued (hkey : cfg.hasKey (ampduKey first linkId) = true)
    {T : Multiset (MacKey × MpduPacket)}
    (hT : T ≤ (aggregated cfg m first linkId : Multiset _) + swept cfg m first linkId) :
    T.map (fun x => x.2.triple) ≤ (m.queued cfg).map fun x => x.2.triple := by
  have hle : T.map unstamp ≤ m.queued cfg := by
    rw [queued_before hkey, add_assoc]
    refine le_trans (Multiset.map_le_map hT) ?_
    rw [Multiset.map_add]
    exact Multiset.le_add_left _ _
  have h := Multiset.map_le_map (f := fun x : MacKey × MpduPacket => x.2.triple) hle
  rw [Multiset.map_map] at h
  exact h

/-- A packet in a queue of the access point's or a station's is sent by it. -/
theorem senderOf_queued {handed : Nat} (hp : Placed cfg (m.books.ledger cfg handed))
    {k : MacKey} (hk : k ∈ cfg.macKeys) {p : MpduPacket} (h : p ∈ m.perFlowQueues k) :
    senderOf p.triple = k.sta := by
  obtain ⟨-, hown, -⟩ := hp _ (mem_queued hk h)
  rw [← queueSta_eq]
  exact (Prod.mk.inj hown).1.symm

theorem aggregated_dest (hpos : 0 < first.staSrcId) {x y : MacKey × MpduPacket}
    (hx : x ∈ aggregated cfg m first linkId) (hy : y ∈ aggregated cfg m first linkId)
    (hap : x.1.sta = -1) : x.2.staDestId = y.2.staDestId := by
  have hdl : first.isUl = false := by
    rw [aggregated_sta hx, ampduKey] at hap
    by_contra hul
    rw [if_pos (by simpa using hul)] at hap
    have : first.staSrcId = -1 := hap
    omega
  have hwx := (mem_queue_of_aggregated hx).2
  have hwy := (mem_queue_of_aggregated hy).2
  simp only [wanted, hdl, Bool.false_or, decide_eq_true_eq] at hwx hwy
  rw [hwx, hwy]

section Lossless

variable {handed now airtime : Nat} {ampdu : AmpduPacket} {m' : QueueModule}
  (he : BuildEffect cfg m first linkId now ampdu airtime m')
  (hp : Placed cfg (m.books.ledger cfg handed))
  (hfree : ClashFree cfg (m.books.ledger cfg handed))

include he hp hfree

theorem lostOf_eq_nil_of_clashFree : lostOf cfg m first linkId = [] := by
  have hkey : ∀ x ∈ aggregated cfg m first linkId, x.1 ∈ cfg.macKeys := fun x hx =>
    cfg.mem_macKeys.2 (aggregated_hasKey he.hasKey hx)
  refine lostOf_eq_nil_iff.2 fun x hx y hy hid => ?_
  have hsplit := survivors_add_casualties cfg.plProbability m.rng (aggregated cfg m first linkId)
  -- a packet sent and one that failed are two packets, even if they look alike
  have hpair : ({x, y} : Multiset (MacKey × MpduPacket)) ≤ aggregated cfg m first linkId := by
    rw [← hsplit, Multiset.insert_eq_cons, ← Multiset.singleton_add]
    exact add_le_add (Multiset.singleton_le.2 hx) (Multiset.singleton_le.2 hy)
  have hxa := Multiset.mem_of_le hpair (by simp : x ∈ ({x, y} : Multiset _))
  have hya := Multiset.mem_of_le hpair (by simp : y ∈ ({x, y} : Multiset _))
  have hsx := senderOf_queued hp (hkey x hxa) (mem_queue_of_aggregated hxa).1
  have hsy := senderOf_queued hp (hkey y hya) (mem_queue_of_aggregated hya).1
  refine hfree x.2.triple y.2.triple ?_ ⟨hid, ?_, fun hap => Or.inl ?_⟩
  · exact triples_le_queued he.hasKey (hpair.trans (Multiset.le_add_right _ _))
  · rw [hsx, hsy, aggregated_sta hxa, aggregated_sta hya]
  · exact aggregated_dest he.srcPos hxa hya (hsx.symm.trans hap)

/-- Without clashes only aggregated packets are removed. -/
theorem swept_eq_zero_of_clashFree : swept cfg m first linkId = 0 := by
  have hkey : ∀ x ∈ aggregated cfg m first linkId, x.1 ∈ cfg.macKeys := fun x hx =>
    cfg.mem_macKeys.2 (aggregated_hasKey he.hasKey hx)
  refine Multiset.eq_zero_of_forall_notMem fun z hz => ?_
  obtain ⟨hk, hzk⟩ := mem_contents.1 hz
  -- a swept packet has the removal key of an aggregated one
  unfold sweptIn at hzk
  split at hzk
  · simp at hzk
  · rename_i hdl
    split at hzk
    · rename_i hinv
      have hmem : z.2 ∈ (m.perFlowQueues z.1).filter fun p => keyTaken cfg m first linkId p :=
        Multiset.mem_coe.1 (Multiset.mem_of_le tsub_le_self hzk)
      obtain ⟨hq, hkt⟩ := List.mem_filter.1 hmem
      simp only [keyTaken, List.contains_eq_mem, decide_eq_true_eq] at hkt
      obtain ⟨y, hy, hidk⟩ := List.mem_map.1 hkt
      simp only [involved, decide_eq_true_eq] at hinv
      obtain ⟨w, hw, hwk⟩ := List.mem_map.1 hinv
      have hpair : ({y, z} : Multiset (MacKey × MpduPacket))
          ≤ (aggregated cfg m first linkId : Multiset _) + swept cfg m first linkId := by
        rw [Multiset.insert_eq_cons, ← Multiset.singleton_add]
        exact add_le_add (Multiset.singleton_le.2 hy) (Multiset.singleton_le.2 hz)
      have hsy := senderOf_queued hp (hkey y hy) (mem_queue_of_aggregated hy).1
      have hsz := senderOf_queued hp hk hq
      refine hfree y.2.triple z.2.triple (triples_le_queued he.hasKey hpair) ⟨?_, ?_, ?_⟩
      · unfold idKey at hidk
        split at hidk
        · exact congrArg (fun t => t.2.2) hidk
        · exact congrArg (fun t => t.2.2) hidk
      · rw [hsy, hsz, aggregated_sta hy, ← hwk, aggregated_sta hw]
      · intro _
        unfold idKey at hidk
        split at hidk
        · rename_i hleg
          exact Or.inr hleg
        · exact Or.inl (congrArg (fun t => t.2.1) hidk)
    · simp at hzk

end Lossless

/-- **A build books one entry.** -/
theorem build_booked {now airtime : Nat} {ampdu : AmpduPacket} {m' : QueueModule}
    (he : BuildEffect cfg m first linkId now ampdu airtime m') (n : Nat) (handed : Bool) :
    Booked cfg (m.books.ledger cfg n) (buildEntry cfg m first linkId handed)
      (m'.books.ledger cfg (n + if handed then ampdu.mpduPackets.length else 0)) := by
  have hsplit : (m.books.ledger cfg n).queued = m'.queued cfg
      + unstamped (sentOf cfg m first linkId)
      + (unstamped (lostOf cfg m first linkId) + (swept cfg m first linkId).map unstamp) := by
    rw [← add_assoc]
    exact queued_build he
  -- With no clash nothing is lost or swept, so the entry may claim it.
  have hb : Booked cfg (m.books.ledger cfg n) (buildEntry cfg m first linkId handed) _ :=
    Booked.built _ _ _ _ _ handed hsplit fun hp hfree => by
      rw [lostOf_eq_nil_of_clashFree he hp hfree, swept_eq_zero_of_clashFree he hp hfree]
      rfl
  have hcard : Multiset.card (unstamped (sentOf cfg m first linkId))
      = ampdu.mpduPackets.length := by
    have h := congrArg List.length he.packets
    simpa [unstamped] using h.symm
  refine Eq.mp (congrArg _ ?_) hb
  rw [he.state]
  simp only [Books.ledger, QueueModule.books, hcard]
  congr 1
  · funext a
    rw [CountMap.count_decrAll, List.countP_map, unstamped, Multiset.coe_countP, List.countP_map]
    rfl
  · funext f
    rw [CountMap.count_decrAll, List.countP_map, unstamped, Multiset.coe_countP, List.countP_map]
    rfl
  · exact (CountMap.keys_decrAll _ _).symm
  · funext l
    rw [CountMap.count_decrAll, List.countP_filterMap, unstamped, Multiset.coe_countP,
      List.countP_map]
    refine congrArg _ (List.countP_congr fun x _ => ?_)
    show decide (x.2.assignedLinkId = some l) = true ↔ _
    cases x.2.assignedLinkId <;> simp

end Build

/-! ## Ticks and completions -/

section Ticks

variable {cfg : MacConfig} {order : HashOrder}

/-- Whether an A-MPDU that was built goes on the air. -/
def goesOut (ampdu : AmpduPacket) (airtime : Nat) : Bool :=
  !ampdu.mpduPackets.isEmpty && airtime ≠ 0

/-- Entries that meet `Q` cover the drops and the builds that meet `R`. -/
structure Covers (cfg : MacConfig) (R : QueueModule → MpduPacket → Nat → Prop)
    (Q : Entry → Prop) : Prop where
  dropped : ∀ k ps fs, Q (.dropped k ps fs)
  built : ∀ m first link now ampdu airtime m', R m first link →
    buildNewAmpdu cfg m first link now = some (ampdu, airtime, m') →
    Q (buildEntry cfg m first link (goesOut ampdu airtime))

variable {R : QueueModule → MpduPacket → Nat → Prop} {Q : Entry → Prop}

variable {s s' : Sim}

/-- **One iteration of the link loop books the entry of its build**, if it has
one, and nothing else. -/
theorem serveLink_booked {x : Nat × List MacKey} {m : QueueModule}
    (hm : (resolveVirtualCollision order x.1 s.mac x.2).2 = m)
    (h : serveLink cfg order s x = some s') :
    ((∀ winner first, contendersOf order s x = [winner] → firstPacket cfg m winner ≠ some first) ∧
      s'.ledger cfg = s.ledger cfg) ∨
    ∃ winner first ampdu airtime m', contendersOf order s x = [winner] ∧
      firstPacket cfg m winner = some first ∧
      buildNewAmpdu cfg m first x.1 s.now = some (ampdu, airtime, m') ∧
      Booked cfg (s.ledger cfg) (buildEntry cfg m first x.1 (goesOut ampdu airtime))
        (s'.ledger cfg) := by
  have hbooks := books_resolveVirtualCollision s.mac order x.1 x.2
  have hserved := serveLink_cases h
  rw [hm] at hbooks hserved
  have hstart : s.ledger cfg = m.books.ledger cfg s.handed := by rw [Sim.ledger, ← hbooks]
  rw [hstart]
  cases hserved with
  | idle hc =>
    refine Or.inl ⟨fun winner first hw => ?_, rfl⟩
    rw [hc] at hw
    cases hw
  | unused winner hc hf =>
    refine Or.inl ⟨fun winner' first hw => ?_, rfl⟩
    rw [hc] at hw
    obtain rfl := (List.cons.inj hw).1
    rw [hf]
    nofun
  | collided hc =>
    refine Or.inl ⟨fun winner first hw => ?_, ?_⟩
    · rw [hw] at hc
      simp at hc
    · exact congrArg (fun b => Books.ledger cfg b s.handed) (books_collideMac m s.now x.1 _)
  | skipped winner hc first hf ampdu airtime m' hb hskip =>
    refine Or.inr ⟨winner, first, ampdu, airtime, m', hc, hf, hb, ?_⟩
    have hout : goesOut ampdu airtime = false := by
      rcases hskip with h | h <;> simp [goesOut, h]
    have hafter : (skipTransmission { s with mac := m' } x.1 winner).ledger cfg
        = m'.books.ledger cfg s.handed := ledger_scheduleTick cfg _
    rw [hout, hafter]
    exact build_booked (buildEffect_of_build hb) s.handed false
  | transmitted winner hc first hf ampdu airtime m' hb hne hair =>
    refine Or.inr ⟨winner, first, ampdu, airtime, m', hc, hf, hb, ?_⟩
    have hout : goesOut ampdu airtime = true := by simp [goesOut, hne, hair]
    -- what is on the air counts as handed over
    set s₁ := startTransmission { s with mac := m' } x.1 winner { ampdu with linkId := x.1 }
      airtime with hs₁
    have hhanded : s₁.handed = s.handed + if true then ampdu.mpduPackets.length else 0 := by
      simp only [hs₁, Sim.handed, startTransmission, List.map_append, List.sum_append,
        List.map_cons, List.map_nil, List.sum_cons, List.sum_nil, if_true]
      omega
    have hafter : s₁.ledger cfg = m'.books.ledger cfg s₁.handed := rfl
    rw [hout, hafter, hhanded]
    exact build_booked (buildEffect_of_build hb) s.handed true

theorem serveLink_bookings (hQ : Covers cfg R Q) {x : Nat × List MacKey}
    (hR : EachBuild cfg order R s x) (h : serveLink cfg order s x = some s') :
    Bookings cfg Q (s.ledger cfg) (s'.ledger cfg) := by
  rcases serveLink_booked rfl h with
    ⟨-, hsame⟩ | ⟨winner, first, ampdu, airtime, m', hc, hf, hb, hbook⟩
  · rw [hsame]
  · have hcovered := hQ.built _ first x.1 s.now ampdu airtime m'
      (hR winner (soleContender_eq_some.2 hc) first hf) hb
    exact .single ⟨_, hcovered, hbook⟩

theorem serveLinks_bookings (hQ : Covers cfg R Q) {xs : List (Nat × List MacKey)}
    (hR : LoopAll cfg order (EachBuild cfg order R) xs s)
    (h : serveLinks cfg order xs s = some s') :
    Bookings cfg Q (s.ledger cfg) (s'.ledger cfg) := by
  refine serveLinks_preserves (P := fun s' => Bookings cfg Q (s.ledger cfg) (s'.ledger cfg))
    ?_ hR h .refl
  intro s₁ x s₂ hs₁ hRx hstep
  exact hs₁.trans (serveLink_bookings hQ hRx hstep)

variable (cfg) in
theorem beginTick_bookings (order : HashOrder) (s : Sim) (hQ : ∀ k ps fs, Q (.dropped k ps fs)) :
    Bookings cfg Q (s.ledger cfg) ((beginTick cfg order s).ledger cfg) := by
  have hpass : MacBookings cfg Q { s.mac with slotTickPending := false } _ :=
    overflowPass_bookings hQ order _
  exact hpass s.handed

theorem ledger_endTick (s : Sim) : (endTick cfg s).ledger cfg = s.ledger cfg := by
  unfold endTick
  split
  · exact ledger_scheduleTick cfg s
  · rfl

/-- **A slot tick books drops and builds.** -/
theorem tick_bookings (hQ : Covers cfg R Q) (hR : TickAll cfg order (EachBuild cfg order R) s)
    (h : dequeScheduleService cfg order s = some s') :
    Bookings cfg Q (s.ledger cfg) (s'.ledger cfg) := by
  obtain ⟨s₁, hloop, rfl⟩ := Option.map_eq_some_iff.1 h
  rw [ledger_endTick]
  exact (beginTick_bookings cfg order s hQ.dropped).trans (serveLinks_bookings hQ hR hloop)

theorem sum_eraseIdx_of_getElem? {α : Type} (f : α → Nat) {l : List α} {i : Nat} {a : α}
    (h : l[i]? = some a) : (l.map f).sum = f a + ((l.eraseIdx i).map f).sum := by
  obtain ⟨hi, rfl⟩ := List.getElem?_eq_some_iff.1 h
  have hperm := (List.getElem_cons_eraseIdx_perm hi).map f
  rw [← hperm.sum_eq, List.map_cons, List.sum_cons]

/-- **A completion leaves the ledger alone**: its packets stay handed over. -/
theorem completion_ledger {i : Nat} (h : Completed cfg s i s') :
    s'.ledger cfg = s.ledger cfg := by
  cases h with
  | delivered t ampdu hi hdue s₁ hs₁ =>
    have hsettle : ∀ s₂ : Sim, (settle s₂ ampdu).ledger cfg = s₂.ledger cfg := fun s₂ =>
      ledger_congr (books_drainStats _ ampdu s₂.now) rfl
    have hdelivery : s₁.ledger cfg = s.ledger cfg := by
      subst hs₁
      refine ledger_congr rfl ?_
      have hsum := sum_eraseIdx_of_getElem? (fun c => c.2.mpduPackets.length) hi
      simp only [Sim.handed, delivery, List.map_append, List.sum_append, List.map_cons,
        List.map_nil, List.sum_cons, List.sum_nil] at hsum ⊢
      omega
    rw [hsettle]
    split
    · rw [ledger_scheduleTick, hdelivery]
    · exact hdelivery

end Ticks

/-! ## Runs -/

/-- The offer an event makes, with its port. -/
def Event.offered : Event → Option (Bool × MpduPacket)
  | .input _ p => some (false, p)
  | .inputUL _ p => some (true, p)
  | _ => none

/-- The offers of a run, with their ports. -/
def offers (es : List Event) : List (Bool × MpduPacket) := es.filterMap Event.offered

theorem offers_offer (es : List Event) (ul : Bool) (t : Nat) (p : MpduPacket) :
    offers (es ++ [.offer ul t p]) = offers es ++ [(ul, p)] := by
  cases ul <;> simp [offers, Event.offer, Event.offered]

theorem offers_quiet (es : List Event) {e : Event} (h : e.offered = none) :
    offers (es ++ [e]) = offers es := by
  simp [offers, h]

/-- **Ledger rule for runs**: an invariant of the offers so far and the ledger
holds in every state reached if offers keep it, with what their outcome tells,
and the entries of the ticks keep it. -/
theorem run_ledger {cfg : MacConfig} {ok : Sim → Event → Prop}
    {R : QueueModule → MpduPacket → Nat → Prop} {Q : Entry → Prop}
    {P : List (Bool × MpduPacket) → Ledger → Prop} (hQ : Covers cfg R Q)
    (hok : ∀ s t order, ok s (.tick t order) →
      TickAll cfg order (EachBuild cfg order R) (s.atTick t))
    (h₀ : P [] ((Sim.new cfg).ledger cfg))
    (hoffer : ∀ os s ul t p e L', P os (s.ledger cfg) → ok s (.offer ul t p) →
      Booked cfg (s.ledger cfg) e L' → Outcome cfg ul { s with now := t } p e →
      P (os ++ [(ul, p)]) L')
    (hentry : ∀ os L e L', P os L → Q e → Booked cfg L e L' → P os L')
    {es : List Event} {s : Sim} (h : Run (step cfg) ok (Sim.new cfg) es s) :
    P (offers es) (s.ledger cfg) := by
  refine h.invariant (P := fun es s => P (offers es) (s.ledger cfg)) ?_ ?_
  · exact h₀
  intro es s e s' hP hokse hstep
  cases step_cases hstep with
  | offer ul t p hdue s' harr =>
    obtain ⟨entry, hb, hout⟩ := arrival_booked harr
    rw [offers_offer]
    exact hoffer _ s ul t p entry _ hP hokse hb hout
  | coords t sta c hdue =>
    rw [offers_quiet es rfl]
    exact hP
  | tick t order hdue ht s' htick =>
    rw [offers_quiet es rfl]
    exact (tick_bookings hQ (hok s t order hokse) htick).preserves (hentry (offers es)) hP
  | completion i s' hc =>
    rw [offers_quiet es rfl, completion_ledger hc]
    exact hP

theorem queued_new (cfg : MacConfig) : ((Sim.new cfg).ledger cfg).queued = 0 :=
  contents_zero cfg.macKeys

theorem sound_new (cfg : MacConfig) : Sound cfg ((Sim.new cfg).ledger cfg) := by
  have h := queued_new cfg
  refine ⟨fun x hx => ?_, fun k => ?_, fun a => ?_, fun l => ?_⟩
  · rw [h] at hx
    simp at hx
  · rw [Ledger.inQueue, h]
    exact Nat.zero_le _
  · rw [Ledger.waiting, h]
    exact Nat.zero_le _
  · rw [Ledger.onLink, h]
    exact Nat.zero_le _

theorem covers_all (cfg : MacConfig) : Covers cfg (fun _ _ _ => True) fun _ => True :=
  ⟨fun _ _ _ => True.intro, fun _ _ _ _ _ _ _ _ _ => True.intro⟩

theorem tickAll_trivial (cfg : MacConfig) (order : HashOrder) (s : Sim) :
    TickAll cfg order (EachBuild cfg order fun _ _ _ => True) s :=
  LoopAll.of_forall (fun _ _ _ _ _ _ => True.intro) _ _

/-- **The ledger is sound in every state of every run.** -/
theorem run_sound {cfg : MacConfig} {ok : Sim → Event → Prop} {es : List Event} {s : Sim}
    (h : Run (step cfg) ok (Sim.new cfg) es s) : Sound cfg (s.ledger cfg) :=
  run_ledger (P := fun _ L => Sound cfg L) (covers_all cfg) (fun _ _ _ _ => tickAll_trivial ..)
    (sound_new cfg) (fun _ _ _ _ _ _ _ hL _ hb _ => hb.sound hL)
    (fun _ _ _ _ hL _ hb => hb.sound hL) h

end SiestaVR.Mac
