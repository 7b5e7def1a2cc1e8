import SiestaVR.Mac.Overflow

/-!
# Order of the packets of one destination

Failed packets of a build go back to the front of the queues they were taken
from, grouped and past packets of other destinations. For the packets of one
destination nothing is reordered by that: `Thins` says that a handler only takes
packets out of what each queue holds for each destination, and every handler but
an arrival does no more than that. An arrival appends. So a queue holds, for each
destination, part of the arrivals in their order, in every state of every run.
-/

namespace SiestaVR.Mac

open Lib

/-- The packets to `d`, in order, by what names them. -/
def toDest (d : Int) (ps : List MpduPacket) : List (Int × Int × Nat) :=
  (ps.filter fun p => p.staDestId = d).map MpduPacket.triple

section ToDest

variable (d : Int)

theorem toDest_append (ps qs : List MpduPacket) :
    toDest d (ps ++ qs) = toDest d ps ++ toDest d qs := by
  simp [toDest]

theorem toDest_unstamped (ps : List MpduPacket) :
    toDest d (ps.map MpduPacket.withoutStamps) = toDest d ps := by
  rw [toDest, List.filter_map, List.map_map]
  rfl

theorem toDest_sublist {ps qs : List MpduPacket} (h : ps.Sublist qs) :
    (toDest d ps).Sublist (toDest d qs) :=
  (h.filter _).map _

theorem toDest_eq_nil {ps : List MpduPacket} (h : ∀ p ∈ ps, p.staDestId ≠ d) :
    toDest d ps = [] := by
  rw [toDest, List.filter_eq_nil_iff.2 fun p hp => by simpa using h p hp]
  rfl

end ToDest

/-- Every queue holds, for every destination, part of what it held, in the same
order. -/
def Thins (q q' : MacKey → List MpduPacket) : Prop :=
  ∀ k d, (toDest d (q' k)).Sublist (toDest d (q k))

theorem Thins.refl (q : MacKey → List MpduPacket) : Thins q q :=
  fun _ _ => List.Sublist.refl _

theorem Thins.trans {q q' q'' : MacKey → List MpduPacket} (h : Thins q q') (h' : Thins q' q'') :
    Thins q q'' :=
  fun k d => (h' k d).trans (h k d)

/-! ## Builds -/

section Build

variable {cfg : MacConfig} {m : QueueModule} {first : MpduPacket} {linkId : Nat}

variable (cfg m first linkId) in
theorem fiber_putBack_sublist (k : MacKey) :
    (fiber (putBackOf cfg m first linkId) k).Sublist (fiber (aggregated cfg m first linkId) k) :=
  (List.filter_sublist.filter _).map _

/-- An uplink build puts part of what it popped back in front of the rest. -/
theorem uplink_sublist (hul : first.isUl = true) (k : MacKey) :
    (fiber (putBackOf cfg m first linkId) k ++ keptIn cfg m first linkId k).Sublist
      (m.perFlowQueues k) := by
  obtain ⟨rest, hrest⟩ := fiber_aggregated_uplink cfg m linkId hul k
  rw [keptIn, if_pos hul, ← hrest, List.drop_left]
  exact (fiber_putBack_sublist cfg m first linkId k).append (.refl rest)

/-- A downlink build takes the first packets to its destination: what it puts
back goes in front of the packets to that destination it left. -/
theorem downlink_sublist (hdl : first.isUl = false) (k : MacKey) :
    (toDest first.staDestId (fiber (putBackOf cfg m first linkId) k)
      ++ toDest first.staDestId (keptIn cfg m first linkId k)).Sublist
        (toDest first.staDestId (m.perFlowQueues k)) := by
  have hwant : wanted first = fun p => decide (p.staDestId = first.staDestId) := by
    funext p
    simp [wanted, hdl]
  -- What was aggregated are the first packets of the queue to the destination.
  obtain ⟨rest, hrest⟩ := fiber_aggregated_initial cfg m first linkId k
  have hqueue : toDest first.staDestId (m.perFlowQueues k)
      = (fiber (aggregated cfg m first linkId) k).map MpduPacket.triple
        ++ rest.map MpduPacket.triple := by
    rw [toDest, ← hwant, ← hrest, List.map_append]
  have hback : (toDest first.staDestId (fiber (putBackOf cfg m first linkId) k)).Sublist
      ((fiber (aggregated cfg m first linkId) k).map MpduPacket.triple) :=
    (List.filter_sublist.trans (fiber_putBack_sublist cfg m first linkId k)).map _
  have hkept : (toDest first.staDestId (keptIn cfg m first linkId k)).Sublist
      (rest.map MpduPacket.triple) := by
    refine List.Sublist.map _ ?_
    rw [← hwant]
    unfold keptIn
    simp only [hdl, Bool.false_eq_true, if_false]
    split
    · -- the removal takes everything that was aggregated
      rw [List.filter_comm, ← hrest, List.filter_append, List.filter_eq_nil_iff.2 fun p hp => by
        simp [mem_fiber_keyTaken hp], List.nil_append]
      exact List.filter_sublist
    · rename_i hinv
      rw [← hrest, fiber_eq_nil_of_not_involved (by simpa using hinv)]
      exact .refl _
  rw [hqueue]
  exact hback.append hkept

/-- **A build thins the queues**: also for the destinations whose packets are
passed by those put back. -/
theorem build_thins {now airtime : Nat} {ampdu : AmpduPacket} {m' : QueueModule}
    (hb : BuildEffect cfg m first linkId now ampdu airtime m') :
    Thins m.perFlowQueues m'.perFlowQueues := by
  intro k d
  rw [← toDest_unstamped d (m'.perFlowQueues k), hb.queues k, toDest_unstamped, toDest_append]
  by_cases hul : first.isUl = true
  · rw [← toDest_append]
    exact toDest_sublist d (uplink_sublist hul k)
  · have hdl : first.isUl = false := by simpa using hul
    -- Packets to other destinations are neither taken nor put back.
    by_cases hd : d = first.staDestId
    · subst hd
      exact downlink_sublist hdl k
    · have hback : toDest d (fiber (putBackOf cfg m first linkId) k) = [] := by
        refine toDest_eq_nil d fun p hp hpd => hd ?_
        have hp' := (fiber_putBack_sublist cfg m first linkId k).subset hp
        have hw := (mem_queue_of_aggregated (mem_fiber.1 hp')).2
        rw [← hpd]
        simpa [wanted, hdl] using hw
      have hkept : (keptIn cfg m first linkId k).Sublist (m.perFlowQueues k) := by
        unfold keptIn
        simp only [hdl, Bool.false_eq_true, if_false]
        split
        · exact List.filter_sublist
        · exact .refl _
      rw [hback, List.nil_append]
      exact toDest_sublist d hkept

end Build

/-! ## The other handlers -/

section Handlers

variable {cfg : MacConfig}

theorem thins_of_books {m m' : QueueModule} (h : m'.books = m.books) :
    Thins m.perFlowQueues m'.perFlowQueues := by
  have hq : m'.perFlowQueues = m.perFlowQueues := congrArg Books.queues h
  rw [hq]
  exact .refl _

theorem serveLink_thins {order : HashOrder} {s s' : Sim} {x : Nat × List MacKey}
    (h : serveLink cfg order s x = some s') :
    Thins s.mac.perFlowQueues s'.mac.perFlowQueues := by
  have hres : Thins s.mac.perFlowQueues
      (resolveVirtualCollision order x.1 s.mac x.2).2.perFlowQueues :=
    thins_of_books (books_resolveVirtualCollision s.mac order x.1 x.2)
  refine hres.trans ?_
  cases serveLink_cases h with
  | idle hc => exact .refl _
  | unused winner hc hf => exact .refl _
  | collided hc => exact thins_of_books (books_collideMac _ _ _ _)
  | skipped winner hc first hf ampdu airtime m' hb hskip =>
    have hbooks : (skipTransmission { s with mac := m' } x.1 winner).mac.books = m'.books :=
      books_scheduleTick _
    exact (build_thins (buildEffect_of_build hb)).trans (thins_of_books hbooks)
  | transmitted winner hc first hf ampdu airtime m' hb hne hair =>
    have hbuild := build_thins (buildEffect_of_build hb)
    exact hbuild

theorem serveLinks_thins {order : HashOrder} {xs : List (Nat × List MacKey)} {s s' : Sim}
    (h : serveLinks cfg order xs s = some s') :
    Thins s.mac.perFlowQueues s'.mac.perFlowQueues :=
  serveLinks_preserves (R := fun _ _ => True)
    (P := fun s₁ => Thins s.mac.perFlowQueues s₁.mac.perFlowQueues)
    (fun _ _ _ hP _ hs => hP.trans (serveLink_thins hs))
    (LoopAll.of_forall (fun _ _ => True.intro) _ _) h (.refl _)

/-- **A slot tick thins the queues.** -/
theorem tick_thins {order : HashOrder} {s s' : Sim}
    (h : dequeScheduleService cfg order s = some s') :
    Thins s.mac.perFlowQueues s'.mac.perFlowQueues := by
  obtain ⟨s₁, h₁, rfl⟩ := Option.map_eq_some_iff.1 h
  have hbegin : Thins s.mac.perFlowQueues (beginTick cfg order s).mac.perFlowQueues := fun k d =>
    toDest_sublist d (overflowPass_sublist cfg order { s.mac with slotTickPending := false } k)
  refine (hbegin.trans (serveLinks_thins h₁)).trans (thins_of_books ?_)
  unfold endTick
  split
  · exact books_scheduleTick s₁
  · rfl

theorem completion_thins {s s' : Sim} {i : Nat} (h : Completed cfg s i s') :
    Thins s.mac.perFlowQueues s'.mac.perFlowQueues := by
  cases h with
  | delivered t ampdu hi hdue s₁ hs₁ =>
    refine thins_of_books ?_
    have hs : s₁.mac.books = s.mac.books := by
      rw [hs₁]
      rfl
    refine (books_drainStats _ _ _).trans ((books_dcfMut _ _ _).trans ?_)
    split
    · exact (books_scheduleTick s₁).trans hs
    · exact hs

end Handlers

/-! ## Runs -/

/-- The arrivals of a run: the packets offered to the port of their direction, by
what names them. -/
def arrivalOrder (es : List Event) : List (Int × Int × Nat) := acceptedTriples (offers es)

/-- The arrivals to `d`. -/
def arrivalsTo (d : Int) (es : List Event) : List (Int × Int × Nat) :=
  toDest d (accepted (offers es))

theorem arrivalsTo_sublist (d : Int) (es : List Event) :
    (arrivalsTo d es).Sublist (arrivalOrder es) :=
  List.filter_sublist.map _

theorem arrivalsTo_offer (d : Int) (es : List Event) (ul : Bool) (t : Nat) (p : MpduPacket) :
    arrivalsTo d (es ++ [.offer ul t p])
      = arrivalsTo d es ++ toDest d (if p.isUl = ul then [p] else []) := by
  rw [arrivalsTo, offers_offer, accepted_append, toDest_append]
  congr 2
  by_cases hul : p.isUl = ul <;> simp [accepted, hul]

theorem arrivalsTo_quiet (d : Int) (es : List Event) {e : Event} (h : e.offered = none) :
    arrivalsTo d (es ++ [e]) = arrivalsTo d es := by
  rw [arrivalsTo, offers_quiet es h]
  rfl

/-- What an arrival does to a queue: nothing, or it appends the packet. -/
theorem arrival_queue {cfg : MacConfig} {ul : Bool} {s s' : Sim} {pkt : MpduPacket}
    (h : Arrived cfg ul s pkt s') (k : MacKey) :
    s'.mac.perFlowQueues k = s.mac.perFlowQueues k ∨
      pkt.isUl = ul ∧ ∃ p, p.triple = pkt.triple ∧
        s'.mac.perFlowQueues k = s.mac.perFlowQueues k ++ [p] := by
  cases h with
  | ignored qlc rng why => exact Or.inl rfl
  | refused qlc rng hdir => exact Or.inl rfl
  | stored qlc rng j p hdir hk hown hl htriple hroom hap =>
    have hq : (enqueue cfg { s with mac := counted s.mac qlc rng } j p).mac.perFlowQueues
        = Function.update s.mac.perFlowQueues j (s.mac.perFlowQueues j ++ [p]) := by
      unfold enqueue
      dsimp only
      split
      · exact congrArg Books.queues (books_scheduleTick _)
      · rfl
    rw [hq]
    by_cases hj : k = j
    · subst hj
      exact Or.inr ⟨hdir, p, htriple, Function.update_self _ _ _⟩
    · exact Or.inl (Function.update_of_ne hj _ _)

/-- **Queues hold part of the arrivals in order**, for every destination, in every
state of every run. -/
theorem run_queue_sublist {cfg : MacConfig} {es : List Event} {s : Sim} (h : MacRun cfg es s)
    (k : MacKey) (d : Int) :
    (toDest d (s.mac.perFlowQueues k)).Sublist (arrivalsTo d es) := by
  refine h.invariant (P := fun es s =>
    ∀ k d, (toDest d (s.mac.perFlowQueues k)).Sublist (arrivalsTo d es)) ?_ ?_ k d
  · exact fun k d => List.nil_sublist _
  intro es s e s' hP _ hstep k d
  cases step_cases hstep with
  | offer ul t p hdue s' harr =>
    rw [arrivalsTo_offer]
    rcases arrival_queue harr k with hsame | ⟨hdir, q, htriple, happ⟩
    · rw [hsame]
      exact (hP k d).trans (List.sublist_append_left _ _)
    · obtain ⟨-, hdest, -⟩ : q.staSrcId = p.staSrcId ∧ q.staDestId = p.staDestId ∧
          q.packetId = p.packetId := by simpa [MpduPacket.triple] using htriple
      have hlast : toDest d [q] = toDest d [p] := by
        by_cases hd : p.staDestId = d <;> simp [toDest, hdest, hd, htriple]
      rw [happ, toDest_append, if_pos hdir, hlast]
      exact (hP k d).append (.refl _)
  | coords t sta c hdue =>
    rw [arrivalsTo_quiet d es rfl]
    exact hP k d
  | tick t order hdue ht s' htick =>
    rw [arrivalsTo_quiet d es rfl]
    exact (tick_thins htick k d).trans (hP k d)
  | completion i s' hc =>
    rw [arrivalsTo_quiet d es rfl]
    exact (completion_thins hc k d).trans (hP k d)

/-- The position of a packet in the order of arrival. -/
def arrivalIndex (es : List Event) (p : MpduPacket) : Nat := (arrivalOrder es).idxOf p.triple

/-- Packets that have arrived, stored in their order of arrival. -/
structure InArrivalOrder (es : List Event) (ps : List MpduPacket) : Prop where
  arrived : ∀ p ∈ ps, p.triple ∈ arrivalOrder es
  ordered : ps.Pairwise fun p q => arrivalIndex es p < arrivalIndex es q

/-- Every destination has one source, which numbers the packets it sends there. -/
structure NumberedByDestination (ps : List MpduPacket) : Prop where
  source : ∀ p ∈ ps, ∀ q ∈ ps, p.staDestId = q.staDestId → p.staSrcId = q.staSrcId
  ids : ps.Pairwise fun p q => p.staDestId = q.staDestId → p.packetId ≠ q.packetId

theorem NumberedByDestination.nodup {ps : List MpduPacket} (h : NumberedByDestination ps) :
    (ps.map MpduPacket.triple).Nodup := by
  refine List.pairwise_map.2 (h.ids.imp fun hids htriple => ?_)
  obtain ⟨-, hdest, hid⟩ : _ = _ ∧ _ = _ ∧ _ = _ := by
    simpa only [MpduPacket.triple, Prod.mk.injEq] using htriple
  exact hids hdest hid

theorem pairwise_idxOf {α : Type} [BEq α] [LawfulBEq α] {as : List α} (h : as.Nodup) :
    as.Pairwise fun a b => as.idxOf a < as.idxOf b := by
  refine List.pairwise_iff_getElem.2 fun i j hi hj hij => ?_
  rw [h.idxOf_getElem i hi, h.idxOf_getElem j hj]
  exact hij

/-- **Retransmission keeps order**: in every state of every run, what a queue
holds for a destination is stored in its order of arrival. -/
theorem retransmission_keeps_order {cfg : MacConfig} {es : List Event} {s : Sim}
    (h : MacRun cfg es s) (hids : NumberedByDestination (accepted (offers es))) (k : MacKey)
    (d : Int) : InArrivalOrder es ((s.mac.perFlowQueues k).filter fun p => p.staDestId = d) := by
  have hsub : (toDest d (s.mac.perFlowQueues k)).Sublist (arrivalOrder es) :=
    (run_queue_sublist h k d).trans (arrivalsTo_sublist d es)
  refine ⟨fun p hp => hsub.subset (List.mem_map.2 ⟨p, hp, rfl⟩), ?_⟩
  have hpos : (arrivalOrder es).Pairwise fun a b =>
      (arrivalOrder es).idxOf a < (arrivalOrder es).idxOf b := pairwise_idxOf hids.nodup
  have hqueue := hpos.sublist hsub
  rw [toDest, List.pairwise_map] at hqueue
  exact hqueue

/-- Two stations behind a channel that loses the first packet sent. -/
def firstDrawLost : MacConfig :=
  { twoStations with
    plProbability := 1 / 10, lossDraws := fun n => if n = 0 then 1 / 20 else 1 }

/-- Two packets for each station, alternating, and the tick in which the access
point transmits to the first one. -/
def alternating : List Event :=
  [.coords 0 200 {}, .coords 0 201 {}, .input 0 (plainPacket 100 200 0),
    .input 0 (plainPacket 101 201 0), .input 0 (plainPacket 100 200 1),
    .input 0 (plainPacket 101 201 1), .tick 9000 .insertion]

/-- Packet 0 to station 200 fails and goes back in front of those to station 201. -/
theorem retransmission_keeps_order_alternating :
    ∃ s, MacRun firstDrawLost alternating s ∧
      NumberedByDestination (accepted (offers alternating)) ∧
      (s.mac.perFlowQueues ⟨-1, .bestEffort, 0⟩).map MpduPacket.triple
        = [(100, 200, 0), (101, 201, 0), (101, 201, 1)] ∧
      ∀ d, InArrivalOrder alternating
        ((s.mac.perFlowQueues ⟨-1, .bestEffort, 0⟩).filter fun p => p.staDestId = d) := by
  have hrun : (runs (step firstDrawLost) (Sim.new firstDrawLost) alternating).map (fun s =>
      (s.mac.perFlowQueues ⟨-1, .bestEffort, 0⟩).map MpduPacket.triple)
        = some [(100, 200, 0), (101, 201, 0), (101, 201, 1)] := by
    decide +kernel
  have hids : NumberedByDestination (accepted (offers alternating)) :=
    ⟨by decide +kernel, by decide +kernel⟩
  obtain ⟨s, hmac, hqueue⟩ := exists_run_of_map hrun
  exact ⟨s, hmac, hids, hqueue, fun d => retransmission_keeps_order hmac hids _ d⟩

end SiestaVR.Mac
