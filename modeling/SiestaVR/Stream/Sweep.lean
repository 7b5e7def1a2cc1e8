import SiestaVR.Stream.Session

/-!
# What a sweep does

The tables of a socket are looked at through three functions: the packet in
progress under a stream and an index (`entryOf`), the packets handed to the
application on a stream (`sentOf`), and the loss table. `Swept` says what a
deadline sweep does to each of them, whatever the order in which it visits the
streams and packets:

- the packets whose deadline has passed are no longer in progress, the others
  are,
- nothing is handed to the application,
- a frame of an expired packet is recorded with the shards it misses, and every
  other entry of the loss table stays. Two expired packets of different streams
  with one index share an entry, so its value is only determined when they agree.
-/

namespace SiestaVR.Stream

open Lib

/-- The packet in progress under a stream and an index. -/
def entryOf (s : StreamSocket) (streamId : UInt16) (index : UInt32) : Option InProgressPacket :=
  (s.streamRecvComponents.lookup streamId).bind fun c => c.inProgressPackets.lookup index

/-- The packets handed to the application on a stream so far. -/
def sentOf (s : StreamSocket) (streamId : UInt16) : List ReconstructedPacket :=
  ((s.streamRecvComponents.lookup streamId).map fun c => c.packetQueue.sent).getD []

section Insert

variable {s s' : StreamSocket} {streamId : UInt16} {c : StreamRecvComponents}

theorem entryOf_of_lookup (h : s.streamRecvComponents.lookup streamId = some c) (index : UInt32) :
    entryOf s streamId index = c.inProgressPackets.lookup index := by
  rw [entryOf, h, Option.bind_some]

theorem sentOf_of_lookup (h : s.streamRecvComponents.lookup streamId = some c) :
    sentOf s streamId = c.packetQueue.sent := by
  rw [sentOf, h, Option.map_some, Option.getD_some]

/-- Replacing the components of one stream leaves the packets of the others alone. -/
theorem entryOf_insert (h : s'.streamRecvComponents = s.streamRecvComponents.insert streamId c)
    (sid : UInt16) (index : UInt32) : entryOf s' sid index =
      if sid = streamId then c.inProgressPackets.lookup index else entryOf s sid index := by
  rw [entryOf, h, Table.lookup_insert_ite]
  split
  · rfl
  · rw [entryOf]

theorem sentOf_insert (h : s'.streamRecvComponents = s.streamRecvComponents.insert streamId c)
    (sid : UInt16) : sentOf s' sid =
      if sid = streamId then c.packetQueue.sent else sentOf s sid := by
  rw [sentOf, h, Table.lookup_insert_ite]
  split
  · rfl
  · rw [sentOf]

end Insert

/-! ## One stream -/

namespace StreamRecvComponents

variable {c : StreamRecvComponents} {order : IterOrder} {now : Nat}

theorem mem_packetsWhere {cond : UInt32 → InProgressPacket → Bool} {k : UInt32}
    {p : InProgressPacket} : (k, p) ∈ c.packetsWhere order cond ↔
      c.inProgressPackets.lookup k = some p ∧ cond k p = true := by
  simp only [packetsWhere, List.mem_filterMap, Shuffle.mem_order, Option.bind_eq_some_iff,
    Option.ite_none_right_eq_some]
  constructor
  · rintro ⟨k', -, p', hp', hcond, h⟩
    cases h
    exact ⟨hp', hcond⟩
  · rintro ⟨hp, hcond⟩
    have hmem : k ∈ c.inProgressPackets :=
      AList.lookup_isSome.1 (by rw [hp]; rfl)
    exact ⟨k, AList.mem_keys.1 hmem, p, hp, hcond, rfl⟩

theorem mem_expiredPackets {k : UInt32} {p : InProgressPacket} :
    (k, p) ∈ c.expiredPackets order now ↔
      c.inProgressPackets.lookup k = some p ∧ p.expired now = true :=
  mem_packetsWhere

/-- Dropping the expired packets keeps exactly the others. -/
theorem lookup_dropPackets_expired (k : UInt32) :
    (c.dropPackets (c.expiredPackets order now)).inProgressPackets.lookup k =
      (c.inProgressPackets.lookup k).filter fun p => !p.expired now := by
  simp only [dropPackets, Table.lookup_eraseAll]
  cases hk : c.inProgressPackets.lookup k with
  | none => simp
  | some p =>
    have hmem : k ∈ (c.expiredPackets order now).map (·.1) ↔ p.expired now = true := by
      rw [List.mem_map]
      constructor
      · rintro ⟨⟨k', p'⟩, hmem, rfl⟩
        obtain ⟨hp', hexp⟩ := mem_expiredPackets.1 hmem
        rw [hk] at hp'
        cases hp'
        exact hexp
      · intro hexp
        exact ⟨(k, p), mem_expiredPackets.2 ⟨hk, hexp⟩, rfl⟩
    by_cases hexp : p.expired now = true
    · rw [if_pos (hmem.2 hexp)]
      simp [Option.filter, hexp]
    · rw [if_neg (fun h => hexp (hmem.1 h))]
      simp [Option.filter, hexp]

end StreamRecvComponents

/-! ## A sweep over some streams -/

/-- `s'` is `s` after a sweep over the streams of `l`. -/
structure SweptOver (now : Nat) (l : List UInt16) (s s' : StreamSocket) : Prop where
  entry : ∀ sid idx, entryOf s' sid idx =
    if sid ∈ l then (entryOf s sid idx).filter fun p => !p.expired now else entryOf s sid idx
  sent : ∀ sid, sentOf s' sid = sentOf s sid
  subscribed : ∀ sid, sid ∈ s'.streamRecvComponents ↔ sid ∈ s.streamRecvComponents
  reading : s'.shardRecvState = s.shardRecvState
  lost_kept : ∀ f, (∀ sid ∈ l, ∀ idx p, entryOf s sid idx = some p → p.expired now = true →
      p.idFrame ≠ f) →
    s'.lostShardsDeadlineMap.lookup f = s.lostShardsDeadlineMap.lookup f
  lost_new : ∀ f n, (∀ sid ∈ l, ∀ idx p, entryOf s sid idx = some p → p.expired now = true →
      p.idFrame = f → p.shardsLost = n) →
    (∃ sid ∈ l, ∃ idx p, entryOf s sid idx = some p ∧ p.expired now = true ∧ p.idFrame = f) →
    s'.lostShardsDeadlineMap.lookup f = some n
  recorded : ∀ f, f ∈ s'.lostShardsDeadlineMap ↔ f ∈ s.lostShardsDeadlineMap ∨
    ∃ sid ∈ l, ∃ idx p, entryOf s sid idx = some p ∧ p.expired now = true ∧ p.idFrame = f

theorem SweptOver.nil (now : Nat) (s : StreamSocket) : SweptOver now [] s s where
  entry := by simp
  sent := fun _ => rfl
  subscribed := fun _ => Iff.rfl
  reading := rfl
  lost_kept := fun _ _ => rfl
  lost_new := by simp
  recorded := by simp

/-- A stream not subscribed to has no packets. -/
theorem SweptOver.unknown (now : Nat) {s : StreamSocket} {sid : UInt16}
    (h : s.streamRecvComponents.lookup sid = none) : SweptOver now [sid] s s where
  entry := by
    intro sid' idx
    by_cases hsid : sid' = sid
    · subst hsid
      simp [entryOf, h]
    · simp [hsid]
  sent := fun _ => rfl
  subscribed := fun _ => Iff.rfl
  reading := rfl
  lost_kept := fun _ _ => rfl
  lost_new := by
    rintro f n - ⟨sid', hmem, idx, p, hp, -⟩
    rw [List.mem_singleton.1 hmem, entryOf, h] at hp
    cases hp
  recorded := by
    intro f
    constructor
    · exact Or.inl
    · rintro (hf | ⟨sid', hmem, idx, p, hp, -⟩)
      · exact hf
      · rw [List.mem_singleton.1 hmem, entryOf, h] at hp
        cases hp

section SweepStream

variable {s : StreamSocket} {sid : UInt16} {c : StreamRecvComponents}

theorem sweepStream_streams (hc : s.streamRecvComponents.lookup sid = some c) (cfg : SocketConfig)
    (order : IterOrder) (now : Nat) : (s.sweepStream cfg order now sid).streamRecvComponents =
      s.streamRecvComponents.insert sid (c.dropPackets (c.expiredPackets order now)) := by
  simp only [StreamSocket.sweepStream, hc, StreamSocket.recordLost]

theorem sweepStream_lost (hc : s.streamRecvComponents.lookup sid = some c) (cfg : SocketConfig)
    (order : IterOrder) (now : Nat) : (s.sweepStream cfg order now sid).lostShardsDeadlineMap =
      Table.insertAll (·.2.idFrame) (·.2.shardsLost) (c.expiredPackets order now)
        s.lostShardsDeadlineMap := by
  simp only [StreamSocket.sweepStream, hc, StreamSocket.recordLost]

theorem mem_expiredPackets_entryOf (hc : s.streamRecvComponents.lookup sid = some c)
    {order : IterOrder} {now : Nat} {k : UInt32} {p : InProgressPacket} :
    (k, p) ∈ c.expiredPackets order now ↔ entryOf s sid k = some p ∧ p.expired now = true := by
  rw [StreamRecvComponents.mem_expiredPackets, entryOf_of_lookup hc]

end SweepStream

/-- One round of the outer loop. -/
theorem sweptOver_sweepStream (cfg : SocketConfig) (order : IterOrder) (now : Nat)
    (s : StreamSocket) (sid : UInt16) :
    SweptOver now [sid] s (s.sweepStream cfg order now sid) := by
  cases hc : s.streamRecvComponents.lookup sid with
  | none =>
    rw [StreamSocket.sweepStream, hc]
    exact .unknown now hc
  | some c =>
    have hstreams := sweepStream_streams hc cfg order now
    have hlost := sweepStream_lost hc cfg order now
    constructor
    · intro sid' idx
      rw [entryOf_insert hstreams]
      by_cases hsid : sid' = sid
      · rw [if_pos hsid, if_pos (by simp [hsid]),
          StreamRecvComponents.lookup_dropPackets_expired, hsid, entryOf_of_lookup hc]
      · rw [if_neg hsid, if_neg (by simpa using hsid)]
    · intro sid'
      rw [sentOf_insert hstreams]
      split
      · rename_i hsid
        rw [hsid, sentOf_of_lookup hc]
        rfl
      · rfl
    · intro sid'
      rw [hstreams]
      exact Table.mem_insert_of_lookup hc _ sid'
    · simp only [StreamSocket.sweepStream, hc, StreamSocket.recordLost]
    · intro f hf
      rw [hlost]
      apply Table.lookup_insertAll_of_ne
      rintro ⟨k, p⟩ hmem
      obtain ⟨hp, hexp⟩ := (mem_expiredPackets_entryOf hc).1 hmem
      exact hf sid List.mem_cons_self k p hp hexp
    -- Packets that expire under one frame agree on `n`, so the last entry made has it too.
    · rintro f n hagree ⟨sid', hmem, idx, p, hp, hexp, rfl⟩
      obtain rfl := List.mem_singleton.1 hmem
      rw [hlost]
      apply Table.lookup_insertAll_of_mem
      · exact ⟨(idx, p), (mem_expiredPackets_entryOf hc).2 ⟨hp, hexp⟩, rfl⟩
      · rintro ⟨k, q⟩ hq hkey
        obtain ⟨hq, hqexp⟩ := (mem_expiredPackets_entryOf hc).1 hq
        exact hagree sid' List.mem_cons_self k q hq hqexp hkey
    · intro f
      rw [hlost, Table.mem_insertAll]
      refine or_congr_right ?_
      constructor
      · rintro ⟨⟨k, p⟩, hmem, hf⟩
        obtain ⟨hp, hexp⟩ := (mem_expiredPackets_entryOf hc).1 hmem
        exact ⟨sid, List.mem_cons_self, k, p, hp, hexp, hf⟩
      · rintro ⟨sid', hmem, k, p, hp, hexp, hf⟩
        obtain rfl := List.mem_singleton.1 hmem
        exact ⟨(k, p), (mem_expiredPackets_entryOf hc).2 ⟨hp, hexp⟩, hf⟩

theorem SweptOver.entry_before {now : Nat} {l : List UInt16} {s s' : StreamSocket}
    (h : SweptOver now l s s') {sid : UInt16} {idx : UInt32} {p : InProgressPacket}
    (hp : entryOf s' sid idx = some p) : entryOf s sid idx = some p := by
  rw [h.entry] at hp
  split at hp
  · exact (Option.filter_eq_some_iff.1 hp).1
  · exact hp

/-- What expires under a frame in the streams `a :: l` is in stream `a`, or is still there when
the others are visited. -/
theorem SweptOver.expired_cons {now : Nat} {a : UInt16} {l : List UInt16} {s s₁ : StreamSocket}
    (h : SweptOver now [a] s s₁) (f : UInt32) :
    (∃ sid ∈ a :: l, ∃ idx p, entryOf s sid idx = some p ∧ p.expired now = true ∧ p.idFrame = f) ↔
      (∃ sid ∈ [a], ∃ idx p, entryOf s sid idx = some p ∧ p.expired now = true ∧ p.idFrame = f) ∨
      ∃ sid ∈ l, ∃ idx p, entryOf s₁ sid idx = some p ∧ p.expired now = true ∧ p.idFrame = f := by
  constructor
  · rintro ⟨sid, hsid, idx, p, hp, hrest⟩
    by_cases ha : sid = a
    · exact .inl ⟨sid, List.mem_singleton.2 ha, idx, p, hp, hrest⟩
    · have hl : sid ∈ l := (List.mem_cons.1 hsid).resolve_left ha
      refine .inr ⟨sid, hl, idx, p, ?_, hrest⟩
      rw [h.entry, if_neg (by simpa using ha)]
      exact hp
  · rintro (⟨sid, hsid, hp⟩ | ⟨sid, hsid, idx, p, hp, hrest⟩)
    · exact ⟨sid, List.mem_cons.2 (.inl (List.mem_singleton.1 hsid)), hp⟩
    · exact ⟨sid, List.mem_cons_of_mem _ hsid, idx, p, h.entry_before hp, hrest⟩

theorem SweptOver.cons {now : Nat} {a : UInt16} {l : List UInt16} {s s₁ s₂ : StreamSocket}
    (h₁ : SweptOver now [a] s s₁) (h₂ : SweptOver now l s₁ s₂) :
    SweptOver now (a :: l) s s₂ where
  entry := by
    intro sid idx
    rw [h₂.entry, h₁.entry]
    by_cases ha : sid = a
    · by_cases hl : sid ∈ l
      · -- visited twice: the second time nothing is left to expire
        simp [ha, Option.filter_filter]
      · simp [ha]
    · simp [ha]
  sent := fun sid => (h₂.sent sid).trans (h₁.sent sid)
  subscribed := fun sid => (h₂.subscribed sid).trans (h₁.subscribed sid)
  reading := h₂.reading.trans h₁.reading
  lost_kept := by
    intro f hf
    rw [h₂.lost_kept f fun sid hsid idx p hp =>
      hf sid (List.mem_cons_of_mem _ hsid) idx p (h₁.entry_before hp)]
    refine h₁.lost_kept f fun sid hsid => ?_
    rw [List.mem_singleton.1 hsid]
    exact hf a List.mem_cons_self
  lost_new := by
    intro f n hagree hexpired
    by_cases hlater : ∃ sid ∈ l, ∃ idx p, entryOf s₁ sid idx = some p ∧ p.expired now = true ∧
        p.idFrame = f
    · exact h₂.lost_new f n (fun sid hsid idx p hp =>
        hagree sid (List.mem_cons_of_mem _ hsid) idx p (h₁.entry_before hp)) hlater
    · -- nothing expires later under this frame, so the entry of stream `a` stays
      rw [h₂.lost_kept f fun sid hsid idx p hp hexp hf => hlater ⟨sid, hsid, idx, p, hp, hexp, hf⟩]
      refine h₁.lost_new f n (fun sid hsid => ?_)
        (((h₁.expired_cons f).1 hexpired).resolve_right hlater)
      rw [List.mem_singleton.1 hsid]
      exact hagree a List.mem_cons_self
  recorded := by
    intro f
    rw [h₂.recorded, h₁.recorded, or_assoc]
    exact or_congr_right (h₁.expired_cons f).symm

theorem sweptOver_foldl (cfg : SocketConfig) (order : IterOrder) (now : Nat) (l : List UInt16)
    (s : StreamSocket) :
    SweptOver now l s (l.foldl (StreamSocket.sweepStream cfg order now) s) := by
  induction l generalizing s with
  | nil => exact .nil now s
  | cons a l ih => exact (sweptOver_sweepStream cfg order now s a).cons (ih _)

/-! ## The whole sweep -/

/-- `s'` is `s` after a sweep over all streams. -/
structure Swept (now : Nat) (s s' : StreamSocket) : Prop where
  entry : ∀ sid idx, entryOf s' sid idx = (entryOf s sid idx).filter fun p => !p.expired now
  sent : ∀ sid, sentOf s' sid = sentOf s sid
  subscribed : ∀ sid, sid ∈ s'.streamRecvComponents ↔ sid ∈ s.streamRecvComponents
  reading : s'.shardRecvState = s.shardRecvState
  lost_kept : ∀ f, (∀ sid idx p, entryOf s sid idx = some p → p.expired now = true →
      p.idFrame ≠ f) →
    s'.lostShardsDeadlineMap.lookup f = s.lostShardsDeadlineMap.lookup f
  lost_new : ∀ f n, (∀ sid idx p, entryOf s sid idx = some p → p.expired now = true →
      p.idFrame = f → p.shardsLost = n) →
    (∃ sid idx p, entryOf s sid idx = some p ∧ p.expired now = true ∧ p.idFrame = f) →
    s'.lostShardsDeadlineMap.lookup f = some n
  recorded : ∀ f, f ∈ s'.lostShardsDeadlineMap ↔ f ∈ s.lostShardsDeadlineMap ∨
    ∃ sid idx p, entryOf s sid idx = some p ∧ p.expired now = true ∧ p.idFrame = f

theorem subscribed_of_entryOf {s : StreamSocket} {sid : UInt16} {idx : UInt32}
    {p : InProgressPacket} (h : entryOf s sid idx = some p) : sid ∈ s.streamRecvComponents := by
  obtain ⟨c, hc, -⟩ := Option.bind_eq_some_iff.1 h
  exact AList.lookup_isSome.1 (by rw [hc]; rfl)

/-- **Effect of a sweep.** -/
theorem swept_sweepExpiredDeadlines (cfg : SocketConfig) (order : IterOrder) (now : Nat)
    (s : StreamSocket) : Swept now s (s.sweepExpiredDeadlines cfg order now) := by
  have h := sweptOver_foldl cfg order now (order.streams.order s.streamRecvComponents.keys) s
  have hvisited : ∀ {sid idx p}, entryOf s sid idx = some p →
      sid ∈ order.streams.order s.streamRecvComponents.keys := by
    intro sid idx p hp
    rw [Shuffle.mem_order]
    exact AList.mem_keys.1 (subscribed_of_entryOf hp)
  constructor
  · intro sid idx
    show entryOf (List.foldl _ _ _) sid idx = _
    rw [h.entry]
    cases hp : entryOf s sid idx with
    | none => simp
    | some p => rw [if_pos (hvisited hp)]
  · exact h.sent
  · exact h.subscribed
  · exact h.reading
  · exact fun f hf => h.lost_kept f fun sid _ => hf sid
  · rintro f n hagree ⟨sid, idx, p, hp, hexp⟩
    exact h.lost_new f n (fun sid _ => hagree sid) ⟨sid, hvisited hp, idx, p, hp, hexp⟩
  · intro f
    refine (h.recorded f).trans (or_congr_right ?_)
    constructor
    · rintro ⟨sid, -, hp⟩
      exact ⟨sid, hp⟩
    · rintro ⟨sid, idx, p, hp, hrest⟩
      exact ⟨sid, hvisited hp, idx, p, hp, hrest⟩

end SiestaVR.Stream
