import SiestaVR.Stream.Reassembly

/-!
# Loss accounting

A video frame that is not complete at its deadline is given up by a sweep, which
records how many of its shards are missing; a flush reports the records. The socket
keeps no memory of the frames it has handed on or given up. So the accounts are only
right as long as no shard calls for such a memory, and as long as sweeps come in
time for every shard that does:

- a shard of a frame that was given up or handed on opens the frame again, and the
  frame is reported another time, or reported lost after it was delivered,
- a shard that arrives after the deadline is counted like one before it when the
  sweep has not come yet, because `recv` sweeps last,
- the loss table is shared by all streams.

`losses_not_exact` has runs for all of them. `losses_exact` is the positive side: in
every run whose shards are `Punctual`, each frame is reported at most once, with
exactly the shards that did not arrive before its deadline, and never when it was
delivered.

The invariant is `Accounts`: every frame is in progress, in the loss table, reported or
delivered, one at a time, and what its entry counts is what arrived. Filing, sweeping, flushing
and reading each keep it, and `Accounts.step` puts them together.
-/

namespace SiestaVR.Stream

open Lib

/-! ## What was sent and what arrived -/

/-- The video frames of a session: what the sender sends under each index, and when
it was generated. -/
structure Broadcast (cfg : SocketConfig) where
  sender : StreamSender
  frame : UInt32 → Buffer
  stamp : UInt32 → UInt32
  isVideo : sender.streamId = video
  shardable : ∀ f, Shardable cfg { sender with nextPacketIndex := f } (frame f)

namespace Broadcast

variable {cfg : SocketConfig} (B : Broadcast cfg)

/-- The number of shards of a frame. -/
def expected (f : UInt32) : Nat := B.sender.shardsFor (B.frame f)

/-- A shard of a frame. -/
def shard (f : UInt32) (k : Nat) : Bytes :=
  { B.sender with nextPacketIndex := f }.shard (B.stamp f) (B.frame f) k

/-- The deadline of a frame whose first shard arrives at `now`. -/
def deadlineAt (f : UInt32) (now : Nat) : Option Nat :=
  if cfg.anchorFirst then some (now + cfg.deadline)
  else (cfg.genInstant (B.stamp f)).map (· + cfg.deadline)

end Broadcast

/-- The time and the index of a shard of video frame `f`. -/
def Event.arrival (f : UInt32) : Event → Option (Nat × Nat)
  | .shard message now _ =>
    if (headerOf message).streamId = video ∧ (headerOf message).packetIndex = f then
      some (now, (headerOf message).shardIndex)
    else none
  | _ => none

/-- The shards of video frame `f` that have arrived. -/
def arrivalsOf (es : List Event) (f : UInt32) : List (Nat × Nat) :=
  es.filterMap (Event.arrival f)

/-- The deadline of a frame: the one its first shard gives it. -/
def Broadcast.deadlineOf {cfg : SocketConfig} (B : Broadcast cfg) (es : List Event) (f : UInt32) :
    Option Nat :=
  (arrivalsOf es f).head?.bind fun a => B.deadlineAt f a.1

/-- The distinct shards of a frame that have arrived before its deadline. -/
def Broadcast.inTime {cfg : SocketConfig} (B : Broadcast cfg) (es : List Event) (f : UInt32) :
    Finset Nat :=
  (((arrivalsOf es f).filter fun a => (B.deadlineOf es f).all (a.1 < ·)).map (·.2)).toFinset

/-- **Exact accounts**: every frame is reported lost at most once, with the number of
its shards less those that arrived before its deadline, and no frame is both handed
to the application and reported lost. -/
structure ExactLosses {cfg : SocketConfig} (B : Broadcast cfg) (es : List Event) (s : Session) :
    Prop where
  once : (s.reported.map (·.1)).Nodup
  exact_count : ∀ f n, (f, n) ∈ s.reported → n = B.expected f - (B.inTime es f).card
  never_both : ∀ r ∈ sentOf s.socket video, r.index ∉ s.reported.map (·.1)

/-! ## Arrivals of one more event -/

section Arrivals

variable {es : List Event} {e : Event} {f : UInt32}

theorem arrivalsOf_append (es : List Event) (e : Event) (f : UInt32) :
    arrivalsOf (es ++ [e]) f = arrivalsOf es f ++ (e.arrival f).toList := by
  simp only [arrivalsOf, List.filterMap_append]
  cases h : e.arrival f <;> simp [h]

theorem arrivalsOf_of_none (h : e.arrival f = none) :
    arrivalsOf (es ++ [e]) f = arrivalsOf es f := by
  rw [arrivalsOf_append, h, Option.toList_none, List.append_nil]

variable {cfg : SocketConfig} (B : Broadcast cfg)

theorem deadlineOf_of_none (h : e.arrival f = none) :
    B.deadlineOf (es ++ [e]) f = B.deadlineOf es f := by
  rw [Broadcast.deadlineOf, arrivalsOf_of_none h, Broadcast.deadlineOf]

theorem inTime_of_none (h : e.arrival f = none) : B.inTime (es ++ [e]) f = B.inTime es f := by
  rw [Broadcast.inTime, arrivalsOf_of_none h, deadlineOf_of_none B h, Broadcast.inTime]

theorem deadlineOf_append (es : List Event) {now k : Nat} (h : e.arrival f = some (now, k)) :
    B.deadlineOf (es ++ [e]) f =
      if arrivalsOf es f = [] then B.deadlineAt f now else B.deadlineOf es f := by
  rw [Broadcast.deadlineOf, arrivalsOf_append, h, Option.toList_some]
  cases ha : arrivalsOf es f with
  | nil => simp
  | cons a as => simp [Broadcast.deadlineOf, ha]

theorem inTime_append {now k : Nat} (h : e.arrival f = some (now, k))
    (hold : arrivalsOf es f = [] ∨ B.deadlineOf (es ++ [e]) f = B.deadlineOf es f) :
    B.inTime (es ++ [e]) f =
      if (B.deadlineOf (es ++ [e]) f).all (now < ·) then insert k (B.inTime es f)
      else B.inTime es f := by
  have hbefore : B.inTime es f = (((arrivalsOf es f).filter fun a =>
      (B.deadlineOf (es ++ [e]) f).all (a.1 < ·)).map (·.2)).toFinset := by
    rcases hold with hnil | hsame
    · rw [Broadcast.inTime, hnil]
      rfl
    · rw [hsame, Broadcast.inTime]
  rw [hbefore, Broadcast.inTime, arrivalsOf_append, h, Option.toList_some, List.filter_append,
    List.map_append, List.toFinset_append, List.filter_singleton]
  by_cases hin : (B.deadlineOf (es ++ [e]) f).all (now < ·) = true
  · rw [if_pos hin, Finset.insert_eq, Finset.union_comm]
    simp [hin]
  · rw [if_neg hin]
    simp [hin]

end Arrivals

/-! ## The invariant -/

/-- A frame does not appear among the losses reported or the packets handed on. -/
structure Unsettled (s : StreamSocket) (reported : List (UInt32 × Nat)) (f : UInt32) : Prop where
  not_reported : f ∉ reported.map (·.1)
  not_delivered : ∀ r ∈ sentOf s video, r.index ≠ f

/-- The accounts of a socket after some events, with the losses reported so far. A
frame that is in progress, recorded, reported or handed on has had a shard. -/
structure Accounts {cfg : SocketConfig} (B : Broadcast cfg) (es : List Event) (s : StreamSocket)
    (reported : List (UInt32 × Nat)) : Prop where
  tracked : ∀ f p, entryOf s video f = some p → p.idFrame = f ∧
    p.numShardsExpected = B.expected f ∧ p.deadline = B.deadlineOf es f ∧
    p.receivedShardIndices = B.inTime es f
  in_progress : ∀ f p, entryOf s video f = some p → arrivalsOf es f ≠ [] ∧
    s.lostShardsDeadlineMap.lookup f = none ∧ Unsettled s reported f
  recorded : ∀ f n, s.lostShardsDeadlineMap.lookup f = some n → arrivalsOf es f ≠ [] ∧
    n = B.expected f - (B.inTime es f).card ∧ Unsettled s reported f
  reported_exact : ∀ f n, (f, n) ∈ reported → arrivalsOf es f ≠ [] ∧
    n = B.expected f - (B.inTime es f).card ∧ ∀ r ∈ sentOf s video, r.index ≠ f
  delivered : ∀ r ∈ sentOf s video, arrivalsOf es r.index ≠ []
  once : (reported.map (·.1)).Nodup

namespace Accounts

variable {cfg : SocketConfig} {B : Broadcast cfg} {es : List Event} {s s' : StreamSocket}
  {reported : List (UInt32 × Nat)}

/-- An event that brings no video shard leaves the accounts as they are. -/
theorem silent (h : Accounts B es s reported) {e : Event} (he : ∀ f, e.arrival f = none) :
    Accounts B (es ++ [e]) s reported where
  tracked := by
    intro f p hp
    rw [deadlineOf_of_none B (he f), inTime_of_none B (he f)]
    exact h.tracked f p hp
  in_progress := by
    intro f p hp
    rw [arrivalsOf_of_none (he f)]
    exact h.in_progress f p hp
  recorded := by
    intro f n hn
    rw [arrivalsOf_of_none (he f), inTime_of_none B (he f)]
    exact h.recorded f n hn
  reported_exact := by
    intro f n hn
    rw [arrivalsOf_of_none (he f), inTime_of_none B (he f)]
    exact h.reported_exact f n hn
  delivered := by
    intro r hr
    rw [arrivalsOf_of_none (he _)]
    exact h.delivered r hr
  once := h.once

/-- Giving up packets without recording them does not upset the accounts. -/
theorem fewer (h : Accounts B es s reported)
    (hentry : ∀ f p, entryOf s' video f = some p → entryOf s video f = some p)
    (hsent : sentOf s' video = sentOf s video)
    (hlost : s'.lostShardsDeadlineMap = s.lostShardsDeadlineMap) :
    Accounts B es s' reported where
  tracked := fun f p hp => h.tracked f p (hentry f p hp)
  in_progress := by
    intro f p hp
    obtain ⟨h₁, h₂, h₃, h₄⟩ := h.in_progress f p (hentry f p hp)
    exact ⟨h₁, hlost ▸ h₂, h₃, hsent ▸ h₄⟩
  recorded := by
    intro f n hn
    obtain ⟨h₁, h₂, h₃, h₄⟩ := h.recorded f n (hlost ▸ hn)
    exact ⟨h₁, h₂, h₃, hsent ▸ h₄⟩
  reported_exact := by
    intro f n hn
    obtain ⟨h₁, h₂, h₃⟩ := h.reported_exact f n hn
    exact ⟨h₁, h₂, hsent ▸ h₃⟩
  delivered := fun r hr => h.delivered r (hsent ▸ hr)
  once := h.once

section Sweep

variable {now : Nat} (h : Accounts B es s reported) (hswept : Swept now s s')
  (hforeign : ∀ sid idx p, sid ≠ video → entryOf s sid idx = some p → p.expired now = false)

include h hforeign

theorem video_of_expired {sid : UInt16} {idx f : UInt32} {p : InProgressPacket}
    (hp : entryOf s sid idx = some p) (hexp : p.expired now = true) (hf : p.idFrame = f) :
    entryOf s video f = some p := by
  subst hf
  by_cases hsid : sid = video
  · subst hsid
    rw [(h.tracked idx p hp).1]
    exact hp
  · rw [hforeign sid idx p hsid hp] at hexp
    cases hexp

include hswept

theorem lookup_swept_of_alive {f : UInt32}
    (hf : ∀ p, entryOf s video f = some p → p.expired now = false) :
    s'.lostShardsDeadlineMap.lookup f = s.lostShardsDeadlineMap.lookup f := by
  refine hswept.lost_kept f fun sid idx p hp hexp hid => ?_
  rw [hf p (h.video_of_expired hforeign hp hexp hid)] at hexp
  cases hexp

theorem lookup_swept_of_expired {f : UInt32} {p : InProgressPacket}
    (hp : entryOf s video f = some p) (hexp : p.expired now = true) :
    s'.lostShardsDeadlineMap.lookup f = some p.shardsLost := by
  refine hswept.lost_new f _ (fun sid idx q hq hqexp hid => ?_)
    ⟨video, f, p, hp, hexp, (h.tracked f p hp).1⟩
  have hsame := h.video_of_expired hforeign hq hqexp hid
  rw [hp] at hsame
  cases hsame
  rfl

/-- **Sweep**: a frame given up at its deadline is recorded with exactly the shards it
misses, as long as no packet of another stream is given up with it. -/
theorem sweep : Accounts B es s' reported := by
  have hentry : ∀ f p, entryOf s' video f = some p →
      entryOf s video f = some p ∧ p.expired now = false := by
    intro f p hp
    rw [hswept.entry] at hp
    obtain ⟨hp, halive⟩ := Option.filter_eq_some_iff.1 hp
    exact ⟨hp, by simpa using halive⟩
  have hsent := hswept.sent video
  constructor
  · exact fun f p hp => h.tracked f p (hentry f p hp).1
  · intro f p hp
    obtain ⟨hp, halive⟩ := hentry f p hp
    obtain ⟨h₁, h₂, h₃, h₄⟩ := h.in_progress f p hp
    refine ⟨h₁, ?_, h₃, hsent ▸ h₄⟩
    rw [h.lookup_swept_of_alive hswept hforeign fun q hq => ?_, h₂]
    rw [hp] at hq
    cases hq
    exact halive
  · intro f n hn
    by_cases hexp : ∃ p, entryOf s video f = some p ∧ p.expired now = true
    · -- given up by this sweep
      obtain ⟨p, hp, hexp⟩ := hexp
      obtain ⟨h₁, -, h₃, h₄⟩ := h.in_progress f p hp
      obtain ⟨-, hcount, -, hreceived⟩ := h.tracked f p hp
      rw [h.lookup_swept_of_expired hswept hforeign hp hexp, Option.some.injEq] at hn
      refine ⟨h₁, ?_, h₃, hsent ▸ h₄⟩
      rw [← hn, InProgressPacket.shardsLost, hcount, hreceived]
    · -- recorded before
      rw [h.lookup_swept_of_alive hswept hforeign fun p hp => by
        by_contra hc
        exact hexp ⟨p, hp, by simpa using hc⟩] at hn
      obtain ⟨h₁, h₂, h₃, h₄⟩ := h.recorded f n hn
      exact ⟨h₁, h₂, h₃, hsent ▸ h₄⟩
  · intro f n hn
    obtain ⟨h₁, h₂, h₃⟩ := h.reported_exact f n hn
    exact ⟨h₁, h₂, hsent ▸ h₃⟩
  · exact fun r hr => h.delivered r (hsent ▸ hr)
  · exact h.once

end Sweep

/-- **Flush**: recorded losses are reported, and no longer recorded. -/
theorem flush (h : Accounts B es s reported)
    (hentry : ∀ f, entryOf s' video f = entryOf s video f)
    (hsent : sentOf s' video = sentOf s video) (hempty : s'.lostShardsDeadlineMap = ∅)
    {losses : List (UInt32 × Nat)}
    (hlosses : ∀ f n, (f, n) ∈ losses → s.lostShardsDeadlineMap.lookup f = some n)
    (hnodup : (losses.map (·.1)).Nodup) : Accounts B es s' (reported ++ losses) where
  tracked := fun f p hp => h.tracked f p (hentry f ▸ hp)
  in_progress := by
    intro f p hp
    obtain ⟨h₁, h₂, h₃, h₄⟩ := h.in_progress f p (hentry f ▸ hp)
    refine ⟨h₁, by rw [hempty, AList.lookup_empty], ?_, hsent ▸ h₄⟩
    rw [List.map_append, List.mem_append]
    -- A frame in progress is not in the loss table, so it is not reported.
    rintro (hold | hnew)
    · exact h₃ hold
    · obtain ⟨⟨f', n⟩, hmem, rfl⟩ := List.mem_map.1 hnew
      rw [hlosses f' n hmem] at h₂
      cases h₂
  recorded := by
    intro f n hn
    rw [hempty, AList.lookup_empty] at hn
    cases hn
  reported_exact := by
    intro f n hn
    rcases List.mem_append.1 hn with hold | hnew
    · obtain ⟨h₁, h₂, h₃⟩ := h.reported_exact f n hold
      exact ⟨h₁, h₂, hsent ▸ h₃⟩
    · obtain ⟨h₁, h₂, -, h₄⟩ := h.recorded f n (hlosses f n hnew)
      exact ⟨h₁, h₂, hsent ▸ h₄⟩
  delivered := fun r hr => h.delivered r (hsent ▸ hr)
  once := by
    rw [List.map_append, List.nodup_append]
    refine ⟨h.once, hnodup, ?_⟩
    rintro f hold f' hnew rfl
    obtain ⟨⟨f', n⟩, hmem, rfl⟩ := List.mem_map.1 hnew
    exact (h.recorded f' n (hlosses f' n hmem)).2.2.not_reported hold

/-- A frame that is in progress, or of which no shard has arrived, is neither
recorded nor reported nor handed on. -/
theorem open_or_new (h : Accounts B es s reported) {f : UInt32}
    (hf : (∃ p, entryOf s video f = some p) ∨ arrivalsOf es f = []) :
    s.lostShardsDeadlineMap.lookup f = none ∧ Unsettled s reported f := by
  rcases hf with ⟨p, hp⟩ | hnew
  · exact (h.in_progress f p hp).2
  · refine ⟨?_, ?_, ?_⟩
    · cases hn : s.lostShardsDeadlineMap.lookup f with
      | none => rfl
      | some n => exact absurd hnew (h.recorded f n hn).1
    · intro hmem
      obtain ⟨⟨f', n⟩, hloss, rfl⟩ := List.mem_map.1 hmem
      exact (h.reported_exact f' n hloss).1 hnew
    · rintro r hr rfl
      exact h.delivered r hr hnew

/-- **A video shard**: if its frame is in progress or new, and what the frame then
holds is what has arrived in time, the accounts stay exact. -/
theorem file (h : Accounts B es s reported) {e : Event} {f : UInt32}
    (harr : ∀ f', f' ≠ f → e.arrival f' = none) (hseen : arrivalsOf (es ++ [e]) f ≠ [])
    (hf : (∃ p, entryOf s video f = some p) ∨ arrivalsOf es f = [])
    (hown : ∀ p, entryOf s' video f = some p → p.idFrame = f ∧
      p.numShardsExpected = B.expected f ∧ p.deadline = B.deadlineOf (es ++ [e]) f ∧
      p.receivedShardIndices = B.inTime (es ++ [e]) f)
    (hothers : ∀ f' p, f' ≠ f → entryOf s' video f' = some p → entryOf s video f' = some p)
    {new : List ReconstructedPacket} (hsent : sentOf s' video = sentOf s video ++ new)
    (hnew : ∀ r ∈ new, r.index = f)
    (hdone : new ≠ [] → entryOf s' video f = none)
    (hlost : s'.lostShardsDeadlineMap = s.lostShardsDeadlineMap) :
    Accounts B (es ++ [e]) s' reported := by
  obtain ⟨hunrecorded, hunreported, hundelivered⟩ := h.open_or_new hf
  -- what is handed on now belongs to `f`, and `f` is neither recorded nor reported
  have hsettled : ∀ f', f' ≠ f → (∀ r ∈ sentOf s video, r.index ≠ f') →
      ∀ r ∈ sentOf s' video, r.index ≠ f' := by
    intro f' hne hold r hr
    rw [hsent] at hr
    rcases List.mem_append.1 hr with hr | hr
    · exact hold r hr
    · rw [hnew r hr]
      exact Ne.symm hne
  have hnotf : ∀ f' n, s.lostShardsDeadlineMap.lookup f' = some n → f' ≠ f := by
    rintro f' n hn rfl
    rw [hunrecorded] at hn
    cases hn
  constructor
  · intro f' p hp
    by_cases hf' : f' = f
    · exact hf' ▸ hown p (hf' ▸ hp)
    · rw [deadlineOf_of_none B (harr f' hf'), inTime_of_none B (harr f' hf')]
      exact h.tracked f' p (hothers f' p hf' hp)
  · intro f' p hp
    by_cases hf' : f' = f
    · subst hf'
      refine ⟨hseen, hlost ▸ hunrecorded, hunreported, ?_⟩
      -- still in progress, so nothing was handed on
      have hnil : new = [] := by
        by_contra hc
        rw [hdone hc] at hp
        cases hp
      rw [hsent, hnil, List.append_nil]
      exact hundelivered
    · obtain ⟨h₁, h₂, h₃, h₄⟩ := h.in_progress f' p (hothers f' p hf' hp)
      rw [arrivalsOf_of_none (harr f' hf'), hlost]
      exact ⟨h₁, h₂, h₃, hsettled f' hf' h₄⟩
  · intro f' n hn
    rw [hlost] at hn
    have hf' := hnotf f' n hn
    obtain ⟨h₁, h₂, h₃, h₄⟩ := h.recorded f' n hn
    rw [arrivalsOf_of_none (harr f' hf'), inTime_of_none B (harr f' hf')]
    exact ⟨h₁, h₂, h₃, hsettled f' hf' h₄⟩
  · intro f' n hn
    have hf' : f' ≠ f := by
      rintro rfl
      exact hunreported (List.mem_map.2 ⟨_, hn, rfl⟩)
    obtain ⟨h₁, h₂, h₃⟩ := h.reported_exact f' n hn
    rw [arrivalsOf_of_none (harr f' hf'), inTime_of_none B (harr f' hf')]
    exact ⟨h₁, h₂, hsettled f' hf' h₃⟩
  · intro r hr
    rw [hsent] at hr
    rcases List.mem_append.1 hr with hr | hr
    · rw [arrivalsOf_append]
      exact fun hc => h.delivered r hr (List.append_eq_nil_iff.1 hc).1
    · rw [hnew r hr]
      exact hseen
  · exact h.once

end Accounts

/-! ## Punctual runs -/

/-- No packet of a stream other than video is past its deadline. -/
def foreignAlive (now : Nat) (s : StreamSocket) : Bool :=
  s.streamRecvComponents.entries.all fun e =>
    e.1 == video || e.2.inProgressPackets.entries.all fun q => !q.2.expired now

variable {now : Nat} {cfg : SocketConfig}

theorem expired_of_foreignAlive {s : StreamSocket} (h : foreignAlive now s = true)
    {sid : UInt16} {idx : UInt32} {p : InProgressPacket} (hsid : sid ≠ video)
    (hp : entryOf s sid idx = some p) : p.expired now = false := by
  obtain ⟨c, hc, hp⟩ := Option.bind_eq_some_iff.1 hp
  have hstream := List.all_eq_true.1 h _ (AList.mem_lookup_iff.1 hc)
  have hpacket : (c.inProgressPackets.entries.all fun q => !q.2.expired now) = true := by
    simpa [hsid] using hstream
  simpa using List.all_eq_true.1 hpacket _ (AList.mem_lookup_iff.1 hp)

/-- The event does not need a memory the socket does not have, given the events before
it and the session it finds:

- a video shard is one that was sent, and its frame is in progress or new,
- it arrives before the deadline of its frame, or repeats a shard received already,
- packets of other streams do not expire, and their shards are well-formed. -/
def Punctual {cfg : SocketConfig} (B : Broadcast cfg) (t : List Event × Session) : Event → Prop
  | .shard message now _ =>
    (headerOf message).streamId ∈ t.2.socket.streamRecvComponents ∧
    foreignAlive now t.2.socket ∧
    ((headerOf message).streamId = video →
      (∃ k < B.expected (headerOf message).packetIndex,
        message = B.shard (headerOf message).packetIndex k) ∧
      (entryOf t.2.socket video (headerOf message).packetIndex).all (fun p =>
        !p.expired now || decide ((headerOf message).shardIndex ∈ p.receivedShardIndices)) ∧
      (entryOf t.2.socket video (headerOf message).packetIndex = none →
        arrivalsOf t.1 (headerOf message).packetIndex = [] ∧
        (B.deadlineAt (headerOf message).packetIndex now).all (now < ·))) ∧
    ((headerOf message).streamId ≠ video → WellFormed message ∧
      (entryOf t.2.socket (headerOf message).streamId (headerOf message).packetIndex = none →
        (packetDeadline cfg now
          ⟨headerOf message, StreamSocket.frameDeadline cfg (headerOf message)⟩).all (now < ·)))
  | .sweep now _ => foreignAlive now t.2.socket
  | .flush _ => True
  | .read _ _ => True

instance {cfg : SocketConfig} (B : Broadcast cfg) (t : List Event × Session) :
    ∀ e, Decidable (Punctual B t e)
  | .shard _ _ _ => inferInstanceAs (Decidable (_ ∧ _ ∧ _ ∧ _))
  | .sweep _ _ => inferInstanceAs (Decidable (_ = true))
  | .flush _ => inferInstanceAs (Decidable True)
  | .read _ _ => inferInstanceAs (Decidable True)

/-- The messages of punctual events are well-formed, the video shards because they
were sent. -/
theorem Punctual.wellFormed {B : Broadcast cfg} {t : List Event × Session}
    {message : Bytes} {order : IterOrder}
    (h : Punctual B t (.shard message now order)) : WellFormed message := by
  obtain ⟨-, -, hvideo, hforeign⟩ := h
  by_cases hsid : (headerOf message).streamId = video
  · obtain ⟨⟨k, hk, hmsg⟩, -⟩ := hvideo hsid
    exact (congrArg WellFormed hmsg).mpr ((B.shardable _).wellFormed_shard _ hk)
  · exact (hforeign hsid).1

theorem expired_eq_false_iff {p : InProgressPacket} :
    p.expired now = false ↔ p.deadline.all (now < ·) = true := by
  cases hd : p.deadline with
  | none => simp [InProgressPacket.expired, hd]
  | some d => simp [InProgressPacket.expired, hd]

namespace Broadcast

variable {cfg : SocketConfig} (B : Broadcast cfg)

theorem headerOf_shard {f : UInt32} {k : Nat} (hk : k < B.expected f) :
    (headerOf (B.shard f k)).streamId = video ∧ (headerOf (B.shard f k)).packetIndex = f ∧
    (headerOf (B.shard f k)).shardsCount = B.expected f ∧
    (headerOf (B.shard f k)).shardIndex = k ∧ (headerOf (B.shard f k)).txInstant = B.stamp f := by
  have h := (B.shardable f).headerOf_shard (B.stamp f) hk
  rw [shard, h]
  exact ⟨B.isVideo, rfl, rfl, rfl, rfl⟩

theorem packetDeadline_shard {f : UInt32} {k : Nat} (hk : k < B.expected f) (now : Nat) :
    packetDeadline cfg now ⟨headerOf (B.shard f k),
      StreamSocket.frameDeadline cfg (headerOf (B.shard f k))⟩ = B.deadlineAt f now := by
  obtain ⟨-, -, -, -, htx⟩ := B.headerOf_shard hk
  rw [packetDeadline, StreamSocket.frameDeadline, htx]
  rfl

end Broadcast

namespace Accounts

variable {cfg : SocketConfig} {B : Broadcast cfg} {es : List Event} {s : StreamSocket}
  {reported : List (UInt32 × Nat)}

/-- The frame of a punctual video shard holds, with the shard, exactly what has arrived
in time. -/
theorem tracked_place (h : Accounts B es s reported) {f : UInt32} {k now : Nat}
    (order : IterOrder) (hk : k < B.expected f)
    (hknown : (entryOf s video f).all (fun p =>
      !p.expired now || decide (k ∈ p.receivedShardIndices)) = true)
    (hnew : entryOf s video f = none →
      arrivalsOf es f = [] ∧ (B.deadlineAt f now).all (now < ·) = true)
    {p : InProgressPacket}
    (hopened : entryOf s video f = some p ∨ entryOf s video f = none ∧
      ∃ buffer, p = .fresh cfg now ⟨headerOf (B.shard f k),
        StreamSocket.frameDeadline cfg (headerOf (B.shard f k))⟩ buffer) :
    p.idFrame = f ∧ p.numShardsExpected = B.expected f ∧
    p.deadline = B.deadlineOf (es ++ [.shard (B.shard f k) now order]) f ∧
    (p.place cfg (B.shard f k)).receivedShardIndices =
      B.inTime (es ++ [.shard (B.shard f k) now order]) f := by
  obtain ⟨hsid, hidx, hcount, hindex, -⟩ := B.headerOf_shard hk
  have harr : (Event.shard (B.shard f k) now order).arrival f = some (now, k) := by
    simp only [Event.arrival, hsid, hidx, hindex, and_self, if_true]
  have hplace : (p.place cfg (B.shard f k)).receivedShardIndices =
      insert k p.receivedShardIndices := by
    simp only [InProgressPacket.place, hindex]
  rw [hplace]
  rcases hopened with hp | ⟨hnone, buffer, rfl⟩
  · obtain ⟨h₁, h₂, h₃, h₄⟩ := h.tracked f p hp
    have hdeadline := deadlineOf_append B es harr
    rw [if_neg (h.in_progress f p hp).1] at hdeadline
    refine ⟨h₁, h₂, h₃.trans hdeadline.symm, ?_⟩
    rw [inTime_append B harr (.inr hdeadline), hdeadline, ← h₃, ← h₄]
    -- either the shard is in time, or it adds nothing
    split
    · rfl
    · rename_i hlate
      rw [hp, Option.all_some, Bool.or_eq_true, decide_eq_true_iff] at hknown
      rcases hknown with halive | hmem
      · exact absurd (expired_eq_false_iff.1 (by simpa using halive)) hlate
      · exact Finset.insert_eq_of_mem hmem
  · obtain ⟨hfirst, hintime⟩ := hnew hnone
    have hdeadline := deadlineOf_append B es harr
    rw [if_pos hfirst] at hdeadline
    refine ⟨hidx, hcount, (B.packetDeadline_shard hk now).trans hdeadline.symm, ?_⟩
    rw [inTime_append B harr (.inl hfirst), hdeadline, if_pos hintime, Broadcast.inTime, hfirst]
    rfl

/-- A punctual video shard, filed. -/
theorem file_shard (h : Accounts B es s reported) {f : UInt32} {k now : Nat}
    {order : IterOrder} (hk : k < B.expected f)
    (hknown : (entryOf s video f).all (fun p =>
      !p.expired now || decide (k ∈ p.receivedShardIndices)) = true)
    (hnew : entryOf s video f = none →
      arrivalsOf es f = [] ∧ (B.deadlineAt f now).all (now < ·) = true)
    {filed : StreamSocket} {p : InProgressPacket} {r : ReconstructedPacket}
    (hfiled : Filed cfg now order (B.shard f k) s filed p r) :
    Accounts B (es ++ [.shard (B.shard f k) now order]) filed reported := by
  obtain ⟨hsid, hidx, -, -, -⟩ := B.headerOf_shard hk
  obtain ⟨hopened, hown, hothers, hsent, ⟨hrindex, -, -⟩, -, -, hlost⟩ := hfiled
  rw [hsid, hidx] at hopened
  rw [hsid, hidx] at hown
  have htracked := h.tracked_place order hk hknown hnew hopened
  -- What `file` asks: an arrival of `f` only, and entries that do not change for other frames.
  refine h.file (f := f) ?_ ?_ ?_ ?_ ?_ (hsent video) ?_ ?_ hlost
  · intro f' hne
    simp only [Event.arrival, hidx]
    rw [if_neg fun hc => hne hc.2.symm]
  · rw [arrivalsOf_append]
    simp [Event.arrival, hsid, hidx]
  · cases hp : entryOf s video f with
    | none => exact .inr (hnew hp).1
    | some q => exact .inl ⟨q, rfl⟩
  · intro q hq
    rw [hown] at hq
    split at hq
    · cases hq
    · cases hq
      exact htracked
  · intro f' q hne hq
    rw [hothers video f' fun hc => hne (hc.2.trans hidx)] at hq
    split at hq
    · cases hq
    · exact hq
  · intro r' hr'
    split at hr'
    · rw [List.mem_singleton.1 hr', hrindex, hidx]
    · exact absurd hr' List.not_mem_nil
  · intro hne
    split at hne
    · rename_i hdone
      rw [hown, if_pos hdone.2]
    · exact absurd rfl hne

theorem file_foreign (h : Accounts B es s reported) {message : Bytes} {now : Nat}
    {order : IterOrder} (hsid : (headerOf message).streamId ≠ video)
    {filed : StreamSocket} {p : InProgressPacket} {r : ReconstructedPacket}
    (hfiled : Filed cfg now order message s filed p r) :
    Accounts B (es ++ [.shard message now order]) filed reported := by
  have hquiet : ∀ f, (Event.shard message now order).arrival f = none := by
    intro f
    simp only [Event.arrival]
    rw [if_neg fun hc => hsid hc.1]
  refine (h.fewer ?_ ?_ hfiled.lost).silent hquiet
  · intro f q hq
    rwa [hfiled.others video f fun hc => hsid hc.1.symm, if_neg fun hc => hsid hc.1.symm] at hq
  · rw [hfiled.sent video, if_neg fun hc => hsid hc.1.symm, List.append_nil]

end Accounts

/-- A shard whose own packet is not expired leaves no expired packet of another stream
behind. -/
theorem Filed.foreign_alive {order : IterOrder}
    {message : Bytes} {s filed : StreamSocket} {p : InProgressPacket} {r : ReconstructedPacket}
    (hfiled : Filed cfg now order message s filed p r) (halive : foreignAlive now s = true)
    (hnew : (headerOf message).streamId ≠ video →
      entryOf s (headerOf message).streamId (headerOf message).packetIndex = none →
      (packetDeadline cfg now
        ⟨headerOf message, StreamSocket.frameDeadline cfg (headerOf message)⟩).all (now < ·) = true)
    (sid : UInt16) (idx : UInt32) (q : InProgressPacket) (hsid : sid ≠ video)
    (hq : entryOf filed sid idx = some q) : q.expired now = false := by
  by_cases hmine : sid = (headerOf message).streamId ∧ idx = (headerOf message).packetIndex
  · obtain ⟨rfl, rfl⟩ := hmine
    rw [hfiled.own] at hq
    split at hq
    · cases hq
    · cases hq
      -- placing the shard has not moved the deadline
      show p.expired now = false
      rcases hfiled.opened with hp | ⟨hnone, buffer, rfl⟩
      · exact expired_of_foreignAlive halive hsid hp
      · exact expired_eq_false_iff.2 (hnew hsid hnone)
  · rw [hfiled.others sid idx hmine] at hq
    split at hq
    · cases hq
    · exact expired_of_foreignAlive halive hsid hq

/-! ## Whole runs -/

open StreamSocket (drained)

theorem mem_drained {order : Shuffle (UInt32 × Nat)} {lost : Table UInt32 Nat} {f : UInt32}
    {n : Nat} : (f, n) ∈ drained order lost ↔ lost.lookup f = some n := by
  rw [drained, Shuffle.mem_order, List.mem_map]
  constructor
  · rintro ⟨⟨f', n'⟩, hmem, h⟩
    cases h
    exact AList.mem_lookup_iff.2 hmem
  · intro h
    exact ⟨⟨f, n⟩, AList.mem_lookup_iff.1 h, rfl⟩

theorem nodup_drained (order : Shuffle (UInt32 × Nat)) (lost : Table UInt32 Nat) :
    ((drained order lost).map (·.1)).Nodup := by
  have hperm := (order.perm (lost.entries.map fun e => (e.1, e.2))).map (·.1)
  rw [drained, hperm.nodup_iff, List.map_map]
  exact lost.keys_nodup

theorem flushLosses_spec (cfg : SocketConfig) (order : Shuffle (UInt32 × Nat)) (s : Session) :
    (flushLosses cfg order s).reported =
      s.reported ++ (drained order s.socket.lostShardsDeadlineMap).take maxDeadlineInStats ∧
    (flushLosses cfg order s).socket.lostShardsDeadlineMap = ∅ := by
  constructor
  · unfold flushLosses
    dsimp only
    split
    · rename_i hframes
      have hnil : drained order s.socket.lostShardsDeadlineMap = [] := List.map_eq_nil_iff.1 hframes
      rw [hnil, List.take_nil, List.append_nil]
      rfl
    · simp only [Session.reported, reportFrameLost, StreamSocket.flushShardsLostDeadline,
        List.flatMap_append, List.flatMap_singleton, DeadlineShardlossStat.losses]
      rw [← List.map_take, ← List.map_take, List.zip_map']
      simp
  · unfold flushLosses
    dsimp only [StreamSocket.flushShardsLostDeadline, reportFrameLost]
    split <;> split <;> rfl

/-- **Step**: a punctual event keeps the accounts. -/
theorem Accounts.step {B : Broadcast cfg} {es : List Event} {s s' : Session} {e : Event}
    (h : s.Idle ∧ Accounts B es s.socket s.reported) (hok : Punctual B (es, s) e)
    (hs : Stream.step cfg s e = some s') :
    s'.Idle ∧ Accounts B (es ++ [e]) s'.socket s'.reported := by
  obtain ⟨hidle, hacc⟩ := h
  cases e with
  | shard message now order =>
    have hwf := hok.wellFormed
    obtain ⟨hsub, halive, hvideo, hforeign⟩ := hok
    obtain ⟨s₁, filed, p, r, hstep, hfiled, hswept, hidle', hreports⟩ :=
      step_shard cfg hidle hwf hsub now order
    rw [hs] at hstep
    cases hstep
    refine ⟨hidle', ?_⟩
    have hreported : s'.reported = s.reported := by
      rw [Session.reported, hreports, Session.reported]
    rw [hreported]
    -- `recv` sweeps last: the accounts are kept by filing the shard, then by the sweep.
    refine Accounts.sweep ?_ hswept (hfiled.foreign_alive halive fun hsid => (hforeign hsid).2)
    by_cases hsid : (headerOf message).streamId = video
    · obtain ⟨⟨k, hk, hmsg⟩, hknown, hnew⟩ := hvideo hsid
      generalize hf : (headerOf message).packetIndex = f at hk hmsg hknown hnew
      subst hmsg
      rw [(B.headerOf_shard hk).2.2.2.1] at hknown
      exact hacc.file_shard hk hknown hnew hfiled
    · exact hacc.file_foreign hsid hfiled
  | sweep now order =>
    cases hs
    have hswept := swept_sweepExpiredDeadlines cfg order now s.socket
    refine ⟨⟨hswept.reading.trans hidle.reading, hidle.channel⟩, ?_⟩
    exact (hacc.sweep hswept fun sid idx p hsid hp => expired_of_foreignAlive hok hsid hp).silent
      fun _ => rfl
  | flush order =>
    cases hs
    have hsame := samePackets_flush cfg order s
    obtain ⟨hreported, hempty⟩ := flushLosses_spec cfg order s
    refine ⟨hsame.idle hidle, Accounts.silent ?_ fun _ => rfl⟩
    rw [hreported]
    refine hacc.flush (hsame.entry video) (hsame.sent video) hempty ?_ ?_
    · intro f n hmem
      exact mem_drained.1 (List.mem_of_mem_take hmem)
    · rw [List.map_take]
      exact (nodup_drained order _).sublist (List.take_sublist _ _)
  | read streamId reader =>
    obtain ⟨hsame, hreports, hlost⟩ := step_read hs
    refine ⟨hsame.idle hidle, Accounts.silent ?_ fun _ => rfl⟩
    rw [Session.reported, hreports]
    exact hacc.fewer (fun f p hp => (hsame.entry video f).symm.trans hp) (hsame.sent video) hlost

/-- After subscribing to some streams, no packet is in progress, handed on or lost. -/
theorem fresh_start (streams : List UInt16) (n : Nat) :
    (Session.start streams n).socket.shardRecvState = none ∧
    (Session.start streams n).socket.lostShardsDeadlineMap = ∅ ∧
    (∀ sid idx, entryOf (Session.start streams n).socket sid idx = none) ∧
    ∀ sid, sentOf (Session.start streams n).socket sid = [] := by
  suffices h : ∀ s : StreamSocket, s.shardRecvState = none → s.lostShardsDeadlineMap = ∅ →
      (∀ sid idx, entryOf s sid idx = none) → (∀ sid, sentOf s sid = []) →
      let s' := streams.foldl (fun s id => s.subscribeToStream id n) s
      s'.shardRecvState = none ∧ s'.lostShardsDeadlineMap = ∅ ∧
        (∀ sid idx, entryOf s' sid idx = none) ∧ ∀ sid, sentOf s' sid = [] from
    h .build rfl rfl (fun _ _ => rfl) (fun _ => rfl)
  induction streams with
  | nil => exact fun s h₁ h₂ h₃ h₄ => ⟨h₁, h₂, h₃, h₄⟩
  | cons id streams ih =>
    intro s h₁ h₂ h₃ h₄
    refine ih (s.subscribeToStream id n) h₁ h₂ ?_ ?_
    · intro sid idx
      rw [entryOf_insert rfl]
      split
      · rfl
      · exact h₃ sid idx
    · intro sid
      rw [sentOf_insert rfl]
      split
      · rfl
      · exact h₄ sid

/-- A new session is idle and has nothing on its accounts. -/
theorem accounts_start (B : Broadcast cfg) (streams : List UInt16) (n : Nat) :
    (Session.start streams n).Idle ∧
      Accounts B [] (Session.start streams n).socket (Session.start streams n).reported := by
  obtain ⟨hreading, hlost, hentry, hsent⟩ := fresh_start streams n
  refine ⟨⟨hreading, rfl⟩, ?_⟩
  constructor
  · intro f p hp
    rw [hentry] at hp
    cases hp
  · intro f p hp
    rw [hentry] at hp
    cases hp
  · intro f k hk
    rw [hlost, AList.lookup_empty] at hk
    cases hk
  · intro f k hk
    exact absurd hk List.not_mem_nil
  · intro r hr
    rw [hsent] at hr
    exact absurd hr List.not_mem_nil
  · exact List.nodup_nil

/-- **Loss accounting is exact in punctual runs**: in every state that a session
reaches by punctual events, each frame has been reported lost at most once, with its
expected shards less the distinct ones received before its deadline, and no frame has
been both handed to the application and reported lost. -/
theorem losses_exact {cfg : SocketConfig} (B : Broadcast cfg) (streams : List UInt16) (n : Nat)
    {es : List Event} {t : List Event × Session}
    (h : Run (traced (step cfg)) (Punctual B) ([], Session.start streams n) es t) :
    ExactLosses B es t.2 := by
  obtain ⟨-, -, hacc⟩ := Run.traced_invariant
    (P := fun es s => s.Idle ∧ Accounts B es s.socket s.reported)
    (accounts_start B streams n) (fun _ _ _ _ hp hok hs => Accounts.step hp hok hs) h
  refine ⟨hacc.once, fun f n hn => (hacc.reported_exact f n hn).2.1, ?_⟩
  intro r hr hmem
  obtain ⟨⟨f, n⟩, hloss, hf⟩ := List.mem_map.1 hmem
  exact (hacc.reported_exact f n hloss).2.2 r hr hf.symm

/-- Every frame is `smallFrame`, in three shards, and generated at time 0. -/
def smallBroadcast : Broadcast smallSocket where
  sender := smallSender
  frame := fun _ => smallFrame
  stamp := fun _ => 0
  isVideo := rfl
  shardable := fun _ => ⟨rfl, by decide, by decide, by decide, by decide, by
    show shardsNeeded 25 8 < 2 ^ 32
    decide⟩

/-- Frame 8 is complete in time, frame 7 misses a shard at the deadline. -/
def punctualArrivals : List Event :=
  let shard := smallBroadcast.shard
  [.shard (shard 7 2) 5 .id, .shard (shard 8 0) 6 .id, .shard (shard 7 2) 7 .id,
    .shard (shard 8 2) 8 .id, .shard (shard 8 1) 9 .id, .read video .new,
    .shard (shard 7 0) 10 .id, .sweep deadlinePackets .id, .flush .id]

theorem losses_exact_small : ∃ t,
    Run (traced (step smallSocket)) (Punctual smallBroadcast) ([], Session.start [video] 5)
      punctualArrivals t ∧
    t.2.reported = [(7, 1)] ∧ ExactLosses smallBroadcast punctualArrivals t.2 := by
  have hruns : (runs (traced (step smallSocket)) ([], Session.start [video] 5)
      punctualArrivals).map (·.2.reported) = some [(7, 1)] := by decide +kernel
  obtain ⟨t, ht, hreported⟩ := Option.map_eq_some_iff.1 hruns
  have hrun : Run (traced (step smallSocket)) (Punctual smallBroadcast)
      ([], Session.start [video] 5) punctualArrivals t := .of_runs (by decide +kernel) ht
  exact ⟨t, hrun, hreported, losses_exact smallBroadcast [video] 5 hrun⟩

/-! ## Runs with a late shard -/

/-- Frame 7 is given up at its deadline and reported; then its last shard comes. -/
def arrivalAfterExpiry : List Event :=
  let shard := smallBroadcast.shard 7
  [.shard (shard 2) 5 .id, .shard (shard 0) 6 .id, .sweep deadlinePackets .id, .flush .id,
    .shard (shard 1) (deadlinePackets + 1) .id, .flush .id]

/-- The second shard of frame 7 comes at its deadline, and no sweep before it. -/
def arrivalBeforeSweep : List Event :=
  let shard := smallBroadcast.shard 7
  [.shard (shard 0) 5 .id, .shard (shard 1) deadlinePackets .id, .flush .id]

/-- Frame 7 is complete and read by the application; then a shard of it comes again. -/
def arrivalAfterDelivery : List Event :=
  let shard := smallBroadcast.shard 7
  [.shard (shard 0) 5 .id, .shard (shard 1) 6 .id, .shard (shard 2) 7 .id, .read video .new,
    .shard (shard 0) 8 .id, .sweep deadlinePackets .id, .flush .id]

/-- Frame 7 is complete; a bandwidth probe with index 7 misses shards at its deadline. -/
def probeExpiry : List Event :=
  let shard := smallBroadcast.shard 7
  [.shard (shard 0) 5 .id, .shard (shard 1) 6 .id, .shard (shard 2) 7 .id,
    .shard ({ smallSender with streamId := fovoptixBwProbe }.shard 0 smallFrame 0) 8 .id,
    .sweep deadlinePackets .id, .flush .id]

/-- **The accounts are not exact in every run**: one frame is reported twice, with one
and with two lost shards; a frame with two shards missing at its deadline is reported
with one; and a frame that was delivered is reported lost, after a duplicate or because
of a probe. -/
theorem losses_not_exact :
    (runs (step smallSocket) (Session.start [video] 5) arrivalAfterExpiry).map Session.reported =
      some [(7, 1), (7, 2)] ∧
    ((runs (step smallSocket) (Session.start [video] 5) arrivalBeforeSweep).map Session.reported =
        some [(7, 1)] ∧
      smallBroadcast.expected 7 - (smallBroadcast.inTime arrivalBeforeSweep 7).card = 2) ∧
    (runs (step smallSocket) (Session.start [video] 5) arrivalAfterDelivery).map
        (fun s => ((sentOf s.socket video).map (·.index), s.reported)) =
      some ([7], [(7, 2)]) ∧
    (runs (step smallSocket) (Session.start [video, fovoptixBwProbe] 5) probeExpiry).map
        (fun s => ((sentOf s.socket video).map (·.index), s.reported)) =
      some ([7], [(7, 2)]) := by
  refine ⟨?_, ⟨?_, ?_⟩, ?_, ?_⟩ <;> decide +kernel

end SiestaVR.Stream
