import SiestaVR.Stream.LossAccounting

/-!
# Complete loss reporting

Every video frame of which a shard has arrived should stay on the books: in progress,
handed to the application, or recorded as lost, and what is recorded should be
reported. A frame leaves the packets in progress on three ways, by completion, by a
sweep, and by being recycled for its buffer. The third one leaves no record. And a
report has room for `maxDeadlineInStats` frames only, while the loss table is emptied
for it whatever its size.

`loss_reporting_incomplete` has a run for each gap. `loss_reporting_complete` says
that there is no other: in every run that recycles no video frame and in which no
flush finds more than ten entries, nothing is lost from the books.
-/

namespace SiestaVR.Stream

open Lib

/-- Frame `f` was in the loss table at some time in the run of `es`. -/
def Recorded (cfg : SocketConfig) (s₀ : Session) (es : List Event) (f : UInt32) : Prop :=
  ∃ es₁ ∈ es.inits, ∃ s₁ ∈ runs (step cfg) s₀ es₁, f ∈ s₁.socket.lostShardsDeadlineMap

instance (cfg : SocketConfig) (s₀ : Session) (es : List Event) (f : UInt32) :
    Decidable (Recorded cfg s₀ es f) :=
  inferInstanceAs (Decidable (∃ es₁ ∈ es.inits, ∃ s₁ ∈ runs (step cfg) s₀ es₁,
    f ∈ s₁.socket.lostShardsDeadlineMap))

/-- The video frame is in progress or has been handed to the application. -/
def Session.Held (s : Session) (f : UInt32) : Prop :=
  (∃ p, entryOf s.socket video f = some p) ∨ ∃ r ∈ sentOf s.socket video, r.index = f

/-- The frame is in the loss table or in a report. -/
def Session.Lost (s : Session) (f : UInt32) : Prop :=
  f ∈ s.socket.lostShardsDeadlineMap ∨ f ∈ s.reported.map (·.1)

/-- **Complete reports**, after the events `es`: a frame with a shard received is in
progress, handed on or was recorded; a frame that was recorded is reported or waits in
the table; and it no longer waits once a flush has come after it. -/
structure LossesComplete (cfg : SocketConfig) (s₀ : Session) (es : List Event) (s : Session) :
    Prop where
  accounted : ∀ f, arrivalsOf es f ≠ [] → s.Held f ∨ Recorded cfg s₀ es f
  waiting : ∀ f, Recorded cfg s₀ es f → s.Lost f
  reported : ∀ es₁ order es₂, es = es₁ ++ Event.flush order :: es₂ →
    ∀ f, Recorded cfg s₀ es₁ f → f ∈ s.reported.map (·.1)

/-- The event drops no frame from the books, given the session it finds:

- a shard is well-formed and of a stream subscribed to, and if it opens a video frame
  then not with the buffer of one in progress,
- what a flush finds fits one report. -/
def Bookable (s : Session) : Event → Prop
  | .shard message _ order =>
    WellFormed message ∧ (headerOf message).streamId ∈ s.socket.streamRecvComponents ∧
    ((headerOf message).streamId = video →
      recycledBy s.socket order (headerOf message) = none)
  | .sweep _ _ => True
  | .flush _ => s.socket.lostShardsDeadlineMap.entries.length ≤ maxDeadlineInStats
  | .read _ _ => True

instance (s : Session) : ∀ e, Decidable (Bookable s e)
  | .shard _ _ _ => inferInstanceAs (Decidable (_ ∧ _ ∧ _))
  | .sweep _ _ => inferInstanceAs (Decidable True)
  | .flush _ => inferInstanceAs (Decidable (_ ≤ _))
  | .read _ _ => inferInstanceAs (Decidable True)

/-! ## One event -/

/-- The packets in progress on the video stream know their index. -/
def Named (s : StreamSocket) : Prop :=
  ∀ f p, entryOf s video f = some p → p.idFrame = f

variable {now : Nat} {cfg : SocketConfig} {s s' : Session}

theorem Named.swept {s s' : StreamSocket} (h : Named s) (hswept : Swept now s s') :
    Named s' := by
  intro f p hp
  rw [hswept.entry] at hp
  exact h f p (Option.filter_eq_some_iff.1 hp).1

theorem Named.filed {order : IterOrder} {message : Bytes}
    {s filed : StreamSocket} {p : InProgressPacket} {r : ReconstructedPacket} (h : Named s)
    (hfiled : Filed cfg now order message s filed p r) : Named filed := by
  intro f q hq
  by_cases hmine : video = (headerOf message).streamId ∧ f = (headerOf message).packetIndex
  · obtain ⟨hsid, rfl⟩ := hmine
    rw [hsid, hfiled.own] at hq
    split at hq
    · cases hq
    · cases hq
      show p.idFrame = _
      rcases hfiled.opened with hp | ⟨-, buffer, rfl⟩
      · exact h _ p (hsid ▸ hp)
      · rfl
  · rw [hfiled.others video f hmine] at hq
    split at hq
    · cases hq
    · exact h f q hq

/-- A video frame in progress before a sweep is in progress or recorded after it. -/
theorem Swept.entry_or_recorded {s s' : StreamSocket} (hswept : Swept now s s')
    (h : Named s) {f : UInt32} {p : InProgressPacket} (hp : entryOf s video f = some p) :
    entryOf s' video f = some p ∨ f ∈ s'.lostShardsDeadlineMap := by
  by_cases hexp : p.expired now = true
  · exact .inr ((hswept.recorded f).2 (.inr ⟨video, f, p, hp, hexp, h f p hp⟩))
  · left
    rw [hswept.entry, hp]
    simp [Option.filter, hexp]

/-- The books are kept from `s` to `s'`: what was held is held or lost, what was lost
stays lost, reports are not taken back, and what is reported was lost before. -/
structure Booked (s s' : Session) : Prop where
  held : ∀ f, s.Held f → s'.Held f ∨ s'.Lost f
  lost : ∀ f, s.Lost f → s'.Lost f
  reported : ∀ f, f ∈ s.reported.map (·.1) → f ∈ s'.reported.map (·.1)
  source : ∀ f, f ∈ s'.reported.map (·.1) → s.Lost f

theorem Booked.of_swept (h : Named s.socket)
    (hswept : Swept now s.socket s'.socket) (hreports : s'.reports = s.reports) :
    Booked s s' := by
  have hreported : s'.reported = s.reported := by
    rw [Session.reported, hreports, Session.reported]
  constructor
  · rintro f (⟨p, hp⟩ | ⟨r, hr, hf⟩)
    · rcases hswept.entry_or_recorded h hp with hentry | hlost
      · exact .inl (.inl ⟨p, hentry⟩)
      · exact .inr (.inl hlost)
    · exact .inl (.inr ⟨r, (hswept.sent video).symm ▸ hr, hf⟩)
  · rintro f (hf | hf)
    · exact .inl ((hswept.recorded f).2 (.inl hf))
    · exact .inr (hreported ▸ hf)
  · rw [hreported]
    exact fun f hf => hf
  · rw [hreported]
    exact fun f hf => .inr hf

section Filed

variable {cfg : SocketConfig} {now : Nat} {order : IterOrder} {message : Bytes}
  {s s' : Session} {filed : StreamSocket} {p : InProgressPacket} {r : ReconstructedPacket}

/-- The frame of a video shard is in progress or complete once the shard is filed. -/
theorem held_own (hfiled : Filed cfg now order message s.socket filed p r)
    (hsid : (headerOf message).streamId = video) :
    ({ s with socket := filed } : Session).Held (headerOf message).packetIndex := by
  by_cases hdone : Completes cfg message p
  · refine .inr ⟨r, ?_, hfiled.packet.1⟩
    show r ∈ sentOf filed video
    rw [hfiled.sent, if_pos ⟨hsid.symm, hdone⟩]
    exact List.mem_append_right _ List.mem_cons_self
  · refine .inl ⟨p.place cfg message, ?_⟩
    show entryOf filed video _ = _
    rw [← hsid, hfiled.own, if_neg hdone]

theorem held_filed (hfiled : Filed cfg now order message s.socket filed p r)
    (hkeep : (headerOf message).streamId = video →
      recycledBy s.socket order (headerOf message) = none) {f : UInt32} (hf : s.Held f) :
    ({ s with socket := filed } : Session).Held f := by
  rcases hf with ⟨q, hq⟩ | ⟨r', hr', hf⟩
  · by_cases hmine : video = (headerOf message).streamId ∧ f = (headerOf message).packetIndex
    · rw [hmine.2]
      exact held_own hfiled hmine.1.symm
    · refine .inl ⟨q, ?_⟩
      show entryOf filed video f = some q
      rw [hfiled.others video f hmine, if_neg ?_, hq]
      rintro ⟨hsid, hrec⟩
      rw [hkeep hsid.symm] at hrec
      cases hrec
  · refine .inr ⟨r', ?_, hf⟩
    show r' ∈ sentOf filed video
    rw [hfiled.sent]
    exact List.mem_append_left _ hr'

/-- A shard that recycles no video frame keeps the books, and enters its own frame. -/
theorem Booked.of_shard (h : Named s.socket)
    (hfiled : Filed cfg now order message s.socket filed p r)
    (hswept : Swept now filed s'.socket) (hreports : s'.reports = s.reports)
    (hkeep : (headerOf message).streamId = video →
      recycledBy s.socket order (headerOf message) = none) :
    Booked s s' ∧ ((headerOf message).streamId = video →
      s'.Held (headerOf message).packetIndex ∨ s'.Lost (headerOf message).packetIndex) := by
  have hsweep : Booked { s with socket := filed } s' :=
    .of_swept (h.filed hfiled) hswept hreports
  refine ⟨⟨fun f hf => hsweep.held f (held_filed hfiled hkeep hf), fun f hf => hsweep.lost f ?_,
    hsweep.reported, fun f hf => ?_⟩, fun hsid => hsweep.held _ (held_own hfiled hsid)⟩
  · rcases hf with hf | hf
    · exact .inl (hfiled.lost.symm ▸ hf)
    · exact .inr hf
  · rcases hsweep.source f hf with hf | hf
    · exact .inl (hfiled.lost ▸ hf)
    · exact .inr hf

end Filed

/-- A flush whose findings fit the report keeps the books, and leaves nothing
unreported. -/
theorem Booked.of_flush (cfg : SocketConfig) (order : Shuffle (UInt32 × Nat))
    (hfits : s.socket.lostShardsDeadlineMap.entries.length ≤ maxDeadlineInStats) :
    Booked s (flushLosses cfg order s) ∧
      ∀ f, s.Lost f → f ∈ (flushLosses cfg order s).reported.map (·.1) := by
  obtain ⟨hreported, -⟩ := flushLosses_spec cfg order s
  have hsame := samePackets_flush cfg order s
  have hall : (StreamSocket.drained order s.socket.lostShardsDeadlineMap).take maxDeadlineInStats =
      StreamSocket.drained order s.socket.lostShardsDeadlineMap := by
    apply List.take_of_length_le
    rw [StreamSocket.drained, (order.perm _).length_eq, List.length_map]
    exact hfits
  have hlost : ∀ f, s.Lost f → f ∈ (flushLosses cfg order s).reported.map (·.1) := by
    rintro f (hf | hf) <;> rw [hreported, List.map_append, List.mem_append]
    · obtain ⟨n, hn⟩ := Option.isSome_iff_exists.1 (AList.lookup_isSome.2 hf)
      rw [hall]
      exact .inr (List.mem_map.2 ⟨(f, n), mem_drained.2 hn, rfl⟩)
    · exact .inl hf
  refine ⟨⟨?_, fun f hf => .inr (hlost f hf), fun f hf => hlost f (.inr hf), ?_⟩, hlost⟩
  · rintro f (⟨p, hp⟩ | ⟨r, hr, hf⟩)
    · exact .inl (.inl ⟨p, (hsame.entry video f).trans hp⟩)
    · exact .inl (.inr ⟨r, (hsame.sent video).symm ▸ hr, hf⟩)
  · intro f hf
    rw [hreported, List.map_append, List.mem_append] at hf
    rcases hf with hf | hf
    · exact .inr hf
    · obtain ⟨⟨f', n⟩, hmem, rfl⟩ := List.mem_map.1 hf
      have hn := mem_drained.1 (List.mem_of_mem_take hmem)
      exact .inl (AList.lookup_isSome.1 (by rw [hn]; rfl))

theorem Booked.of_read {streamId : UInt16}
    {reader : StreamReceiver} (hs : step cfg s (.read streamId reader) = some s') :
    Booked s s' := by
  obtain ⟨hsame, hreports, hlost⟩ := step_read hs
  have hreported : s'.reported = s.reported := by
    rw [Session.reported, hreports, Session.reported]
  constructor
  · rintro f (⟨p, hp⟩ | ⟨r, hr, hf⟩)
    · exact .inl (.inl ⟨p, (hsame.entry video f).trans hp⟩)
    · exact .inl (.inr ⟨r, (hsame.sent video).symm ▸ hr, hf⟩)
  · rintro f (hf | hf)
    · exact .inl (hlost.symm ▸ hf)
    · exact .inr (hreported ▸ hf)
  · rw [hreported]
    exact fun f hf => hf
  · rw [hreported]
    exact fun f hf => .inr hf

/-- **Step**: a bookable event keeps the books, and enters the frame of a video shard. -/
theorem booked_step {e : Event} (hidle : s.Idle)
    (hnamed : Named s.socket) (hok : Bookable s e) (hs : step cfg s e = some s') :
    (s'.Idle ∧ Named s'.socket) ∧ Booked s s' ∧ (∀ f, e.arrival f ≠ none → s'.Held f ∨ s'.Lost f) ∧
      ∀ order, e = .flush order → ∀ f, s.Lost f → f ∈ s'.reported.map (·.1) := by
  cases e with
  | shard message now order =>
    obtain ⟨hwf, hsub, hkeep⟩ := hok
    obtain ⟨s₁, filed, p, r, hstep, hfiled, hswept, hidle', hreports⟩ :=
      step_shard cfg hidle hwf hsub now order
    rw [hs] at hstep
    cases hstep
    -- Filing keeps every frame on the books; what the sweep takes off is recorded.
    obtain ⟨hbooked, hown⟩ := Booked.of_shard hnamed hfiled hswept hreports hkeep
    refine ⟨⟨hidle', (hnamed.filed hfiled).swept hswept⟩, hbooked, fun f hf => ?_, by rintro _ ⟨⟩⟩
    simp only [Event.arrival] at hf
    split at hf
    · rename_i hmine
      exact hmine.2 ▸ hown hmine.1
    · exact absurd rfl hf
  | sweep now order =>
    cases hs
    have hswept := swept_sweepExpiredDeadlines cfg order now s.socket
    exact ⟨⟨⟨hswept.reading.trans hidle.reading, hidle.channel⟩, hnamed.swept hswept⟩,
      .of_swept hnamed hswept rfl, fun f hf => absurd rfl hf, by rintro _ ⟨⟩⟩
  | flush order =>
    cases hs
    have hsame := samePackets_flush cfg order s
    obtain ⟨hbooked, hreported⟩ := Booked.of_flush cfg order hok
    refine ⟨⟨hsame.idle hidle, fun f p hp => hnamed f p ((hsame.entry video f).symm.trans hp)⟩,
      hbooked, fun f hf => absurd rfl hf, fun _ _ => hreported⟩
  | read streamId reader =>
    obtain ⟨hsame, -⟩ := step_read hs
    exact ⟨⟨hsame.idle hidle, fun f p hp => hnamed f p ((hsame.entry video f).symm.trans hp)⟩,
      .of_read hs, fun f hf => absurd rfl hf, by rintro _ ⟨⟩⟩

/-! ## Whole runs -/

/-- One more event adds what it leaves in the table to the frames recorded. -/
theorem recorded_append {s₀ : Session} {es : List Event} {e : Event}
    (hs' : runs (step cfg) s₀ (es ++ [e]) = some s') (f : UInt32) :
    Recorded cfg s₀ (es ++ [e]) f ↔
      Recorded cfg s₀ es f ∨ f ∈ s'.socket.lostShardsDeadlineMap := by
  simp only [Recorded, List.mem_inits, List.prefix_concat_iff]
  constructor
  · rintro ⟨es₁, rfl | hes, s₁, hs₁, hf⟩
    · rw [hs'] at hs₁
      cases hs₁
      exact .inr hf
    · exact .inl ⟨es₁, hes, s₁, hs₁, hf⟩
  · rintro (⟨es₁, hes, s₁, hs₁, hf⟩ | hf)
    · exact ⟨es₁, .inr hes, s₁, hs₁, hf⟩
    · exact ⟨es ++ [e], .inl rfl, s', hs', hf⟩

/-- The books after some events. What was ever recorded is what is lost. -/
structure Books (cfg : SocketConfig) (s₀ : Session) (es : List Event) (s : Session) : Prop where
  reached : runs (step cfg) s₀ es = some s
  idle : s.Idle
  named : Named s.socket
  accounted : ∀ f, arrivalsOf es f ≠ [] → s.Held f ∨ s.Lost f
  recorded : ∀ f, Recorded cfg s₀ es f ↔ s.Lost f
  reported : ∀ es₁ order es₂, es = es₁ ++ Event.flush order :: es₂ →
    ∀ f, Recorded cfg s₀ es₁ f → f ∈ s.reported.map (·.1)

theorem Books.step {s₀ : Session} {es : List Event} {e : Event}
    (h : Books cfg s₀ es s) (hok : Bookable s e) (hs : step cfg s e = some s') :
    Books cfg s₀ (es ++ [e]) s' := by
  obtain ⟨⟨hidle, hnamed⟩, hbooked, hown, hflush⟩ := booked_step h.idle h.named hok hs
  have hreached : runs (Stream.step cfg) s₀ (es ++ [e]) = some s' := by
    rw [runs_append, h.reached, Option.bind_some, runs, hs]
    rfl
  refine ⟨hreached, hidle, hnamed, fun f hf => ?_, fun f => ?_, ?_⟩
  · by_cases hold : arrivalsOf es f = []
    · refine hown f fun hnone => hf ?_
      rw [arrivalsOf_of_none hnone, hold]
    · rcases h.accounted f hold with hheld | hlost
      · exact hbooked.held f hheld
      · exact .inr (hbooked.lost f hlost)
  · rw [recorded_append hreached, h.recorded]
    constructor
    · rintro (hlost | hf)
      · exact hbooked.lost f hlost
      · exact .inl hf
    · rintro (hf | hf)
      · exact .inr hf
      · exact .inl (hbooked.source f hf)
  · intro es₁ order es₂ hes f hf
    rcases List.eq_nil_or_concat es₂ with rfl | ⟨es₂, e', rfl⟩
    · -- the flush is the last event: what was lost before it is reported now
      obtain ⟨rfl, he⟩ := List.append_inj' hes rfl
      cases he
      exact hflush order rfl f ((h.recorded f).1 hf)
    · rw [List.concat_eq_append, ← List.cons_append, ← List.append_assoc] at hes
      exact hbooked.reported f (h.reported es₁ order es₂ (List.append_inj' hes rfl).1 f hf)

theorem books_start (cfg : SocketConfig) (streams : List UInt16) (n : Nat) :
    Books cfg (Session.start streams n) [] (Session.start streams n) := by
  obtain ⟨hreading, hlost, hentry, -⟩ := fresh_start streams n
  refine ⟨rfl, ⟨hreading, rfl⟩, ?_, fun f hf => absurd rfl hf, fun f => ⟨?_, ?_⟩, ?_⟩
  · intro f p hp
    rw [hentry] at hp
    cases hp
  · rintro ⟨es₁, hes, s₁, hs₁, hf⟩
    obtain rfl := List.mem_singleton.1 hes
    cases hs₁
    exact .inl hf
  · rintro (hf | hf)
    · rw [hlost] at hf
      exact absurd hf (AList.notMem_empty _)
    · exact absurd hf List.not_mem_nil
  · intro es₁ order es₂ hes
    exact absurd hes (by simp)

/-- **Loss reporting is complete in bookable runs**: in every state that a session
reaches by bookable events, a video frame with a shard received is in progress, handed
to the application or was recorded as lost, and every frame recorded is reported by the
next flush. -/
theorem loss_reporting_complete (cfg : SocketConfig) (streams : List UInt16) (n : Nat)
    {es : List Event} {s : Session}
    (h : Run (step cfg) Bookable (Session.start streams n) es s) :
    LossesComplete cfg (Session.start streams n) es s := by
  have hbooks : Books cfg (Session.start streams n) es s :=
    Run.invariant (P := Books cfg (Session.start streams n)) (books_start cfg streams n)
      (fun _ _ _ _ hp hok hs => hp.step hok hs) h
  refine ⟨fun f hf => ?_, fun f hf => (hbooks.recorded f).1 hf, hbooks.reported⟩
  rcases hbooks.accounted f hf with hheld | hlost
  · exact .inl hheld
  · exact .inr ((hbooks.recorded f).2 hlost)

theorem loss_reporting_complete_small : ∃ s,
    Run (step smallSocket) Bookable (Session.start [video] 5) punctualArrivals s ∧
    LossesComplete smallSocket (Session.start [video] 5) punctualArrivals s := by
  have hruns :
      (runs (step smallSocket) (Session.start [video] 5) punctualArrivals).isSome = true := by
    decide +kernel
  obtain ⟨s, hs⟩ := Option.isSome_iff_exists.1 hruns
  have hrun : Run (step smallSocket) Bookable (Session.start [video] 5) punctualArrivals s :=
    .of_runs (by decide +kernel) hs
  exact ⟨s, hrun, loss_reporting_complete smallSocket [video] 5 hrun⟩

/-! ## Runs with gaps -/

/-- The first shards of frames 1 to 5 use up the buffers, that of frame 7 takes the
buffer of frame 1. -/
def recycledArrivals : List Event :=
  [1, 2, 3, 4, 5, 7].map fun f => .shard (smallBroadcast.shard f 0) 5 .id

/-- One late shard each of eleven frames, then a flush: each frame is opened and given
up at once. -/
def lateArrivals : List Event :=
  ((List.range 11).map fun f =>
    .shard (smallBroadcast.shard (UInt32.ofNat f) 0) (deadlinePackets + 1) .id) ++ [.flush .id]

/-- **Reports are not complete in every run**. In the first, frame 1 has had a shard and
is neither in progress nor handed on nor was it ever recorded; in the second, frame 0 was
recorded, with ten others, and is not in the report of the flush after it. -/
theorem loss_reporting_incomplete :
    (∃ s, runs (step smallSocket) (Session.start [video] 5) recycledArrivals = some s ∧
      ¬ LossesComplete smallSocket (Session.start [video] 5) recycledArrivals s) ∧
    ∃ s, runs (step smallSocket) (Session.start [video] 5) lateArrivals = some s ∧
      ¬ LossesComplete smallSocket (Session.start [video] 5) lateArrivals s := by
  have hheld : (runs (step smallSocket) (Session.start [video] 5) recycledArrivals).map (fun s =>
      ((entryOf s.socket video 1).isSome, (sentOf s.socket video).map (·.index))) =
        some (false, []) := by decide +kernel
  have hreported : (runs (step smallSocket) (Session.start [video] 5) lateArrivals).map (fun s =>
      decide (0 ∈ s.reported.map (·.1))) = some false := by decide +kernel
  constructor
  · obtain ⟨s, hs, hview⟩ := Option.map_eq_some_iff.1 hheld
    obtain ⟨hentry, hsent⟩ := Prod.mk.inj hview
    refine ⟨s, hs, fun hcomplete => ?_⟩
    rcases hcomplete.accounted 1 (by decide +kernel) with (⟨p, hp⟩ | ⟨r, hr, -⟩) | hrecorded
    · rw [hp] at hentry
      cases hentry
    · rw [List.map_eq_nil_iff.1 hsent] at hr
      exact absurd hr List.not_mem_nil
    · exact absurd hrecorded (by decide +kernel)
  · obtain ⟨s, hs, hview⟩ := Option.map_eq_some_iff.1 hreported
    refine ⟨s, hs, fun hcomplete => of_decide_eq_false hview ?_⟩
    exact hcomplete.reported _ _ [] rfl 0 (by decide +kernel)

end SiestaVR.Stream
