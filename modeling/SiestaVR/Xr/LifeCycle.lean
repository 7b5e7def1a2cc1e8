import SiestaVR.Xr.Sessions

/-!
# The life cycle of sessions

In a session there is one chain of events for each generator, and between sessions neither
side streams: so it should be, and so it is up to the first time something is started again.
From then on it is not. The audio chain of the first session is never stopped, so the second
session adds another; a video chain is stopped only if its next frame falls into the pause;
the client is configured by its reboot as well as by the driver; and after the last session
it reboots all the same. `restartAt` is that time, and `session_life_cycle` says that all is
well before it.
-/

namespace SiestaVR.Xr

open Lib Emu

/-! ## Statements -/

/-- Sessions in order, each behind the one before. -/
def DisjointSessions (sessions : List (ℚ × ℚ)) : Prop :=
  (∀ session ∈ sessions, session.1 ≤ session.2) ∧ sessions.Pairwise fun a b => a.2 ≤ b.1

/-- The events of a session's end have run. -/
def Pair.Ended (p : Pair) (session : ℚ × ℚ) : Prop :=
  ∃ t ∈ Duration.fromSecsF64 session.2,
    (∃ pause, (t, .sessionEnd pause) ∈ p.client.ran) ∧ (t, .sessionEnd) ∈ p.server.ran

/-- One chain for each generator, and no streaming between the sessions or after the last. -/
structure LifeCycle (sessions : List (ℚ × ℚ)) (p : Pair) : Prop where
  video : p.server.outstanding .generateVideoFrame ≤ 1
  audio : p.server.outstanding .generateAudioFrame ≤ 1
  tracking : p.client.outstanding .generateTrackingData ≤ 1
  silent : ∀ i session, sessions[i]? = some session → p.Ended session →
    (∀ next, sessions[i + 1]? = some next → ∀ t ∈ Duration.fromSecsF64 next.1, p.time < t) →
    p.client.state.isStreaming = false ∧ p.server.state.isStreaming = false

/-- The first time at which something is started again: by the second session, or by the
client's reboot after the first one. -/
def restartAt : List (ℚ × ℚ) → Option Nat
  | [] => none
  | (_, stop) :: rest => do
    let stopTime ← Duration.fromSecsF64 stop
    let pause ← Duration.fromSecsF64 (pauseAfter stop rest)
    let reboot := stopTime + max pause 1
    match rest with
    | [] => some reboot
    | (nextStart, _) :: _ => (Duration.fromSecsF64 nextStart).map (min reboot)

/-- The event is run before that time. -/
def BeforeRestart (sessions : List (ℚ × ℚ)) (p : Pair) (turn : Turn) : Prop :=
  ∀ t ∈ p.due turn, ∀ r ∈ restartAt sessions, t < r

/-! ## Both sides are disciplined -/

/-- The roles of the client's events. -/
def ClientTask.role : ClientTask → Role
  | configureStreams => .start
  | sessionEnd _ => .stop
  | sessionReboot => .restart
  | generateTrackingData => .chain
  | vsync => .other
  | videoReceiveThread => .other

/-- The roles of the server's events. -/
def ServerTask.role : ServerTask → Role
  | connectionPipeline => .start
  | sessionEnd => .stop
  | generateVideoFrame => .chain
  | generateAudioFrame => .chain

theorem ClientTask.role_eq_chain {c : ClientTask} :
    c.role = .chain ↔ c = .generateTrackingData := by
  cases c <;> simp [role]

theorem ServerTask.role_eq_chain {c : ServerTask} :
    c.role = .chain ↔ c = .generateVideoFrame ∨ c = .generateAudioFrame := by
  cases c <;> simp [role]

variable {cfg : XrConfig} {p : Pair}

theorem XrClient.generateTrackingData_spec {now : Nat} {c c' : XrClient}
    {out : List (Nat × ClientTask)} (h : c.generateTrackingData cfg now = some (c', out)) :
    c' = c ∧ (out = [] ∨ ∃ t, out = [(t, .generateTrackingData)]) := by
  unfold generateTrackingData at h
  split at h
  · obtain ⟨d, -, heq⟩ := Option.map_eq_some_iff.1 h
    obtain ⟨rfl, rfl⟩ := Prod.mk.inj heq
    exact ⟨rfl, .inr ⟨_, rfl⟩⟩
  · obtain ⟨rfl, rfl⟩ := Prod.mk.inj (Option.some.inj h)
    exact ⟨rfl, .inl rfl⟩

theorem XrClient.configureStreams_spec {now : Nat} {c c' : XrClient}
    {out : List (Nat × ClientTask)} (h : c.configureStreams cfg now = some (c', out)) :
    out = [] ∨ ∃ t, out = [(t, .generateTrackingData)] := by
  unfold configureStreams at h
  simp only at h
  split at h
  · obtain ⟨-, rfl⟩ := Prod.mk.inj (Option.some.inj h)
    exact .inl rfl
  · exact (generateTrackingData_spec h).2

theorem XrClient.disciplined (cfg : XrConfig) :
    Disciplined ClientTask.role XrClient.isStreaming (XrClient.handle cfg) := by
  intro t x c c' out h
  cases x with
  | configureStreams =>
    rcases configureStreams_spec (c := c) h with rfl | ⟨t, rfl⟩
    · constructor <;> simp [↓ClientTask.role_eq_chain, ClientTask.role]
    · constructor <;> simp [↓ClientTask.role_eq_chain, ClientTask.role]
  | vsync =>
    obtain ⟨rfl, rfl⟩ := Prod.mk.inj (Option.some.inj h)
    constructor <;> simp [↓ClientTask.role_eq_chain, ClientTask.role]
  | sessionEnd pause =>
    obtain ⟨d, -, heq⟩ := Option.map_eq_some_iff.1 h
    obtain ⟨rfl, rfl⟩ := Prod.mk.inj heq
    constructor <;> simp [↓ClientTask.role_eq_chain, ClientTask.role]
  | sessionReboot =>
    obtain ⟨⟨c₁, out⟩, h₁, heq⟩ := Option.map_eq_some_iff.1 h
    obtain ⟨rfl, rfl⟩ := Prod.mk.inj heq
    rcases configureStreams_spec (c := c) h₁ with rfl | ⟨t, rfl⟩
    · constructor <;> simp [↓ClientTask.role_eq_chain, ClientTask.role]
    · constructor <;> simp [↓ClientTask.role_eq_chain, ClientTask.role]
  | videoReceiveThread =>
    obtain ⟨rfl, rfl⟩ := Prod.mk.inj (Option.some.inj h)
    constructor <;> simp [↓ClientTask.role_eq_chain, ClientTask.role]
  | generateTrackingData =>
    obtain ⟨rfl, rfl | ⟨t, rfl⟩⟩ := generateTrackingData_spec h
    · constructor <;> simp [↓ClientTask.role_eq_chain, ClientTask.role]
    · constructor <;> simp [↓ClientTask.role_eq_chain, ClientTask.role]

theorem XrServer.generateVideoFrame_spec {epsilon : ℚ} {now : Nat}
    {s s' : XrServer} {out : List (Nat × ServerTask)}
    (h : s.generateVideoFrame cfg epsilon now = some (s', out)) :
    s' = s ∧ (out = [] ∨ ∃ t, out = [(t, .generateVideoFrame)]) := by
  unfold generateVideoFrame at h
  split at h
  · obtain ⟨d, -, heq⟩ := Option.map_eq_some_iff.1 h
    obtain ⟨rfl, rfl⟩ := Prod.mk.inj heq
    exact ⟨rfl, .inr ⟨_, rfl⟩⟩
  · obtain ⟨rfl, rfl⟩ := Prod.mk.inj (Option.some.inj h)
    exact ⟨rfl, .inl rfl⟩

theorem XrServer.disciplined (cfg : XrConfig) (epsilon : ℚ) :
    Disciplined ServerTask.role XrServer.isStreaming (XrServer.handle cfg epsilon) := by
  intro t x s s' out h
  cases x with
  | connectionPipeline =>
    obtain ⟨⟨s₁, video⟩, h₁, heq⟩ := Option.map_eq_some_iff.1 h
    obtain ⟨rfl, rfl⟩ := Prod.mk.inj heq
    obtain ⟨rfl, rfl | ⟨t, rfl⟩⟩ := generateVideoFrame_spec h₁
    · constructor <;> simp [↓ServerTask.role_eq_chain, ServerTask.role]
    · constructor <;> simp [↓ServerTask.role_eq_chain, ServerTask.role]
  | sessionEnd =>
    obtain ⟨rfl, rfl⟩ := Prod.mk.inj (Option.some.inj h)
    constructor <;> simp [↓ServerTask.role_eq_chain, ServerTask.role, sessionEnd]
  | generateVideoFrame =>
    obtain ⟨rfl, rfl | ⟨t, rfl⟩⟩ := generateVideoFrame_spec h
    · constructor <;> simp [↓ServerTask.role_eq_chain, ServerTask.role]
    · constructor <;> simp [↓ServerTask.role_eq_chain, ServerTask.role]
  | generateAudioFrame =>
    obtain ⟨rfl, rfl⟩ := Prod.mk.inj (Option.some.inj h)
    constructor <;> simp [↓ServerTask.role_eq_chain, ServerTask.role]

/-! ## What the driver schedules -/

/-- Starts and stops are appended to the events of a model. -/
structure Appended {T S : Type} (role : T → Role) (n n' : Node T S) (l : List (Nat × T)) :
    Prop where
  events : n'.events = n.events ++ l
  driven : ∀ y ∈ l, (role y.2).driven
  state : n'.state = n.state
  ran : n'.ran = n.ran

section Appended

variable {T S : Type} {role : T → Role} {n n₁ n' : Node T S} {l l' : List (Nat × T)}

theorem Appended.trans (h : Appended role n n₁ l) (h' : Appended role n₁ n' l') :
    Appended role n n' (l ++ l') where
  events := by rw [h'.events, h.events, List.append_assoc]
  driven := List.forall_mem_append.2 ⟨h.driven, h'.driven⟩
  state := h'.state.trans h.state
  ran := h'.ran.trans h.ran

/-- The start and the stop of a session that lies behind everything scheduled so far. -/
theorem Appended.of_scheduleAll {a b : Nat} {x y : T}
    (h : n.scheduleAll 0 [(a, x), (b, y)] = some n') (hab : a ≤ b) (hlast : ∀ z ∈ n.events, z.1 ≤ a)
    (hx : (role x).driven) (hy : (role y).driven) : Appended role n n' [(a, x), (b, y)] := by
  have hsched := Node.scheduled_of_scheduleAll h
  refine ⟨Node.events_scheduleAll h (by simpa using hab) ?_, by simp [hx, hy], hsched.state,
    hsched.ran⟩
  intro z hz
  simpa using ⟨hlast z hz, (hlast z hz).trans hab⟩

theorem Appended.forall_le (h : Appended role n n' l) {t t' : Nat} (hn : ∀ z ∈ n.events, z.1 ≤ t)
    (hl : ∀ z ∈ l, z.1 ≤ t') (ht : t ≤ t') : ∀ z ∈ n'.events, z.1 ≤ t' := by
  rw [h.events]
  exact List.forall_mem_append.2 ⟨fun z hz => (hn z hz).trans ht, hl⟩

end Appended

/-- **The sessions after the first** are scheduled behind it, and no earlier than their starts. -/
theorem scheduleSessions_spec {sessions : List (ℚ × ℚ)} {p' : Pair}
    (hdis : DisjointSessions sessions) (h : scheduleSessions true sessions p = some p')
    (hlast : ∀ session ∈ sessions, ∀ t ∈ Duration.fromSecsF64 session.1,
      (∀ y ∈ p.client.events, y.1 ≤ t) ∧ ∀ y ∈ p.server.events, y.1 ≤ t) :
    ∃ lc ls, Appended ClientTask.role p.client p'.client lc ∧
      Appended ServerTask.role p.server p'.server ls ∧
      ∀ r, (∀ session ∈ sessions, ∀ t ∈ Duration.fromSecsF64 session.1, r ≤ t) →
        (∀ y ∈ lc, r ≤ y.1) ∧ ∀ y ∈ ls, r ≤ y.1 := by
  induction sessions generalizing p with
  | nil =>
    obtain rfl : p = p' := Option.some.inj h
    exact ⟨[], [], ⟨by simp, by simp, rfl, rfl⟩, ⟨by simp, by simp, rfl, rfl⟩, by simp⟩
  | cons session sessions ih =>
    obtain ⟨start, stop⟩ := session
    obtain ⟨a, ha, h⟩ := Option.bind_eq_some_iff.1 h
    obtain ⟨b, hb, h⟩ := Option.bind_eq_some_iff.1 h
    obtain ⟨client, hclient, h⟩ := Option.bind_eq_some_iff.1 h
    obtain ⟨server, hserver, h⟩ := Option.bind_eq_some_iff.1 h
    obtain ⟨hlen, hpair⟩ := hdis
    obtain ⟨hfirst, hpair⟩ := List.pairwise_cons.1 hpair
    have hab : a ≤ b := Duration.fromSecsF64_mono (hlen _ List.mem_cons_self) ha hb
    obtain ⟨hlc, hls⟩ := hlast _ List.mem_cons_self a ha
    have hnext (session) (hs : session ∈ sessions) (t) (ht : t ∈ Duration.fromSecsF64 session.1) :
        b ≤ t := Duration.fromSecsF64_mono (hfirst session hs) hb ht
    have hc : Appended ClientTask.role p.client client _ := .of_scheduleAll hclient hab hlc rfl rfl
    have hs : Appended ServerTask.role p.server server _ := .of_scheduleAll hserver hab hls rfl rfl
    -- The sessions that follow start when this one has ended: their events go behind its two.
    obtain ⟨lc, ls, hlc', hls', hge⟩ := ih
      ⟨fun session hmem => hlen session (List.mem_cons_of_mem _ hmem), hpair⟩ h
      fun session hmem t ht => by
        have hbt := hnext session hmem t ht
        have hends {T : Type} (x y : T) : ∀ z ∈ [(a, x), (b, y)], z.1 ≤ t := by
          simpa using ⟨hab.trans hbt, hbt⟩
        exact ⟨hc.forall_le hlc (hends _ _) (hab.trans hbt),
          hs.forall_le hls (hends _ _) (hab.trans hbt)⟩
    refine ⟨_, _, hc.trans hlc', hs.trans hls', fun r hr => ?_⟩
    have hra : r ≤ a := hr _ List.mem_cons_self a ha
    obtain ⟨hlc, hls⟩ := hge r fun session hmem => hr session (List.mem_cons_of_mem _ hmem)
    have hends {T : Type} (x y : T) : ∀ z ∈ [(a, x), (b, y)], r ≤ z.1 := by
      simpa using ⟨hra, hra.trans hab⟩
    exact ⟨List.forall_mem_append.2 ⟨hends _ _, hlc⟩, List.forall_mem_append.2 ⟨hends _ _, hls⟩⟩

/-! ## The first session -/

/-- There is a time at which something is started again. -/
theorem exists_restartAt {start stop : ℚ} {rest : List (ℚ × ℚ)}
    (hdis : DisjointSessions ((start, stop) :: rest))
    (h : scheduleSessions false ((start, stop) :: rest) .new = some p) :
    ∃ b pause r, Duration.fromSecsF64 stop = some b ∧
      Duration.fromSecsF64 (pauseAfter stop rest) = some pause ∧
      restartAt ((start, stop) :: rest) = some r ∧ r ≤ b + max pause 1 ∧
      ∀ session ∈ rest, ∀ t ∈ Duration.fromSecsF64 session.1, r ≤ t := by
  obtain ⟨a, ha, h⟩ := Option.bind_eq_some_iff.1 h
  obtain ⟨b, hb, h⟩ := Option.bind_eq_some_iff.1 h
  obtain ⟨client, -, h⟩ := Option.bind_eq_some_iff.1 h
  obtain ⟨server, -, h⟩ := Option.bind_eq_some_iff.1 h
  -- After the last session the pause is 0, and becomes a nanosecond.
  cases rest with
  | nil =>
    have hpause : Duration.fromSecsF64 (pauseAfter stop []) = some 0 := by
      rw [pauseAfter]
      decide +kernel
    refine ⟨b, 0, b + max 0 1, hb, hpause, ?_, le_rfl, by simp⟩
    simp [restartAt, hb, hpause]
  | cons next rest =>
    obtain ⟨nextStart, nextStop⟩ := next
    obtain ⟨c, hc, -⟩ := Option.bind_eq_some_iff.1 h
    obtain ⟨hfirst, hpair⟩ := List.pairwise_cons.1 hdis.2
    have hgap : stop ≤ nextStart := hfirst _ List.mem_cons_self
    have hpause : pauseAfter stop ((nextStart, nextStop) :: rest) = nextStart - stop := by
      rw [pauseAfter, if_neg (not_lt.2 (sub_nonneg.2 hgap))]
    obtain ⟨pause, hd⟩ := Duration.exists_fromSecsF64_of_le (sub_nonneg.2 hgap)
      (sub_le_self nextStart (Duration.nonneg_of_fromSecsF64 hb)) hc
    refine ⟨b, pause, min (b + max pause 1) c, hb, hpause ▸ hd, ?_, min_le_left _ _, ?_⟩
    · simp [restartAt, hb, hpause, hd, hc]
    · intro session hsession t ht
      refine (min_le_right _ _).trans ?_
      rcases List.mem_cons.1 hsession with rfl | hsession
      · exact (Option.some.inj (hc.symm.trans ht)).le
      · have hnext : nextStart ≤ nextStop := hdis.1 (nextStart, nextStop) (by simp)
        exact Duration.fromSecsF64_mono
          (hnext.trans ((List.pairwise_cons.1 hpair).1 session hsession)) hc ht

theorem Role.ne_of_driven {r : Role} (h : r.driven) : r ≠ .chain ∧ r ≠ .restart := by
  cases r <;> simp_all [Role.driven]

/-- A model whose first two starts and stops are those of the first session, and for which the
driver appended those of later ones. -/
theorem phased_of_appended {T S : Type} [DecidableEq T] {role : T → Role} {streaming : S → Bool}
    {n n' : Node T S} (P : Plan role) (h : Appended role n n' P.later)
    (hdriven : n.driven role = [P.opening, P.closing])
    (hsilent : streaming n.state = false) (hran : n.ran = [])
    (hroles : ∀ y ∈ n.events, role y.2 ≠ .chain ∧ role y.2 ≠ .restart) :
    Phased streaming P n' := by
  have hroles' : ∀ y ∈ n'.events, role y.2 ≠ .chain ∧ role y.2 ≠ .restart := by
    rw [h.events]
    exact List.forall_mem_append.2 ⟨hroles, fun y hy => Role.ne_of_driven (h.driven y hy)⟩
  refine ⟨.before ?_ (h.state ▸ hsilent) (fun c hc => ?_) ?_, fun y hy hrestart =>
    absurd hrestart (hroles' y hy).2⟩
  · rw [Node.driven, h.events, List.filter_append, List.filter_eq_self.2 h.driven, ← Node.driven,
      hdriven]
    rfl
  · refine Nat.le_zero.2 (List.countP_eq_zero.2 fun y hy => ?_)
    rw [decide_eq_true_eq]
    rintro rfl
    exact (hroles' y hy).1 hc
  · rw [Node.Unstopped, h.ran, hran]
    simp

/-- **The start of a run**: both sides are before their first session, and everything that is
scheduled behind it is no earlier than `restartAt`. -/
theorem phased_runSim {start stop : ℚ} {rest : List (ℚ × ℚ)}
    (hdis : DisjointSessions ((start, stop) :: rest))
    (h : runSim ((start, stop) :: rest) = some p) :
    ∃ (P : Plan ClientTask.role) (Q : Plan ServerTask.role) (b pause : Nat),
      restartAt ((start, stop) :: rest) = some P.limit ∧ Q.limit = P.limit ∧
      P.closing = (b, .sessionEnd (pauseAfter stop rest)) ∧
      Duration.fromSecsF64 (pauseAfter stop rest) = some pause ∧ P.limit ≤ b + max pause 1 ∧
      Phased XrClient.isStreaming P p.client ∧ Phased XrServer.isStreaming Q p.server := by
  have hsort : ((start, stop) :: rest).insertionSort (fun a b => a.1 ≤ b.1) =
      (start, stop) :: rest := by
    refine List.Pairwise.insertionSort_eq (hdis.2.imp_of_mem fun ha _ hab => ?_)
    exact (hdis.1 _ ha).trans hab
  rw [runSim, hsort] at h
  obtain ⟨b, pause, r, hb, hpause, hr, hle, hge⟩ := exists_restartAt hdis h
  obtain ⟨a, ha, h⟩ := Option.bind_eq_some_iff.1 h
  obtain ⟨b', hb', h⟩ := Option.bind_eq_some_iff.1 h
  obtain rfl : b = b' := Option.some.inj (hb.symm.trans hb')
  obtain ⟨client, hclient, h⟩ := Option.bind_eq_some_iff.1 h
  obtain ⟨server, hserver, h⟩ := Option.bind_eq_some_iff.1 h
  have hab : a ≤ b := Duration.fromSecsF64_mono (hdis.1 _ List.mem_cons_self) ha hb
  obtain ⟨hfirst, hpair⟩ := List.pairwise_cons.1 hdis.2
  have hc : client.events = [(a, .configureStreams), (a, .vsync),
      (b, .sessionEnd (pauseAfter stop rest))] :=
    Node.events_scheduleAll hclient (by simpa using hab) (by simp [Pair.new, Node.events, Node.new,
      Kernel.PriorityQueue.new])
  have hs : server.events = [(a, .connectionPipeline), (b, .sessionEnd)] :=
    Node.events_scheduleAll hserver (by simpa using hab) (by simp [Pair.new, Node.events, Node.new,
      Kernel.PriorityQueue.new])
  -- The other sessions are scheduled behind these events, and not before they start.
  obtain ⟨lc, ls, hlc, hls, hlater⟩ := scheduleSessions_spec
    ⟨fun session hmem => hdis.1 session (List.mem_cons_of_mem _ hmem), hpair⟩ h
    fun session hmem t ht => by
      have hbt : b ≤ t := Duration.fromSecsF64_mono (hfirst session hmem) hb ht
      simpa [hc, hs] using ⟨hab.trans hbt, hbt⟩
  obtain ⟨hlcge, hlsge⟩ := hlater r hge
  have hc' := Node.scheduled_of_scheduleAll hclient
  have hs' := Node.scheduled_of_scheduleAll hserver
  refine ⟨⟨(a, .configureStreams), (b, .sessionEnd (pauseAfter stop rest)), lc, r, rfl, rfl, hlcge⟩,
    ⟨(a, .connectionPipeline), (b, .sessionEnd), ls, r, rfl, rfl, hlsge⟩, b, pause, hr, rfl, rfl,
    hpause, hle, phased_of_appended _ hlc ?_ ?_ hc'.ran ?_,
    phased_of_appended _ hls ?_ ?_ hs'.ran ?_⟩
  · rw [Node.driven, hc]
    rfl
  · rw [hc'.state]
    rfl
  · simp [hc, ClientTask.role]
  · rw [Node.driven, hs]
    rfl
  · rw [hs'.state]
    rfl
  · simp [hs, ServerTask.role]

/-! ## Runs -/

/-- One event of either side, run before the limit. -/
theorem Pair.phased_step {P : Plan ClientTask.role} {Q : Plan ServerTask.role}
    {b pause : Nat} {pauseTime : ℚ} {p' : Pair} {turn : Turn} (hlimit : Q.limit = P.limit)
    (hclosing : P.closing = (b, .sessionEnd pauseTime))
    (hpause : Duration.fromSecsF64 pauseTime = some pause) (hle : P.limit ≤ b + max pause 1)
    (hclient : Phased XrClient.isStreaming P p.client)
    (hserver : Phased XrServer.isStreaming Q p.server) (hdue : ∀ t ∈ p.due turn, t < P.limit)
    (h : p.step cfg turn = some p') :
    Phased XrClient.isStreaming P p'.client ∧ Phased XrServer.isStreaming Q p'.server := by
  cases turn with
  | client =>
    obtain ⟨t, -, h⟩ := Option.bind_eq_some_iff.1 h
    obtain ⟨-, h⟩ := Option.ite_none_right_eq_some.1 h
    obtain ⟨client, hturn, rfl⟩ := Option.map_eq_some_iff.1 h
    refine ⟨hclient.turn (XrClient.disciplined cfg) ?_ hturn hdue, hserver⟩
    -- The first session's end schedules the reboot.
    intro c c' out hend y hy _
    rw [hclosing] at hend
    obtain ⟨d, hd, heq⟩ := Option.map_eq_some_iff.1 hend
    obtain ⟨-, rfl⟩ := Prod.mk.inj heq
    obtain rfl : pause = d := Option.some.inj (hpause.symm.trans hd)
    rw [List.mem_singleton.1 hy]
    exact hle
  | server epsilon =>
    obtain ⟨t, -, h⟩ := Option.bind_eq_some_iff.1 h
    obtain ⟨-, h⟩ := Option.ite_none_right_eq_some.1 h
    obtain ⟨server, hturn, rfl⟩ := Option.map_eq_some_iff.1 h
    refine ⟨hclient, hserver.turn (XrServer.disciplined cfg epsilon) ?_ hturn (hlimit ▸ hdue)⟩
    intro s s' out _ y _ hrestart
    cases hy : y.2 <;> simp [hy, ServerTask.role] at hrestart

theorem eq_new_of_run {ok : Pair → Turn → Prop} {turns : List Turn}
    (h : Run (Pair.step cfg) ok .new turns p) : p = .new := by
  refine h.state_invariant (P := (· = Pair.new)) rfl ?_
  rintro p turn p' rfl - hstep
  cases turn <;> cases hstep

/-- **The life cycle of sessions**: as long as no event is run at or after the time at which
something is started again, there is one chain for each generator at most, and neither side
streams once the session has ended. -/
theorem session_life_cycle {cfg : XrConfig} {sessions : List (ℚ × ℚ)} {p₀ p : Pair}
    {turns : List Turn} (hdis : DisjointSessions sessions) (h₀ : runSim sessions = some p₀)
    (hrun : Run (Pair.step cfg) (BeforeRestart sessions) p₀ turns p) : LifeCycle sessions p := by
  cases sessions with
  | nil =>
    obtain rfl : Pair.new = p₀ := Option.some.inj h₀
    obtain rfl := eq_new_of_run hrun
    exact ⟨Nat.zero_le 1, Nat.zero_le 1, Nat.zero_le 1, by simp⟩
  | cons session rest =>
    obtain ⟨P, Q, b, pause, hr, hlimit, hclosing, hpause, hle, hclient, hserver⟩ :=
      phased_runSim hdis h₀
    have hphased : Phased XrClient.isStreaming P p.client ∧
        Phased XrServer.isStreaming Q p.server := by
      refine hrun.state_invariant (P := fun p => Phased XrClient.isStreaming P p.client ∧
        Phased XrServer.isStreaming Q p.server) ⟨hclient, hserver⟩ ?_
      rintro p turn p' ⟨hc, hs⟩ hok hstep
      exact p.phased_step hlimit hclosing hpause hle hc hs (fun t ht => hok t ht _ hr) hstep
    obtain ⟨hc, hs⟩ := hphased
    refine ⟨hs.chains _ rfl, hs.chains _ rfl, hc.chains _ rfl, ?_⟩
    rintro i session - ⟨t, -, ⟨d, hclientRan⟩, hserverRan⟩ -
    exact ⟨hc.silent hclientRan rfl, hs.silent hserverRan rfl⟩

/-! ## Concrete runs -/

instance (sessions : List (ℚ × ℚ)) (p : Pair) (turn : Turn) :
    Decidable (BeforeRestart sessions p turn) :=
  inferInstanceAs (Decidable (∀ t ∈ p.due turn, ∀ r ∈ restartAt sessions, t < r))

/-- 90 frames a second, with tracking. -/
def ninetyHertz : XrConfig := ⟨90, 90, 11111111, false⟩

/-- Two sessions of a millisecond, with as much between them. -/
def twoSessions : List (ℚ × ℚ) := [(1, 1001 / 1000), (1002 / 1000, 1003 / 1000)]

/-- Start and end of the first session, on both sides. -/
def firstSession : List Turn := [.client, .client, .server 0, .client, .server 0]

theorem twoSessions_disjoint : DisjointSessions twoSessions := by
  constructor <;> decide +kernel

theorem session_life_cycle_first : ∃ p₀ p, runSim twoSessions = some p₀ ∧
    Run (Pair.step ninetyHertz) (BeforeRestart twoSessions) p₀ firstSession p ∧
    p.time = 1001000000 ∧ LifeCycle twoSessions p := by
  obtain ⟨p₀, h₀, h⟩ := Option.bind_eq_some_iff.1 (show (runSim twoSessions).bind (fun p₀ =>
    if allOk (Pair.step ninetyHertz) (BeforeRestart twoSessions) p₀ firstSession then
      (runs (Pair.step ninetyHertz) p₀ firstSession).map Pair.time else none) = some 1001000000
    by decide +kernel)
  obtain ⟨hok, h⟩ := Option.ite_none_right_eq_some.1 h
  obtain ⟨p, hp, htime⟩ := Option.map_eq_some_iff.1 h
  have hrun := Run.of_runs hok hp
  exact ⟨p₀, p, h₀, hrun, htime, session_life_cycle twoSessions_disjoint h₀ hrun⟩

/-- The second session doubles the chains of video and audio frames, and its start and the
reboot those of tracking data; and a client streams after its only session. -/
theorem session_life_cycle_restarted :
    (DisjointSessions twoSessions ∧ ∃ p₀ p turns, runSim twoSessions = some p₀ ∧
      Run (Pair.step ninetyHertz) (fun _ _ => True) p₀ turns p ∧
      p.server.outstanding .generateVideoFrame = 2 ∧
      p.server.outstanding .generateAudioFrame = 2 ∧
      p.client.outstanding .generateTrackingData = 3 ∧ ¬ LifeCycle twoSessions p) ∧
    DisjointSessions [(1, 1001 / 1000)] ∧ ∃ p₀ p turns, runSim [(1, 1001 / 1000)] = some p₀ ∧
      Run (Pair.step ninetyHertz) (fun _ _ => True) p₀ turns p ∧
      p.Ended (1, 1001 / 1000) ∧ p.client.state.isStreaming = true ∧
      ¬ LifeCycle [(1, 1001 / 1000)] p := by
  constructor
  · obtain ⟨p₀, h₀, h⟩ := Option.bind_eq_some_iff.1 (show (runSim twoSessions).bind (fun p₀ =>
      (runs (Pair.step ninetyHertz) p₀ (firstSession ++ [.server 0, .client, .client])).map
        fun p => (p.server.outstanding .generateVideoFrame,
          p.server.outstanding .generateAudioFrame,
          p.client.outstanding .generateTrackingData)) = some (2, 2, 3) by decide +kernel)
    obtain ⟨p, hrun, hp⟩ := exists_run_of_map h
    simp only [Prod.mk.injEq] at hp
    obtain ⟨hvideo, haudio, htracking⟩ := hp
    refine ⟨twoSessions_disjoint, p₀, p, _, h₀, hrun, hvideo, haudio, htracking, fun hlife => ?_⟩
    exact absurd hlife.video (by rw [hvideo]; decide)
  · obtain ⟨p₀, h₀, h⟩ := Option.bind_eq_some_iff.1 (show
      (runSim [(1, 1001 / 1000)]).bind (fun p₀ =>
        (runs (Pair.step ninetyHertz) p₀ (firstSession ++ [.client])).map fun p =>
          (decide ((1001000000, .sessionEnd 0) ∈ p.client.ran),
            decide ((1001000000, .sessionEnd) ∈ p.server.ran), p.client.state.isStreaming)) =
        some (true, true, true) by decide +kernel)
    obtain ⟨p, hrun, hp⟩ := exists_run_of_map h
    simp only [Prod.mk.injEq, decide_eq_true_eq] at hp
    obtain ⟨hclient, hserver, hstreaming⟩ := hp
    have hended : p.Ended (1, 1001 / 1000) :=
      ⟨1001000000, by decide +kernel, ⟨0, hclient⟩, hserver⟩
    refine ⟨⟨by decide +kernel, by decide +kernel⟩, p₀, p, _, h₀, hrun, hended, hstreaming,
      fun hlife => ?_⟩
    have hsilent := hlife.silent 0 _ rfl hended (by simp)
    rw [hstreaming] at hsilent
    cases hsilent.1

end SiestaVR.Xr
