import SiestaVR.Emu.Shaping

/-!
# The wait that `try_send_bandwidth` asks for (lib/models_mm1k.rs:1871–1970)

A packet that finds some bucket short of tokens is told how long to wait: the longest
time that any of the short buckets needs. `trySendAt` is `try_send_bandwidth` in exact
time, where times, waits and limits are rational seconds. The program rounds waits to
nanoseconds, and otherwise does the same (`trySendBandwidth_exact`).

In exact time the wait is right to the point. A bucket that is refilled now and gains
tokens at a constant rate holds enough from a known time on, as long as the packet fits
into it at all. The packet can be sent from the latest of these times on, and the wait is
the time until then: a call before it does not send the packet, a call at it does.
-/

namespace SiestaVR.Emu

open SiestaVR.Lib

/-! ## The call in exact time -/

/-- The pattern is valid at a time in seconds. -/
def Bandwidth.activeAt (b : Bandwidth) (now : ℚ) : Bool :=
  secs b.validFrom ≤ now && now ≤ secs b.validUntil

/-- The tokens gained since the last refill. -/
def Bandwidth.refillAt (b : Bandwidth) (now : ℚ) : Bandwidth :=
  let dt := now - b.lastRefill
  { b with
    currentTokens := min (b.currentTokens + dt * b.tokenRefillRate) b.maxTokens
    lastRefill := now }

/-- What the first loop finds out. -/
structure ExactPeek where
  anyActive : Bool := false
  allSufficient : Bool := true
  maxWait : ℚ := 0
  minLimit : Option ℚ := none
deriving DecidableEq, Repr

/-- An active pattern, refilled, is checked for `bits` tokens. The wait for a pattern that
gains none is no duration, and ends the program. -/
def ExactPeek.check (k : ExactPeek) (bits : ℚ) (b : Bandwidth) : Option ExactPeek :=
  if b.currentTokens < bits then
    if 0 < b.tokenRefillRate then
      let need := bits - b.currentTokens
      some
        { anyActive := true
          allSufficient := false
          maxWait := max k.maxWait (need / b.tokenRefillRate)
          minLimit :=
            some (k.minLimit.elim (secs b.maxLatency) fun m => min m (secs b.maxLatency)) }
    else none
  else some { k with anyActive := true }

/-- The first loop: refill and check. -/
def peekAt (now bits : ℚ) :
    ExactPeek → List NetworkPattern → Option (ExactPeek × List NetworkPattern)
  | k, [] => some (k, [])
  | k, .bandwidth b :: ps =>
    if b.activeAt now then do
      let k ← k.check bits (b.refillAt now)
      let (k, ps') ← peekAt now bits k ps
      some (k, .bandwidth (b.refillAt now) :: ps')
    else (peekAt now bits k ps).map fun (k, ps') => (k, .bandwidth b :: ps')
  | k, p :: ps => (peekAt now bits k ps).map fun (k, ps') => (k, p :: ps')

/-- The second loop: every active pattern pays. -/
def debitAt (now bits : ℚ) : NetworkPattern → NetworkPattern
  | .bandwidth b =>
    if b.activeAt now then .bandwidth { b with currentTokens := b.currentTokens - bits }
    else .bandwidth b
  | p => p

/-- `BandwidthOutcome` with an exact wait. -/
inductive ExactOutcome
  | sent
  | wait (w : ℚ)
  | exceedsLimit
deriving DecidableEq, Repr

/-- `NetworkPatternEmulator::try_send_bandwidth` in exact time. -/
def NetworkPatternEmulator.trySendAt (e : NetworkPatternEmulator) (now bits elapsedWait : ℚ) :
    Option (ExactOutcome × NetworkPatternEmulator) := do
  let (k, ps) ← peekAt now bits {} e.patterns
  if !k.anyActive then
    some (.sent, { e with patterns := ps })
  else if k.allSufficient then
    some (.sent, { e with patterns := ps.map (debitAt now bits) })
  else
    let limit ← k.minLimit
    if limit < elapsedWait + k.maxWait then some (.exceedsLimit, { e with patterns := ps })
    else some (.wait k.maxWait, { e with patterns := ps })

/-! ## The program's call -/

theorem Bandwidth.activeAt_secs (b : Bandwidth) (now : Nat) :
    b.activeAt (secs now) = b.active now := by
  simp only [activeAt, active, validAt, secs_le_secs]

/-- What the program's loop has found out is what the exact loop has, rounded. -/
structure Rounds (x : ExactPeek) (k : Peek) : Prop where
  active : x.anyActive = k.anyActive
  sufficient : x.allSufficient = k.allSufficient
  wait : Duration.fromSecsF64 x.maxWait = some k.maxWait
  limit : x.minLimit = k.minLimit.map secs

theorem Duration.fromSecsF64_max {x y : ℚ} {a b : Nat} (ha : fromSecsF64 x = some a)
    (hb : fromSecsF64 y = some b) : fromSecsF64 (Max.max x y) = some (Max.max a b) := by
  rcases le_total x y with h | h
  · rw [max_eq_right h, hb, max_eq_right (fromSecsF64_mono h ha hb)]
  · rw [max_eq_left h, ha, max_eq_left (fromSecsF64_mono h hb ha)]

theorem secs_min (a b : Nat) : secs (min a b) = min (secs a) (secs b) := by
  rcases le_total a b with h | h
  · rw [min_eq_left h, min_eq_left (secs_le_secs.2 h)]
  · rw [min_eq_right h, min_eq_right (secs_le_secs.2 h)]

variable {bits now : ℚ} {b : Bandwidth} {ps : List NetworkPattern}

theorem Rounds.check {x : ExactPeek} {k k' : Peek} (h : Rounds x k)
    (hcheck : k.check bits b = some k') : ∃ x', x.check bits b = some x' ∧ Rounds x' k' := by
  unfold Peek.check at hcheck
  unfold ExactPeek.check
  by_cases hshort : b.currentTokens < bits
  · rw [if_pos hshort] at hcheck ⊢
    obtain ⟨wait, hquot, hk'⟩ := Option.bind_eq_some_iff.1 hcheck
    obtain rfl := Option.some.inj hk'
    have hrate := pos_of_fromQuotient (sub_pos.2 hshort) hquot
    rw [Duration.fromQuotient, if_neg hrate.ne'] at hquot
    rw [if_pos hrate]
    refine ⟨_, rfl, ⟨rfl, rfl, Duration.fromSecsF64_max h.wait hquot, ?_⟩⟩
    cases hlimit : k.minLimit <;> simp [h.limit, hlimit, secs_min]
  · rw [if_neg hshort] at hcheck ⊢
    obtain rfl := Option.some.inj hcheck
    exact ⟨_, rfl, ⟨rfl, h.sufficient, h.wait, h.limit⟩⟩

theorem Rounds.peek {now : Nat} {x : ExactPeek} {k k' : Peek}
    {ps' : List NetworkPattern} (h : Rounds x k) (hpeek : peek now bits k ps = some (k', ps')) :
    ∃ x', peekAt (secs now) bits x ps = some (x', ps') ∧ Rounds x' k' := by
  induction ps generalizing x k ps' with
  | nil =>
    cases hpeek
    exact ⟨x, rfl, h⟩
  | cons p ps ih =>
    cases p with
    | bandwidth b =>
      rw [Emu.peek] at hpeek
      rw [peekAt, b.activeAt_secs]
      split at hpeek
      · rename_i hactive
        obtain ⟨k₁, hcheck, hpeek⟩ := Option.bind_eq_some_iff.1 hpeek
        obtain ⟨⟨k₂, ps₂⟩, hrest, heq⟩ := Option.bind_eq_some_iff.1 hpeek
        cases heq
        obtain ⟨x₁, hcheck', h₁⟩ := h.check hcheck
        obtain ⟨x', hrest', h'⟩ := ih h₁ hrest
        have hrefill : b.refillAt (secs now) = b.refill now := rfl
        exact ⟨x', by simp [hactive, hrefill, hcheck', hrest'], h'⟩
      · rename_i hactive
        obtain ⟨⟨k₁, ps₁⟩, hrest, heq⟩ := Option.map_eq_some_iff.1 hpeek
        cases heq
        obtain ⟨x', hrest', h'⟩ := ih h hrest
        exact ⟨x', by simp [hactive, hrest'], h'⟩
    | _ =>
      obtain ⟨⟨k₁, ps₁⟩, hrest, heq⟩ := Option.map_eq_some_iff.1 hpeek
      cases heq
      obtain ⟨x', hrest', h'⟩ := ih h hrest
      exact ⟨x', by simp [peekAt, hrest'], h'⟩

theorem debitAt_secs (now : Nat) (bits : ℚ) : debitAt (secs now) bits = debit now bits := by
  funext p
  cases p with
  | bandwidth b => simp only [debitAt, debit, b.activeAt_secs]
  | _ => rfl

/-- **The program's call** leaves the patterns that the call in exact time leaves and sends the
same packets, and a wait it returns is the exact wait, rounded to nanoseconds. -/
theorem trySendBandwidth_exact {e e' : NetworkPatternEmulator} {now elapsedWait : Nat} {bits : ℚ}
    {o : BandwidthOutcome} (h : e.trySendBandwidth now bits elapsedWait = some (o, e')) :
    ∃ o', e.trySendAt (secs now) bits (secs elapsedWait) = some (o', e') ∧
      (o' = .sent ↔ o = .sent) ∧
      ∀ d w, o = .wait d → o' = .wait w → Duration.fromSecsF64 w = some d := by
  obtain ⟨⟨k, ps⟩, hpeek, h⟩ := Option.bind_eq_some_iff.1 h
  have hstart : Rounds {} {} := ⟨rfl, rfl, by decide +kernel, rfl⟩
  obtain ⟨x, hpeekAt, hrounds⟩ := hstart.peek hpeek
  unfold NetworkPatternEmulator.trySendAt
  rw [hpeekAt]
  simp only [Option.bind_eq_bind, Option.bind_some, hrounds.active, hrounds.sufficient,
    debitAt_secs]
  simp only at h
  split at h
  · rename_i hnone
    cases h
    exact ⟨.sent, by simp [hnone], by simp, by simp⟩
  · rename_i hsome
    split at h
    · rename_i hall
      cases h
      exact ⟨.sent, by simp [hsome, hall], by simp, by simp⟩
    · rename_i hall
      obtain ⟨limit, hlimit, h⟩ := Option.bind_eq_some_iff.1 h
      obtain ⟨total, -, h⟩ := Option.bind_eq_some_iff.1 h
      -- the limit is compared with the rounded wait here and with the exact one there
      obtain ⟨hne, hd, rfl⟩ : o ≠ .sent ∧ (∀ d, o = .wait d → d = k.maxWait) ∧
          { e with patterns := ps } = e' := by
        split at h <;> cases h <;> simp
      have hlimit' : x.minLimit = some (secs limit) := by
        rw [hrounds.limit, hlimit, Option.map_some]
      by_cases hover : secs limit < secs elapsedWait + x.maxWait
      · exact ⟨.exceedsLimit, by simp [hsome, hall, hlimit', hover], by simp [hne], by simp⟩
      · refine ⟨.wait x.maxWait, by simp [hsome, hall, hlimit', hover], by simp [hne], ?_⟩
        rintro d w ho ⟨rfl⟩
        rw [hd d ho]
        exact hrounds.wait

/-- Under two caps the exact wait is 7/30 s. -/
theorem trySendBandwidth_exact_two : ∃ e', NetworkPatternEmulator.trySendBandwidth ⟨twoCaps⟩
    2100000000 8000 0 = some (.wait 233333333, e') ∧
      ∃ o', NetworkPatternEmulator.trySendAt ⟨twoCaps⟩ (secs 2100000000) 8000 (secs 0) =
        some (o', e') ∧ o' ≠ .sent := by
  obtain ⟨⟨o, e'⟩, hcall, ho⟩ := Option.map_eq_some_iff.1 (show
    (NetworkPatternEmulator.trySendBandwidth ⟨twoCaps⟩ 2100000000 8000 0).map Prod.fst =
      some (.wait 233333333) by decide +kernel)
  obtain rfl : o = .wait 233333333 := ho
  obtain ⟨o', hexact, hsent, -⟩ := trySendBandwidth_exact hcall
  exact ⟨e', hcall, o', hexact, mt hsent.1 nofun⟩

/-! ## What a call finds -/

/-- The bandwidth patterns of a list that are valid at a time. -/
def activesAt (now : ℚ) (ps : List NetworkPattern) : List Bandwidth :=
  ps.filterMap fun
    | .bandwidth b => if b.activeAt now then some b else none
    | _ => none

theorem mem_activesAt :
    b ∈ activesAt now ps ↔ .bandwidth b ∈ ps ∧ b.activeAt now = true := by
  rw [activesAt, List.mem_filterMap]
  constructor
  · rintro ⟨p, hp, hb⟩
    cases p with
    | bandwidth c =>
      obtain ⟨hactive, rfl⟩ : c.activeAt now = true ∧ c = b := by simpa using hb
      exact ⟨hp, hactive⟩
    | _ => cases hb
  · rintro ⟨hp, hactive⟩
    exact ⟨_, hp, by simp [hactive]⟩

/-- The pattern is refilled if it is valid. -/
def refilledAt (now : ℚ) : NetworkPattern → NetworkPattern
  | .bandwidth b => .bandwidth (if b.activeAt now then b.refillAt now else b)
  | p => p

/-- The time it takes from the last refill until the bucket holds `bits` tokens. -/
def Bandwidth.timeToAfford (b : Bandwidth) (bits : ℚ) : ℚ :=
  (bits - b.currentTokens) / b.tokenRefillRate

/-- What the first loop makes of the active patterns `bs`, all of which gain tokens, from `k`
to `k'`. -/
structure PeekedAt (now bits : ℚ) (k k' : ExactPeek) (bs : List Bandwidth) : Prop where
  active : k'.anyActive = true ↔ k.anyActive = true ∨ bs ≠ []
  sufficient : k'.allSufficient = true ↔
    k.allSufficient = true ∧ ∀ b ∈ bs, bits ≤ (b.refillAt now).currentTokens
  covers : k.maxWait ≤ k'.maxWait ∧ ∀ b ∈ bs, (b.refillAt now).currentTokens < bits →
    (b.refillAt now).timeToAfford bits ≤ k'.maxWait
  attained : k'.maxWait = k.maxWait ∨ ∃ b ∈ bs, (b.refillAt now).currentTokens < bits ∧
    (b.refillAt now).timeToAfford bits = k'.maxWait
  limited : (k.allSufficient = false → k.minLimit.isSome) →
    k'.allSufficient = false → k'.minLimit.isSome

theorem ExactPeek.check_spec (now : ℚ) (k : ExactPeek) (bits : ℚ) (hrate : 0 < b.tokenRefillRate) :
    ∃ k', k.check bits (b.refillAt now) = some k' ∧ PeekedAt now bits k k' [b] := by
  have hrate' : 0 < (b.refillAt now).tokenRefillRate := hrate
  unfold ExactPeek.check
  by_cases hshort : (b.refillAt now).currentTokens < bits
  · rw [if_pos hshort, if_pos hrate']
    refine ⟨_, rfl, ⟨by simp, by simpa using fun _ => hshort, ⟨le_max_left _ _, ?_⟩, ?_, by simp⟩⟩
    · intro c hc _
      obtain rfl := List.mem_singleton.1 hc
      exact le_max_right _ _
    · rcases max_choice k.maxWait ((b.refillAt now).timeToAfford bits) with h | h
      · exact .inl h
      · exact .inr ⟨b, List.mem_singleton.2 rfl, hshort, h.symm⟩
  · rw [if_neg hshort]
    refine ⟨_, rfl, ⟨by simp, ?_, ⟨le_rfl, ?_⟩, .inl rfl, fun h => h⟩⟩
    · simpa using fun _ => not_lt.1 hshort
    · intro c hc hc'
      obtain rfl := List.mem_singleton.1 hc
      exact absurd hc' hshort

theorem PeekedAt.trans {k k₁ k' : ExactPeek} {bs cs : List Bandwidth}
    (h : PeekedAt now bits k k₁ bs) (h' : PeekedAt now bits k₁ k' cs) :
    PeekedAt now bits k k' (bs ++ cs) where
  active := by
    rw [h'.active, h.active, or_assoc]
    simp only [ne_eq, List.append_eq_nil_iff, not_and_or]
  sufficient := by
    rw [h'.sufficient, h.sufficient, and_assoc]
    simp only [List.forall_mem_append]
  covers := by
    refine ⟨h.covers.1.trans h'.covers.1, List.forall_mem_append.2 ⟨?_, h'.covers.2⟩⟩
    exact fun b hb hshort => (h.covers.2 b hb hshort).trans h'.covers.1
  attained := by
    rcases h'.attained with heq | ⟨b, hb, hshort, heq⟩
    · rw [heq]
      rcases h.attained with heq | ⟨b, hb, hshort, heq⟩
      · exact .inl heq
      · exact .inr ⟨b, List.mem_append_left _ hb, hshort, heq⟩
    · exact .inr ⟨b, List.mem_append_right _ hb, hshort, heq⟩
  limited := fun hk => h'.limited (h.limited hk)

/-- **The first loop**, over patterns that gain tokens. -/
theorem peekAt_spec (now bits : ℚ) (k : ExactPeek)
    (hrates : ∀ b, .bandwidth b ∈ ps → 0 < b.tokenRefillRate) :
    ∃ k', peekAt now bits k ps = some (k', ps.map (refilledAt now)) ∧
      PeekedAt now bits k k' (activesAt now ps) := by
  induction ps generalizing k with
  | nil => exact ⟨k, rfl, ⟨by simp [activesAt], by simp [activesAt], ⟨le_rfl, by simp [activesAt]⟩,
      .inl rfl, fun h => h⟩⟩
  | cons p ps ih =>
    have hrest := fun k => ih k fun b hb => hrates b (List.mem_cons_of_mem p hb)
    cases p with
    | bandwidth b =>
      rw [peekAt]
      split
      · rename_i hactive
        obtain ⟨k₁, hcheck, hfirst⟩ := ExactPeek.check_spec now k bits (hrates b (by simp))
        obtain ⟨k', hpeek, hpeeked⟩ := hrest k₁
        refine ⟨k', ?_, ?_⟩
        · simp [hcheck, hpeek, refilledAt, hactive]
        · have hactives : activesAt now (.bandwidth b :: ps) = [b] ++ activesAt now ps := by
            simp [activesAt, hactive]
          rw [hactives]
          exact hfirst.trans hpeeked
      · rename_i hactive
        obtain ⟨k', hpeek, hpeeked⟩ := hrest k
        refine ⟨k', by simp [hpeek, refilledAt, hactive], ?_⟩
        simpa [activesAt, hactive] using hpeeked
    | _ =>
      obtain ⟨k', hpeek, hpeeked⟩ := hrest k
      exact ⟨k', by simp [peekAt, hpeek, refilledAt], by simpa [activesAt] using hpeeked⟩

/-- If some pattern is short, the wait found is the longest time that one of them needs. -/
theorem PeekedAt.longest {k : ExactPeek} {bs : List Bandwidth}
    (h : PeekedAt now bits {} k bs) (hpos : ∀ b ∈ bs, 0 < (b.refillAt now).tokenRefillRate)
    {b₀ : Bandwidth} (hb₀ : b₀ ∈ bs) (hshort₀ : (b₀.refillAt now).currentTokens < bits) :
    (∀ b ∈ bs, (b.refillAt now).timeToAfford bits ≤ k.maxWait) ∧
      ∃ b ∈ bs, (b.refillAt now).timeToAfford bits = k.maxWait ∧ 0 < k.maxWait := by
  have hwait : 0 < k.maxWait :=
    lt_of_lt_of_le (div_pos (sub_pos.2 hshort₀) (hpos b₀ hb₀)) (h.covers.2 b₀ hb₀ hshort₀)
  refine ⟨fun b hb => ?_, ?_⟩
  · by_cases hshort : (b.refillAt now).currentTokens < bits
    · exact h.covers.2 b hb hshort
    · exact (div_nonpos_of_nonpos_of_nonneg (sub_nonpos.2 (not_lt.1 hshort))
        (hpos b hb).le).trans hwait.le
  · rcases h.attained with hzero | ⟨b, hb, -, heq⟩
    · exact absurd hzero hwait.ne'
    · exact ⟨b, hb, heq, hwait⟩

/-- **What a call answers**, when all patterns gain tokens: the packet is sent if every
active pattern can pay, and a wait is the longest time that one of the others needs. -/
theorem trySendAt_spec {e : NetworkPatternEmulator}
    (hrates : ∀ b, .bandwidth b ∈ e.patterns → 0 < b.tokenRefillRate) (now bits elapsedWait : ℚ) :
    ∃ o e', e.trySendAt now bits elapsedWait = some (o, e') ∧
      (o = .sent ↔ ∀ b ∈ activesAt now e.patterns, bits ≤ (b.refillAt now).currentTokens) ∧
      (o ≠ .sent → e'.patterns = e.patterns.map (refilledAt now)) ∧
      ∀ w, o = .wait w →
        (∀ b ∈ activesAt now e.patterns, (b.refillAt now).timeToAfford bits ≤ w) ∧
        ∃ b ∈ activesAt now e.patterns, (b.refillAt now).timeToAfford bits = w ∧ 0 < w := by
  obtain ⟨k, hpeek, hpeeked⟩ := peekAt_spec now bits {} hrates
  unfold NetworkPatternEmulator.trySendAt
  rw [hpeek]
  have hpos : ∀ b ∈ activesAt now e.patterns, 0 < (b.refillAt now).tokenRefillRate :=
    fun b hb => hrates b (mem_activesAt.1 hb).1
  -- As in the source: no active pattern, enough tokens in all of them, or a wait.
  by_cases hactive : k.anyActive = true
  · by_cases hall : k.allSufficient = true
    · refine ⟨.sent,
        { e with patterns := (e.patterns.map (refilledAt now)).map (debitAt now bits) },
        by simp [hactive, hall], ?_, by simp, by simp⟩
      simpa using (hpeeked.sufficient.1 hall).2
    · -- some active pattern is short
      obtain ⟨b₀, hb₀, hshort₀⟩ : ∃ b ∈ activesAt now e.patterns,
          (b.refillAt now).currentTokens < bits := by
        by_contra hnone
        push Not at hnone
        exact hall (hpeeked.sufficient.2 ⟨rfl, hnone⟩)
      obtain ⟨limit, hlimit⟩ := Option.isSome_iff_exists.1
        (hpeeked.limited (by simp) (by simpa using hall))
      have hnot : ¬ ∀ b ∈ activesAt now e.patterns, bits ≤ (b.refillAt now).currentTokens :=
        fun h => absurd (h b₀ hb₀) (not_le.2 hshort₀)
      by_cases hover : limit < elapsedWait + k.maxWait
      · refine ⟨.exceedsLimit, { e with patterns := e.patterns.map (refilledAt now) },
          by simp [hactive, hall, hlimit, hover], by simpa using hnot, by simp, by simp⟩
      · refine ⟨.wait k.maxWait, { e with patterns := e.patterns.map (refilledAt now) },
          by simp [hactive, hall, hlimit, hover], by simpa using hnot, by simp, ?_⟩
        rintro w ⟨rfl⟩
        exact hpeeked.longest hpos hb₀ hshort₀
  · have hnil : activesAt now e.patterns = [] := by
      by_contra hne
      exact hactive (hpeeked.active.2 (.inr hne))
    refine ⟨.sent, { e with patterns := e.patterns.map (refilledAt now) }, by simp [hactive], ?_,
      by simp, by simp⟩
    simp [hnil]

/-! ## The wait is exact -/

/-- The same patterns are valid at both times. -/
def SameActive (ps : List NetworkPattern) (now t : ℚ) : Prop :=
  ∀ b, .bandwidth b ∈ ps → b.activeAt t = b.activeAt now

theorem activesAt_refilled {t : ℚ} (hsame : SameActive ps now t) :
    activesAt t (ps.map (refilledAt now)) = (activesAt now ps).map (·.refillAt now) := by
  induction ps with
  | nil => rfl
  | cons p ps ih =>
    have hrest := ih fun b hb => hsame b (List.mem_cons_of_mem p hb)
    unfold activesAt at hrest ⊢
    cases p with
    | bandwidth b =>
      have hb := hsame b (by simp)
      have hrefill : (b.refillAt now).activeAt t = b.activeAt t := rfl
      cases hactive : b.activeAt now with
      | true => simp [refilledAt, hactive, hrefill, hb, hrest]
      | false => simp [refilledAt, hactive, hb, hrest]
    | _ => simp [refilledAt, hrest]

theorem rates_refilled (hrates : ∀ b, .bandwidth b ∈ ps → 0 < b.tokenRefillRate) (now : ℚ) :
    ∀ b, .bandwidth b ∈ ps.map (refilledAt now) → 0 < b.tokenRefillRate := by
  intro b hb
  obtain ⟨p, hp, heq⟩ := List.mem_map.1 hb
  cases p with
  | bandwidth c =>
    have hc := hrates c hp
    rw [refilledAt, NetworkPattern.bandwidth.injEq] at heq
    subst heq
    split <;> exact hc
  | _ => cases heq

/-- A bucket refilled now holds enough tokens from the time on that it needs. -/
theorem afford_iff {t : ℚ} (hrate : 0 < b.tokenRefillRate) (hfits : bits ≤ b.maxTokens) :
    bits ≤ ((b.refillAt now).refillAt t).currentTokens ↔
      now + (b.refillAt now).timeToAfford bits ≤ t :=
  TokenBucket.le_tokens_refill_iff (b := (b.refillAt now).bucket) hrate hfits

/-- **The wait is sufficient and no longer than necessary**: let every pattern gain tokens, as
the constructors make sure, and let the packet fit into the bucket of every pattern that is
active. If it is told to wait `w`, and the same patterns stay active, then a call for it
before `now + w` does not send it, and a call at `now + w` does. -/
theorem wait_exact {e e' : NetworkPatternEmulator} {now bits elapsedWait w : ℚ}
    (hrates : ∀ b, .bandwidth b ∈ e.patterns → 0 < b.tokenRefillRate)
    (hfits : ∀ b, .bandwidth b ∈ e.patterns → b.activeAt now → bits ≤ b.maxTokens)
    (h : e.trySendAt now bits elapsedWait = some (.wait w, e')) :
    (∀ t elapsed, now ≤ t → t < now + w → SameActive e.patterns now t →
      ∃ o e'', e'.trySendAt t bits elapsed = some (o, e'') ∧ o ≠ .sent) ∧
    (∀ elapsed, SameActive e.patterns now (now + w) →
      ∃ e'', e'.trySendAt (now + w) bits elapsed = some (.sent, e'')) := by
  obtain ⟨o, e₁, hcall, hsent, hpatterns, hwait⟩ := trySendAt_spec hrates now bits elapsedWait
  obtain ⟨rfl, rfl⟩ : o = .wait w ∧ e₁ = e' := by
    rw [h] at hcall
    simpa [eq_comm] using hcall
  have hafter := hpatterns (by simp)
  obtain ⟨hlongest, b₀, hb₀, heq, hw⟩ := hwait w rfl
  have hrates' := rates_refilled hrates now
  rw [← hafter] at hrates'
  -- what a later call answers is a matter of the times the buckets need
  have hlater : ∀ t elapsed, SameActive e.patterns now t →
      ∃ o e'', e₁.trySendAt t bits elapsed = some (o, e'') ∧
        (o = .sent ↔ ∀ b ∈ activesAt now e.patterns,
          now + (b.refillAt now).timeToAfford bits ≤ t) := by
    intro t elapsed hsame
    obtain ⟨o', e'', hcall', hsent', -⟩ := trySendAt_spec hrates' t bits elapsed
    refine ⟨o', e'', hcall', hsent'.trans ?_⟩
    rw [hafter, activesAt_refilled hsame, List.forall_mem_map]
    refine forall₂_congr fun b hb => ?_
    obtain ⟨hmem, hactive⟩ := mem_activesAt.1 hb
    exact afford_iff (hrates b hmem) (hfits b hmem hactive)
  refine ⟨fun t elapsed _ hbefore hsame => ?_, fun elapsed hsame => ?_⟩
  · obtain ⟨o', e'', hcall', hiff⟩ := hlater t elapsed hsame
    refine ⟨o', e'', hcall', fun hsent' => ?_⟩
    have := hiff.1 hsent' b₀ hb₀
    rw [heq] at this
    exact absurd hbefore (not_lt.2 this)
  · obtain ⟨o', e'', hcall', hiff⟩ := hlater (now + w) elapsed hsame
    obtain rfl := hiff.2 fun b hb => add_le_add_right (hlongest b hb) now
    exact ⟨e'', hcall'⟩

/-- Under both caps, 8000 bits 0.1 s after the second cap has become valid: the first cap has
enough tokens, the second needs 7/30 s more, which is no whole number of nanoseconds. -/
theorem wait_exact_two : ∃ e',
    NetworkPatternEmulator.trySendAt ⟨twoCaps⟩ (21 / 10) 8000 0 = some (.wait (7 / 30), e') ∧
      ∃ e'', e'.trySendAt (21 / 10 + 7 / 30) 8000 (7 / 30) = some (.sent, e'') := by
  obtain ⟨⟨o, e'⟩, hcall, ho⟩ := Option.map_eq_some_iff.1 (show
    (NetworkPatternEmulator.trySendAt ⟨twoCaps⟩ (21 / 10) 8000 0).map Prod.fst =
      some (.wait (7 / 30)) by decide +kernel)
  obtain rfl : o = .wait (7 / 30) := ho
  have hcaps : ∀ b, .bandwidth b ∈ twoCaps → 8000 ≤ b.maxTokens ∧
      b.activeAt (21 / 10 + 7 / 30) = b.activeAt (21 / 10) := by
    intro b hb
    have hall : ∀ p ∈ twoCaps, (match p with
        | .bandwidth b => decide (8000 ≤ b.maxTokens ∧
          b.activeAt (21 / 10 + 7 / 30) = b.activeAt (21 / 10))
        | _ => true) = true := by
      decide +kernel
    exact of_decide_eq_true (hall _ hb)
  exact ⟨e', hcall, (wait_exact (fun b hb => (twoCaps_built _ hb).start.1)
    (fun b hb _ => (hcaps b hb).1) hcall).2 _ fun b hb => (hcaps b hb).2⟩

end SiestaVR.Emu
