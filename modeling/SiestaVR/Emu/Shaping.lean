import SiestaVR.Lib.TokenBucket
import SiestaVR.Emu.Pattern
import Mathlib.Tactic.Ring

/-!
# The bandwidth patterns as token buckets

`try_send_bandwidth` refills every bandwidth pattern that is valid at the time of the
call, and lets the packet through if all of them hold enough tokens; then all of them
pay. Seen from one pattern, a call while it is valid is a use of its token bucket, for
the size of the packet or for nothing (`Bandwidth.use_bucket`), and a call while it is not
valid does not touch it. So whatever the other patterns are, the history of each pattern
is a run of a token bucket (`Shaped`), and the bounds of token buckets are bounds on the
bits that are sent while the pattern is valid.
-/

namespace SiestaVR.Emu

open SiestaVR.Lib

/-! ## One call -/

/-- The bucket of a bandwidth pattern. -/
def Bandwidth.bucket (b : Bandwidth) : TokenBucket ℚ where
  rate := b.tokenRefillRate
  capacity := b.maxTokens
  tokens := b.currentTokens
  lastRefill := b.lastRefill

/-- The pattern is refilled if it is valid, and nothing is debited. -/
def refilled (now : Nat) : NetworkPattern → NetworkPattern
  | .bandwidth b => .bandwidth (if b.active now then b.refill now else b)
  | p => p

/-- The pattern is refilled and pays `x`, if it is valid. -/
def Bandwidth.charge (b : Bandwidth) (now : Nat) (x : ℚ) : Bandwidth :=
  if b.active now then
    { b.refill now with currentTokens := (b.refill now).currentTokens - x }
  else b

/-- What a packet costs the patterns, by the outcome of the attempt to send it. -/
def BandwidthOutcome.cost (o : BandwidthOutcome) (bits : ℚ) : ℚ := if o = .sent then bits else 0

/-- The pattern can pay for the packet, if it is valid. -/
def Affords (now : Nat) (bits : ℚ) (p : NetworkPattern) : Prop :=
  ∀ b, p = .bandwidth b → b.active now → bits ≤ (b.refill now).currentTokens

theorem active_refill (b : Bandwidth) (now now' : Nat) :
    (b.refill now).active now' = b.active now' := rfl

theorem debit_refilled (now : Nat) (bits : ℚ) (b : Bandwidth) :
    debit now bits (refilled now (.bandwidth b)) = .bandwidth (b.charge now bits) := by
  by_cases hactive : b.active now
  · simp [refilled, debit, Bandwidth.charge, hactive, active_refill]
  · simp [refilled, debit, Bandwidth.charge, hactive]

theorem refilled_eq_charge (now : Nat) (b : Bandwidth) :
    refilled now (.bandwidth b) = .bandwidth (b.charge now 0) := by
  simp only [refilled, Bandwidth.charge, sub_zero]

variable {b b₀ : Bandwidth} {now : Nat} {o : BandwidthOutcome}

theorem Peek.check_spec {k k' : Peek} {bits : ℚ} (h : k.check bits b = some k') :
    k'.anyActive ∧ (k'.allSufficient → k.allSufficient ∧ bits ≤ b.currentTokens) := by
  unfold Peek.check at h
  split at h
  · obtain ⟨wait, -, hk⟩ := Option.bind_eq_some_iff.1 h
    cases hk
    exact ⟨rfl, fun hall => absurd hall (by simp)⟩
  · rename_i henough
    cases h
    exact ⟨rfl, fun hall => ⟨hall, not_lt.1 henough⟩⟩

/-- What the first loop makes of the patterns `ps`, from `k` to `k'`: it refills, and finds out
whether some pattern is valid and whether all that are valid have enough tokens. -/
structure Peeked (now : Nat) (bits : ℚ) (k k' : Peek) (ps ps' : List NetworkPattern) : Prop where
  refills : ps' = ps.map (refilled now)
  sufficient : k'.allSufficient → k.allSufficient ∧ ∀ p ∈ ps, Affords now bits p
  inactive : k'.anyActive = false →
    k.anyActive = false ∧ ∀ b, .bandwidth b ∈ ps → ¬ b.active now

section Peeked

variable {now : Nat} {bits : ℚ} {k k₁ k' : Peek} {p : NetworkPattern} {b : Bandwidth}
  {ps ps' : List NetworkPattern}

theorem Peeked.skip (h : Peeked now bits k k' ps ps') (hrefilled : refilled now p = p)
    (hinactive : ∀ b, p = .bandwidth b → ¬ b.active now) :
    Peeked now bits k k' (p :: ps) (p :: ps') where
  refills := by rw [List.map_cons, hrefilled, h.refills]
  sufficient hall := ⟨(h.sufficient hall).1, List.forall_mem_cons.2
    ⟨fun b hb hactive => absurd hactive (hinactive b hb), (h.sufficient hall).2⟩⟩
  inactive hnone := by
    refine ⟨(h.inactive hnone).1, fun b hb => ?_⟩
    rcases List.mem_cons.1 hb with hb | hb
    · exact hinactive b hb.symm
    · exact (h.inactive hnone).2 b hb

theorem Peeked.check (h : Peeked now bits k₁ k' ps ps') (hactive : b.active now)
    (hcheck : k.check bits (b.refill now) = some k₁) :
    Peeked now bits k k' (.bandwidth b :: ps) (.bandwidth (b.refill now) :: ps') := by
  obtain ⟨hseen, hsufficient⟩ := Peek.check_spec hcheck
  refine ⟨by simp [refilled, hactive, h.refills], fun hall => ?_, fun hnone => ?_⟩
  · obtain ⟨hall₁, hrest⟩ := h.sufficient hall
    refine ⟨(hsufficient hall₁).1, List.forall_mem_cons.2 ⟨?_, hrest⟩⟩
    rintro _ ⟨rfl⟩ -
    exact (hsufficient hall₁).2
  · rw [(h.inactive hnone).1] at hseen
    cases hseen

end Peeked

theorem peek_spec {bits : ℚ} {k k' : Peek} {ps ps' : List NetworkPattern}
    (h : peek now bits k ps = some (k', ps')) : Peeked now bits k k' ps ps' := by
  induction ps generalizing k ps' with
  | nil =>
    cases h
    exact ⟨rfl, fun hall => ⟨hall, by simp⟩, fun hnone => ⟨hnone, by simp⟩⟩
  | cons p ps ih =>
    have skip (hskip : (peek now bits k ps).map (fun x => (x.1, p :: x.2)) = some (k', ps'))
        (hrefilled : refilled now p = p) (hinactive : ∀ b, p = .bandwidth b → ¬ b.active now) :
        Peeked now bits k k' (p :: ps) ps' := by
      obtain ⟨⟨k₁, ps₁⟩, hrest, heq⟩ := Option.map_eq_some_iff.1 hskip
      cases heq
      exact (ih hrest).skip hrefilled hinactive
    cases p with
    | bandwidth b =>
      rw [peek] at h
      split at h
      · rename_i hactive
        obtain ⟨k₁, hcheck, h⟩ := Option.bind_eq_some_iff.1 h
        obtain ⟨⟨k₂, ps₂⟩, hrest, heq⟩ := Option.bind_eq_some_iff.1 h
        cases heq
        exact (ih hrest).check hactive hcheck
      · rename_i hactive
        refine skip h (by simp [refilled, hactive]) ?_
        rintro _ ⟨rfl⟩
        exact hactive
    | constant => exact skip h rfl (by simp)
    | onOffPeriodic => exact skip h rfl (by simp)
    | probabilisticDrop d => exact skip h rfl (by simp)
    | jitter j => exact skip h rfl (by simp)

/-- What a call does to a pattern: it is refilled, and pays if the packet is sent. -/
def charged (now : Nat) (x : ℚ) : NetworkPattern → NetworkPattern
  | .bandwidth b => .bandwidth (b.charge now x)
  | p => p

theorem refilled_eq_charged (now : Nat) : refilled now = charged now 0 := by
  funext p
  cases p with
  | bandwidth b => exact refilled_eq_charge now b
  | _ => rfl

theorem debit_comp_refilled (now : Nat) (bits : ℚ) :
    debit now bits ∘ refilled now = charged now bits := by
  funext p
  cases p with
  | bandwidth b => exact debit_refilled now bits b
  | _ => rfl

/-- **What a call does**: every pattern is refilled and charged the cost of the packet,
which is sent only if all patterns can pay for it. -/
theorem trySendBandwidth_spec {e e' : NetworkPatternEmulator} {elapsedWait : Nat} {bits : ℚ}
    (h : e.trySendBandwidth now bits elapsedWait = some (o, e')) :
    e'.patterns = e.patterns.map (charged now (o.cost bits)) ∧
      (o = .sent → ∀ p ∈ e.patterns, Affords now bits p) := by
  obtain ⟨⟨k, ps⟩, hpeek, h⟩ := Option.bind_eq_some_iff.1 h
  obtain ⟨rfl, hall, hany⟩ := peek_spec hpeek
  -- An attempt that fails leaves the patterns refilled.
  have hfail (o : BandwidthOutcome) (ho : o ≠ .sent) :
      e.patterns.map (refilled now) = e.patterns.map (charged now (o.cost bits)) := by
    rw [BandwidthOutcome.cost, if_neg ho, refilled_eq_charged]
  simp only at h
  split at h
  · rename_i hnone
    have hinactive := (hany (by simpa using hnone)).2
    cases h
    refine ⟨List.map_congr_left fun p hp => ?_, ?_⟩
    · cases p with
      | bandwidth b => simp [refilled, charged, Bandwidth.charge, hinactive b hp]
      | _ => rfl
    · rintro - _ hp b rfl hactive
      exact absurd hactive (hinactive b hp)
  · split at h
    · rename_i hsufficient
      cases h
      refine ⟨?_, fun _ => (hall hsufficient).2⟩
      rw [List.map_map, debit_comp_refilled]
      rfl
    · obtain ⟨limit, -, h⟩ := Option.bind_eq_some_iff.1 h
      obtain ⟨total, -, h⟩ := Option.bind_eq_some_iff.1 h
      split at h
      · cases h
        exact ⟨hfail _ (by simp), by simp⟩
      · cases h
        exact ⟨hfail _ (by simp), by simp⟩

/-- Seen from a pattern that is valid, the call is a use of its bucket. -/
theorem Bandwidth.use_bucket {x : ℚ} (hactive : b.active now)
    (hlast : b.lastRefill ≤ secs now) (hpos : 0 ≤ x) (henough : x ≤ (b.refill now).currentTokens) :
    b.bucket.use (secs now, x) = some (b.charge now x).bucket := by
  refine TokenBucket.use_eq_some.2 ⟨⟨hlast, hpos, henough⟩, ?_⟩
  rw [Bandwidth.charge, if_pos hactive]
  rfl

/-! ## Sequences of calls -/

/-- A call of `try_send_bandwidth`; a packet has no negative size. -/
structure Call where
  now : Nat
  bits : ℚ
  elapsedWait : Nat
  bits_nonneg : 0 ≤ bits

/-- The emulator, and the calls made so far with their outcomes. -/
structure Traffic where
  emulator : NetworkPatternEmulator
  log : List (Call × BandwidthOutcome) := []

namespace Traffic

/-- One more call. -/
def step (t : Traffic) (c : Call) : Option Traffic :=
  (t.emulator.trySendBandwidth c.now c.bits c.elapsedWait).map fun (o, e) =>
    { emulator := e, log := t.log ++ [(c, o)] }

/-- The call is not made before an earlier one. -/
def InOrder (t : Traffic) (c : Call) : Prop := ∀ x ∈ t.log, x.1.now ≤ c.now

instance (t : Traffic) (c : Call) : Decidable (t.InOrder c) :=
  inferInstanceAs (Decidable (∀ x ∈ t.log, x.1.now ≤ c.now))

/-- The bits reported as sent from time `s` to time `u` while the pattern was valid. -/
def sentBits (t : Traffic) (b : Bandwidth) (s u : Nat) : ℚ :=
  ((t.log.filter fun x => x.2 = .sent ∧ b.active x.1.now ∧ s ≤ x.1.now ∧ x.1.now ≤ u).map
    (·.1.bits)).sum

end Traffic

/-- The uses the calls make of the bucket of a pattern. -/
def usesOf (b : Bandwidth) (log : List (Call × BandwidthOutcome)) : List (ℚ × ℚ) :=
  (log.filter fun x => b.active x.1.now).map fun x => (secs x.1.now, x.2.cost x.1.bits)

variable {log : List (Call × BandwidthOutcome)} {c : Call}

theorem usesOf_append_of_active (h : b.active c.now) :
    usesOf b (log ++ [(c, o)]) = usesOf b log ++ [(secs c.now, o.cost c.bits)] := by
  simp [usesOf, h]

theorem usesOf_append_of_not_active (h : ¬ b.active c.now) :
    usesOf b (log ++ [(c, o)]) = usesOf b log := by
  simp [usesOf, h]

theorem secs_le_secs {t t' : Nat} : secs t ≤ secs t' ↔ t ≤ t' := by
  rw [secs, secs, div_le_div_iff_of_pos_right (by norm_num), Nat.cast_le]

theorem secs_sub {t t' : Nat} (h : t' ≤ t) : secs (t - t') = secs t - secs t' := by
  rw [secs, secs, secs, Nat.cast_sub h, sub_div]

theorem Traffic.sentBits_eq_drawnIn (t : Traffic) (b : Bandwidth) (s u : Nat) :
    t.sentBits b s u = TokenBucket.drawnIn (secs s) (secs u) (usesOf b t.log) := by
  obtain ⟨e, log⟩ := t
  induction log with
  | nil => rfl
  | cons x log ih =>
    simp only [Traffic.sentBits, usesOf, TokenBucket.drawnIn] at ih ⊢
    by_cases hactive : b.active x.1.now
    · by_cases hwindow : s ≤ x.1.now ∧ x.1.now ≤ u
      · by_cases hsent : x.2 = .sent
        · simpa [hactive, hwindow, hsent, secs_le_secs, BandwidthOutcome.cost] using ih
        · simpa [hactive, hwindow, hsent, secs_le_secs, BandwidthOutcome.cost] using ih
      · simpa [hactive, hwindow, secs_le_secs] using ih
    · simpa [hactive] using ih

/-- A pattern in the state its bucket is in after the calls of the log. -/
structure Shaped (b₀ b : Bandwidth) (log : List (Call × BandwidthOutcome)) : Prop where
  /-- Only the tokens and the time of the last refill change. -/
  limits : b = { b₀ with currentTokens := b.currentTokens, lastRefill := b.lastRefill }
  uses : runs TokenBucket.use b₀.bucket (usesOf b₀ log) = some b.bucket
  /-- The last refill was a call, or is the time the pattern becomes valid. -/
  lastRefill : ∀ n, b₀.validFrom ≤ n → (∀ x ∈ log, x.1.now ≤ n) → b.lastRefill ≤ secs n

theorem Shaped.active (h : Shaped b₀ b log) (now : Nat) : b.active now = b₀.active now := by
  rw [h.limits]
  rfl

theorem le_of_active (h : b.active now) : b.validFrom ≤ now := by
  simp only [Bandwidth.active, validAt, Bool.and_eq_true, decide_eq_true_eq] at h
  exact h.1

/-- **Step**: a call that is not made before an earlier one is one more use of the bucket, or
none at all. -/
theorem Shaped.charge (h : Shaped b₀ b log) (hnow : ∀ x ∈ log, x.1.now ≤ c.now)
    (hafford : o = .sent → Affords c.now c.bits (.bandwidth b)) (hfilled : b.bucket.Sound) :
    Shaped b₀ (b.charge c.now (o.cost c.bits)) (log ++ [(c, o)]) := by
  by_cases hactive : b.active c.now
  · have hlast : b.lastRefill ≤ secs c.now :=
      h.lastRefill c.now (le_of_active (h.active c.now ▸ hactive)) hnow
    have hcost : 0 ≤ o.cost c.bits ∧ o.cost c.bits ≤ (b.refill c.now).currentTokens := by
      by_cases ho : o = .sent
      · rw [BandwidthOutcome.cost, if_pos ho]
        exact ⟨c.bits_nonneg, hafford ho b rfl hactive⟩
      · rw [BandwidthOutcome.cost, if_neg ho]
        refine ⟨le_rfl, le_min (add_nonneg hfilled.tokens_nonneg ?_)
          (hfilled.tokens_nonneg.trans hfilled.tokens_le)⟩
        exact mul_nonneg (sub_nonneg.2 hlast) hfilled.rate_nonneg
    refine ⟨?_, ?_, ?_⟩
    · rw [Bandwidth.charge, if_pos hactive, h.limits]
      rfl
    · rw [usesOf_append_of_active (h.active c.now ▸ hactive), runs_append, h.uses, Option.bind_some,
        runs, b.use_bucket hactive hlast hcost.1 hcost.2]
      rfl
    · intro n _ hn
      rw [Bandwidth.charge, if_pos hactive]
      exact secs_le_secs.2 (hn (c, o) (List.mem_append_right _ List.mem_cons_self))
  · rw [Bandwidth.charge, if_neg hactive]
    refine ⟨h.limits, ?_, fun n hfrom hn => ?_⟩
    · rw [usesOf_append_of_not_active (h.active c.now ▸ hactive), h.uses]
    · exact h.lastRefill n hfrom fun x hx => hn x (List.mem_append_left _ hx)

/-! ## Patterns as they are constructed -/

/-- A bandwidth pattern is built by the constructor, with a burst window (a length of time)
that is not negative, and perhaps made pacing-only afterwards. The program passes
`bandwidthBurstMs` and `NIC_CAP_BURST_MS`. -/
def NetworkPattern.Built (p : NetworkPattern) : Prop :=
  ∀ b, p = .bandwidth b → ∃ maxBps tokenRefillRate validFrom validUntil burstMs legacy,
    0 ≤ burstMs ∧
    (newBandwidthWithBurstMs maxBps tokenRefillRate validFrom validUntil burstMs).map
      (makePacingOnly legacy) = some p

theorem NetworkPattern.Built.of_newBandwidth {maxBps tokenRefillRate : ℚ}
    {validFrom validUntil : Nat} {p : NetworkPattern}
    (h : newBandwidth maxBps tokenRefillRate validFrom validUntil = some p) : p.Built := by
  intro b _
  refine ⟨maxBps, tokenRefillRate, validFrom, validUntil, bandwidthBurstMs, true, ?_, ?_⟩
  · norm_num [bandwidthBurstMs, bandwidthBurstFrames, bandwidthBurstMinFps]
  · rw [← newBandwidth, h, Option.map_some]
    cases p <;> rfl

theorem pos_of_fromQuotient {a b : ℚ} {d : Nat} (ha : 0 < a)
    (h : Duration.fromQuotient a b = some d) : 0 < b := by
  unfold Duration.fromQuotient at h
  split at h
  · cases h
  · rename_i hzero
    have hquot : 0 ≤ a / b := Duration.nonneg_of_fromSecsF64 h
    by_contra hb
    have hneg : b < 0 := lt_of_le_of_ne (not_lt.1 hb) hzero
    exact absurd hquot (not_le.2 (div_neg_of_pos_of_neg ha hneg))

/-- A pattern has a positive rate, which its latency limit is divided by, and starts with an empty
bucket, to be refilled from the time it becomes valid. -/
theorem NetworkPattern.Built.start (h : (NetworkPattern.bandwidth b).Built) :
    0 < b.tokenRefillRate ∧ b.bucket.Sound ∧ b.currentTokens = 0 ∧
      b.lastRefill = secs b.validFrom := by
  obtain ⟨maxBps, rate, validFrom, validUntil, burstMs, legacy, hburst, hmake⟩ := h b rfl
  obtain ⟨p, hnew, hpacing⟩ := Option.map_eq_some_iff.1 hmake
  obtain ⟨maxLatency, hlatency, hp⟩ := Option.bind_eq_some_iff.1 hnew
  have hrate : 0 < rate :=
    pos_of_fromQuotient (by norm_num [netemDefaultLimitPackets, netemReferencePacketBits]) hlatency
  have hcapacity : 0 ≤ rate * burstMs / 1000 :=
    div_nonneg (mul_nonneg hrate.le hburst) (by norm_num)
  cases hp
  cases legacy <;> cases hpacing <;> exact ⟨hrate, ⟨hrate.le, le_rfl, hcapacity⟩, rfl, rfl⟩

theorem NetworkPattern.Built.shaped (h : (NetworkPattern.bandwidth b).Built) :
    Shaped b b [] := by
  refine ⟨rfl, rfl, fun n hn _ => ?_⟩
  rw [h.start.2.2.2]
  exact secs_le_secs.2 hn

/-- **Step**: a call in order leaves every pattern shaped by the calls made so far. -/
theorem shaped_step {patterns : List NetworkPattern} (hbuilt : ∀ p ∈ patterns, p.Built)
    {t t' : Traffic} {i : Nat}
    (hi : patterns[i]? = some (.bandwidth b₀)) (hb : t.emulator.patterns[i]? = some (.bandwidth b))
    (hshaped : Shaped b₀ b t.log) (horder : t.InOrder c) (hstep : t.step c = some t') :
    ∃ b', t'.emulator.patterns[i]? = some (.bandwidth b') ∧ Shaped b₀ b' t'.log := by
  obtain ⟨⟨o, e'⟩, hsend, rfl⟩ := Option.map_eq_some_iff.1 hstep
  obtain ⟨hpatterns, hafford⟩ := trySendBandwidth_spec hsend
  have hsound : b.bucket.Sound :=
    (hbuilt _ (List.mem_of_getElem? hi)).start.2.1.runs hshaped.uses
  refine ⟨b.charge c.now (o.cost c.bits), ?_, hshaped.charge horder ?_ hsound⟩
  · show e'.patterns[i]? = _
    rw [hpatterns, List.getElem?_map, hb]
    rfl
  · exact fun ho => hafford ho _ (List.mem_of_getElem? hb)

/-- **Run**: in every sequence of calls in order. -/
theorem shaped_run {patterns : List NetworkPattern} (hbuilt : ∀ p ∈ patterns, p.Built)
    {calls : List Call} {t : Traffic}
    (h : Run Traffic.step Traffic.InOrder ⟨⟨patterns⟩, []⟩ calls t) {i : Nat}
    (hi : patterns[i]? = some (.bandwidth b₀)) :
    ∃ b, t.emulator.patterns[i]? = some (.bandwidth b) ∧ Shaped b₀ b t.log := by
  refine Run.state_invariant
    (P := fun t => ∃ b, t.emulator.patterns[i]? = some (.bandwidth b) ∧ Shaped b₀ b t.log)
    ⟨b₀, hi, (hbuilt _ (List.mem_of_getElem? hi)).shaped⟩ ?_ h
  rintro t c t' ⟨b, hb, hshaped⟩ horder hstep
  exact shaped_step hbuilt hi hb hshaped horder hstep

/-- **The bandwidth emulator is a sound token bucket.** For patterns as the constructor
builds them and any calls in order: every bandwidth pattern keeps its limits and holds
between none and `maxTokens` tokens; the bits sent while it is valid stay, in every window,
within a full bucket and what is gained over the window, and within what is gained since
the pattern became valid; and a call that does not report `sent` only refills. -/
theorem token_buckets_sound {patterns : List NetworkPattern} (hbuilt : ∀ p ∈ patterns, p.Built)
    {calls : List Call} {t : Traffic}
    (h : Run Traffic.step Traffic.InOrder ⟨⟨patterns⟩, []⟩ calls t) :
    (∀ (i : Nat) (b₀ : Bandwidth), patterns[i]? = some (.bandwidth b₀) →
      ∃ b : Bandwidth, t.emulator.patterns[i]? = some (.bandwidth b) ∧
        b.maxTokens = b₀.maxTokens ∧ b.tokenRefillRate = b₀.tokenRefillRate ∧
        0 ≤ b.currentTokens ∧ b.currentTokens ≤ b.maxTokens ∧
        ∀ s length,
          t.sentBits b s (s + length) ≤ b.maxTokens + b.tokenRefillRate * secs length ∧
          t.sentBits b s (s + length) ≤ b.tokenRefillRate * secs (s + length - b.validFrom)) ∧
    ∀ (c : Call) o e', t.emulator.trySendBandwidth c.now c.bits c.elapsedWait = some (o, e') →
      o ≠ .sent → e'.patterns = t.emulator.patterns.map (refilled c.now) := by
  refine ⟨fun i b₀ hi => ?_, fun c o e' hsend ho => ?_⟩
  · obtain ⟨b, hb, hshaped⟩ := shaped_run hbuilt h hi
    obtain ⟨-, hsound₀, htokens, hlast⟩ := (hbuilt _ (List.mem_of_getElem? hi)).start
    have hsound := hsound₀.runs hshaped.uses
    have hcap : b.maxTokens = b₀.maxTokens := by rw [hshaped.limits]
    have hrate : b.tokenRefillRate = b₀.tokenRefillRate := by rw [hshaped.limits]
    have hfrom : b.validFrom = b₀.validFrom := by rw [hshaped.limits]
    refine ⟨b, hb, hcap, hrate, hsound.tokens_nonneg, hsound.tokens_le, fun s length => ?_⟩
    -- The bits sent while the pattern is valid are what was drawn from its bucket.
    have hsent : t.sentBits b s (s + length) =
        TokenBucket.drawnIn (secs s) (secs (s + length)) (usesOf b₀ t.log) := by
      rw [← t.sentBits_eq_drawnIn, Traffic.sentBits, Traffic.sentBits]
      simp only [hshaped.active]
    rw [hsent, hcap, hrate, hfrom]
    constructor
    · have hwindow := TokenBucket.drawnIn_le_window hsound₀ hshaped.uses
        (secs_le_secs.2 (Nat.le_add_right s length))
      rwa [← secs_sub (Nat.le_add_right s length), Nat.add_sub_cancel_left] at hwindow
    · have hstart : b₀.bucket.lastRefill = secs b₀.validFrom := hlast
      rcases Nat.lt_or_ge (s + length) b₀.validFrom with hearly | hvalid
      · -- The window is over before the pattern becomes valid.
        rw [TokenBucket.drawnIn_eq_zero, Nat.sub_eq_zero_of_le hearly.le, secs, Nat.cast_zero,
          zero_div, mul_zero]
        refine fun u hu => lt_of_lt_of_le ?_ (TokenBucket.lastRefill_le_of_runs hshaped.uses u hu)
        rw [hstart, ← not_le, secs_le_secs, not_le]
        exact hearly
      · have hcredit := TokenBucket.drawnIn_le_credit (s := secs s) hsound₀ hshaped.uses
          (hstart ▸ secs_le_secs.2 hvalid)
        rw [hstart, ← secs_sub hvalid] at hcredit
        change _ ≤ b₀.currentTokens + _ at hcredit
        rwa [htokens, zero_add] at hcredit
  · obtain ⟨hpatterns, -⟩ := trySendBandwidth_spec hsend
    rw [hpatterns, BandwidthOutcome.cost, if_neg ho, refilled_eq_charged]

/-- A cap of 64 kbit/s that is valid from the start, and one of 24 kbit/s valid from 2 s on. -/
def twoCaps : List NetworkPattern :=
  [NetworkPattern.newBandwidth 64000 64000 0 10000000000,
    NetworkPattern.newBandwidth 24000 24000 2000000000 10000000000].filterMap id

/-- Three packets of 1000 bytes: one too early, the same again in time, one under both caps. -/
def threeCalls : List Call :=
  [⟨100000000, 8000, 0, by norm_num⟩, ⟨125000000, 8000, 25000000, by norm_num⟩,
    ⟨3000000000, 8000, 0, by norm_num⟩]

theorem twoCaps_built : ∀ p ∈ twoCaps, p.Built := by
  intro p hp
  obtain hp | hp : some p = NetworkPattern.newBandwidth 64000 64000 0 10000000000 ∨
      some p = NetworkPattern.newBandwidth 24000 24000 2000000000 10000000000 := by
    simpa [twoCaps] using hp
  · exact .of_newBandwidth hp.symm
  · exact .of_newBandwidth hp.symm

theorem token_buckets_sound_two : ∃ t, ∃ b : Bandwidth,
    Run Traffic.step Traffic.InOrder ⟨⟨twoCaps⟩, []⟩ threeCalls t ∧
      t.log.map Prod.snd = [.wait 25000000, .sent, .sent] ∧
      t.emulator.patterns[1]? = some (.bandwidth b) ∧ b.currentTokens ≤ b.maxTokens ∧
      t.sentBits b 0 3000000000 ≤ b.tokenRefillRate * secs (3000000000 - b.validFrom) := by
  obtain ⟨t, hrun, hlog⟩ := Option.map_eq_some_iff.1 (show
    (runs Traffic.step ⟨⟨twoCaps⟩, []⟩ threeCalls).map (·.log.map Prod.snd) =
      some [.wait 25000000, .sent, .sent] by decide +kernel)
  have hrun : Run Traffic.step Traffic.InOrder ⟨⟨twoCaps⟩, []⟩ threeCalls t :=
    .of_runs (by decide +kernel) hrun
  obtain ⟨b, hb, -, -, -, hle, hsent⟩ := (token_buckets_sound twoCaps_built hrun).1 1
    ⟨24000, 0, 8000, 24000, 2, 500000000000, 2000000000, 10000000000⟩ (by decide +kernel)
  exact ⟨t, b, hrun, hlog, hb, hle, by simpa using (hsent 0 3000000000).2⟩

end SiestaVR.Emu
