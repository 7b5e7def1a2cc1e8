import Mathlib.Data.List.Induction

/-!
# Units taken from the front of a growing buffer

A parser of a byte stream appends what it reads to a buffer and takes complete units
off the front as long as there are any. An `Extractor` is the second half of that: it
looks for the unit at the front of the buffer, always consumes something with it, and
does not change its mind when the buffer grows (`peek_append`).

`drain` takes units until none is complete. Its rules are `drain_none` and `drain_some`,
and whatever is proved about it goes by induction on the units taken (`induct`). The main
one is `drain_append`: draining early and then again after more has arrived is draining
once.

A decoder handles each unit it takes with a state of its own (`decode`). Fed chunk by chunk
(`feed`), it returns what it returns for the whole stream at once (`feed_decode`).
-/

namespace SiestaVR.Lib

variable {α ν : Type}

/-- Finds the complete unit at the front of a buffer, and how much of the buffer it takes. -/
structure Extractor (α ν : Type) where
  peek : List α → Option (ν × Nat)
  peek_pos : ∀ {buf u n}, peek buf = some (u, n) → 0 < n
  peek_le : ∀ {buf u n}, peek buf = some (u, n) → n ≤ buf.length
  peek_append : ∀ {buf u n} (more), peek buf = some (u, n) → peek (buf ++ more) = some (u, n)

namespace Extractor

variable (x : Extractor α ν)

/-- Take the unit at the front. -/
def next (buf : List α) : Option (ν × List α) :=
  (x.peek buf).map fun found => (found.1, buf.drop found.2)

variable {x} in
theorem next_eq_some {buf rest : List α} {u : ν} (h : x.next buf = some (u, rest)) :
    ∃ n, x.peek buf = some (u, n) ∧ rest = buf.drop n := by
  obtain ⟨⟨v, n⟩, hpeek, heq⟩ := Option.map_eq_some_iff.1 h
  obtain ⟨rfl, rfl⟩ := Prod.ext_iff.1 heq
  exact ⟨n, hpeek, rfl⟩

variable {x} in
theorem shrinks {buf rest : List α} {u : ν} (h : x.next buf = some (u, rest)) :
    rest.length < buf.length := by
  obtain ⟨n, hpeek, rfl⟩ := next_eq_some h
  have hpos := x.peek_pos hpeek
  have hle := x.peek_le hpeek
  rw [List.length_drop]
  omega

variable {x} in
theorem next_append {buf rest : List α} {u : ν} (more : List α)
    (h : x.next buf = some (u, rest)) : x.next (buf ++ more) = some (u, rest ++ more) := by
  obtain ⟨n, hpeek, rfl⟩ := next_eq_some h
  show (x.peek (buf ++ more)).map _ = some (u, buf.drop n ++ more)
  rw [x.peek_append more hpeek, ← List.drop_append_of_le_length (x.peek_le hpeek)]
  rfl

/-! ## Units that show where they end -/

section OfLength

variable (length : List α → Option Nat) (unit : List α → ν)
  (pos : ∀ {buf n}, length buf = some n → 0 < n)
  (append : ∀ {buf n} (more), length buf = some n → length (buf ++ more) = some n)

/-- The unit that the first so many elements are, once they are all there. -/
def peekLength (buf : List α) : Option (ν × Nat) :=
  match length buf with
  | none => none
  | some n => if buf.length < n then none else some (unit (buf.take n), n)

theorem peekLength_eq_some {buf : List α} {u : ν} {n : Nat} :
    peekLength length unit buf = some (u, n) ↔
      length buf = some n ∧ n ≤ buf.length ∧ u = unit (buf.take n) := by
  unfold peekLength
  split <;> grind

/-- Units whose length is known from their first elements. -/
def ofLength : Extractor α ν where
  peek := peekLength length unit
  peek_pos h := pos ((peekLength_eq_some length unit).1 h).1
  peek_le h := ((peekLength_eq_some length unit).1 h).2.1
  peek_append more h := by
    obtain ⟨hlength, hle, rfl⟩ := (peekLength_eq_some length unit).1 h
    refine (peekLength_eq_some length unit).2 ⟨append more hlength, ?_, ?_⟩
    · rw [List.length_append]
      omega
    · rw [List.take_append_of_le_length hle]

end OfLength

/-! ## Draining -/

/-- Take at most so many units. -/
def drainUpTo : Nat → List α → List ν × List α
  | 0, buf => ([], buf)
  | n + 1, buf =>
    match x.next buf with
    | none => ([], buf)
    | some (u, rest) => (u :: (drainUpTo n rest).1, (drainUpTo n rest).2)

/-- Take all complete units: no more than there are elements in the buffer. -/
def drain (buf : List α) : List ν × List α := x.drainUpTo buf.length buf

variable {x} {buf rest : List α} {u : ν}

theorem drain_none (h : x.next buf = none) : x.drain buf = ([], buf) := by
  unfold drain
  cases buf.length with
  | zero => rfl
  | succ n => rw [drainUpTo, h]

theorem drainUpTo_eq {n : Nat} (hn : buf.length ≤ n) : x.drainUpTo n buf = x.drain buf := by
  induction n using Nat.strongRecOn generalizing buf with
  | ind n ih =>
    cases h : x.next buf with
    | none =>
      rw [drain_none h]
      cases n with
      | zero => rfl
      | succ n => rw [drainUpTo, h]
    | some p =>
      obtain ⟨u, rest⟩ := p
      have hlt := shrinks h
      obtain ⟨n, rfl⟩ : ∃ k, n = k + 1 := ⟨n - 1, by omega⟩
      obtain ⟨m, hm⟩ : ∃ k, buf.length = k + 1 := ⟨buf.length - 1, by omega⟩
      rw [drain, hm, drainUpTo, drainUpTo, h]
      dsimp only
      rw [ih n (by omega) (by omega), ← ih m (by omega) (by omega)]

theorem drain_some (h : x.next buf = some (u, rest)) :
    x.drain buf = (u :: (x.drain rest).1, (x.drain rest).2) := by
  have hlt := shrinks h
  obtain ⟨m, hm⟩ : ∃ k, buf.length = k + 1 := ⟨buf.length - 1, by omega⟩
  rw [drain, hm, drainUpTo, h]
  dsimp only
  rw [drainUpTo_eq (by omega)]

/-- **Induction on the units of a buffer.** -/
theorem induct {motive : List α → Prop}
    (none : ∀ buf, x.next buf = none → motive buf)
    (some : ∀ buf u rest, x.next buf = some (u, rest) → motive rest → motive buf)
    (buf : List α) : motive buf := by
  induction h : buf.length using Nat.strongRecOn generalizing buf with
  | ind n ih =>
    cases hnext : x.next buf with
    | none => exact none buf hnext
    | some p =>
      have hlt := shrinks hnext
      exact some buf p.1 p.2 hnext (ih p.2.length (h ▸ hlt) p.2 rfl)

theorem next_drain (buf : List α) : x.next (x.drain buf).2 = none := by
  induction buf using x.induct with
  | none buf h =>
    rw [drain_none h]
    exact h
  | some buf u rest h ih =>
    rw [drain_some h]
    exact ih

/-- **Draining early changes nothing.** -/
theorem drain_append (buf more : List α) :
    x.drain (buf ++ more) = ((x.drain buf).1 ++ (x.drain ((x.drain buf).2 ++ more)).1,
      (x.drain ((x.drain buf).2 ++ more)).2) := by
  induction buf using x.induct with
  | none buf h => rw [drain_none h, List.nil_append]
  | some buf u rest h ih =>
    rw [drain_some h, drain_some (next_append more h), ih, List.cons_append]

/-! ## Decoders -/

variable {σ β π : Type}

/-- Handle units one after another: all outputs, and the state after the last. -/
def handleAll (handle : σ → ν → List β × σ) : List ν → σ → List β × σ
  | [], s => ([], s)
  | u :: us, s =>
    ((handle s u).1 ++ (handleAll handle us (handle s u).2).1,
      (handleAll handle us (handle s u).2).2)

theorem handleAll_append (handle : σ → ν → List β × σ) (us vs : List ν) (s : σ) :
    handleAll handle (us ++ vs) s =
      ((handleAll handle us s).1 ++ (handleAll handle vs (handleAll handle us s).2).1,
        (handleAll handle vs (handleAll handle us s).2).2) := by
  induction us generalizing s with
  | nil => rfl
  | cons u us ih => simp only [List.cons_append, handleAll, ih, List.append_assoc]

theorem handleAll_map (f : ν → β) (us : List ν) (s : σ) :
    handleAll (fun s u => ([f u], s)) us s = (us.map f, s) := by
  induction us with
  | nil => rfl
  | cons u us ih => simp only [handleAll, ih, List.singleton_append, List.map_cons]

theorem handleAll_commute {handle : σ → ν → List β × σ} {f : σ → σ}
    (h : ∀ s u, handle (f s) u = ((handle s u).1, f (handle s u).2)) (us : List ν) (s : σ) :
    handleAll handle us (f s) = ((handleAll handle us s).1, f (handleAll handle us s).2) := by
  induction us generalizing s with
  | nil => rfl
  | cons u us ih => simp only [handleAll, h, ih]

variable (x)

/-- Take all complete units of a buffer and handle them: the outputs, the state and what
is left of the buffer. -/
def decode (handle : σ → ν → List β × σ) (s : σ) (buf : List α) : List β × σ × List α :=
  ((handleAll handle (x.drain buf).1 s).1, (handleAll handle (x.drain buf).1 s).2,
    (x.drain buf).2)

variable {x} in
theorem decode_none (handle : σ → ν → List β × σ) (s : σ) (h : x.next buf = none) :
    x.decode handle s buf = ([], s, buf) := by
  rw [decode, drain_none h]
  rfl

variable {x} in
theorem decode_some (handle : σ → ν → List β × σ) (s : σ) (h : x.next buf = some (u, rest)) :
    x.decode handle s buf = ((handle s u).1 ++ (x.decode handle (handle s u).2 rest).1,
      (x.decode handle (handle s u).2 rest).2) := by
  rw [decode, drain_some h]
  rfl

theorem decode_commute {handle : σ → ν → List β × σ} {f : σ → σ}
    (h : ∀ s u, handle (f s) u = ((handle s u).1, f (handle s u).2)) (s : σ) (buf : List α) :
    x.decode handle (f s) buf = ((x.decode handle s buf).1, f (x.decode handle s buf).2.1,
      (x.decode handle s buf).2.2) := by
  rw [decode, handleAll_commute h]
  rfl

/-- **Decoding early changes nothing.** -/
theorem decode_append (handle : σ → ν → List β × σ) (s : σ) (buf more : List α) :
    x.decode handle s (buf ++ more) =
      ((x.decode handle s buf).1 ++
          (x.decode handle (x.decode handle s buf).2.1 ((x.decode handle s buf).2.2 ++ more)).1,
        (x.decode handle (x.decode handle s buf).2.1
          ((x.decode handle s buf).2.2 ++ more)).2) := by
  simp only [decode]
  rw [drain_append, handleAll_append]

/-- Feed chunks to a parser that may fail, and gather what it returns. -/
def feed (get : π → List α → Option (List β × π)) : List (List α) → π → Option (List β × π)
  | [], p => some ([], p)
  | chunk :: chunks, p => do
    let (out, p) ← get p chunk
    let (more, p) ← feed get chunks p
    return (out ++ more, p)

/-- A parser that keeps an invariant with which it cannot fail returns for all chunks. -/
theorem feed_total {get : π → List α → Option (List β × π)} {I : π → Prop}
    (hget : ∀ p chunk, I p → ∃ out q, get p chunk = some (out, q) ∧ I q)
    (chunks : List (List α)) {p : π} (hp : I p) :
    ∃ out q, feed get chunks p = some (out, q) ∧ I q := by
  induction chunks generalizing p with
  | nil => exact ⟨[], p, rfl, hp⟩
  | cons chunk chunks ih =>
    obtain ⟨out, p₁, hfirst, hp₁⟩ := hget p chunk hp
    obtain ⟨more, q, hrest, hq⟩ := ih hp₁
    exact ⟨out ++ more, q, by simp [feed, hfirst, hrest], hq⟩

theorem feed_cons_eq_some {get : π → List α → Option (List β × π)} {chunk : List α}
    {chunks : List (List α)} {p q : π} {out : List β}
    (h : feed get (chunk :: chunks) p = some (out, q)) :
    ∃ out₁ p₁ out₂, get p chunk = some (out₁, p₁) ∧ feed get chunks p₁ = some (out₂, q) ∧
      out = out₁ ++ out₂ := by
  obtain ⟨⟨out₁, p₁⟩, hget, h⟩ := Option.bind_eq_some_iff.1 h
  obtain ⟨⟨out₂, p₂⟩, hfeed, h⟩ := Option.bind_eq_some_iff.1 h
  cases h
  exact ⟨out₁, p₁, out₂, hget, hfeed, rfl⟩

/-- **The chunks do not matter**: a parser each of whose calls decodes what it has
returns, over all chunks, what decoding the whole stream gives. -/
theorem feed_decode {get : π → List α → Option (List β × π)} {handle : σ → ν → List β × σ}
    {state : π → σ} {buffer : π → List α}
    (hget : ∀ p chunk out q, get p chunk = some (out, q) →
      (out, state q, buffer q) = x.decode handle (state p) (buffer p ++ chunk))
    {chunks : List (List α)} {p q : π} {out : List β} (hp : x.next (buffer p) = none)
    (h : feed get chunks p = some (out, q)) :
    (out, state q, buffer q) = x.decode handle (state p) (buffer p ++ chunks.flatten) := by
  induction chunks generalizing p out with
  | nil =>
    cases h
    rw [List.flatten_nil, List.append_nil, decode, drain_none hp]
    rfl
  | cons chunk chunks ih =>
    obtain ⟨out₁, p₁, out₂, hfirst, hrest, rfl⟩ := feed_cons_eq_some h
    have hone := hget p chunk out₁ p₁ hfirst
    -- what the first call leaves behind holds no complete unit
    have hleft : x.next (buffer p₁) = none := by
      rw [show buffer p₁ = (x.drain (buffer p ++ chunk)).2 from congrArg (·.2.2) hone]
      exact next_drain _
    have hothers := ih hleft hrest
    rw [List.flatten_cons, ← List.append_assoc, decode_append, ← hone]
    dsimp only
    rw [← hothers]

/-! ## Properties of units -/

variable {x}

/-- What holds of every unit that can be taken holds of every unit taken. -/
theorem forall_mem_drain {P : ν → Prop} (h : ∀ buf u n, x.peek buf = some (u, n) → P u)
    (buf : List α) : ∀ u ∈ (x.drain buf).1, P u := by
  induction buf using x.induct with
  | none buf hnext =>
    rw [drain_none hnext]
    exact fun _ hu => absurd hu List.not_mem_nil
  | some buf u rest hnext ih =>
    obtain ⟨n, hpeek, -⟩ := next_eq_some hnext
    rw [drain_some hnext]
    exact List.forall_mem_cons.2 ⟨h buf u n hpeek, ih⟩

theorem flatMap_drain {content : ν → List α}
    (h : ∀ buf u n, x.peek buf = some (u, n) → content u = buf.take n) (buf : List α) :
    (x.drain buf).1.flatMap content ++ (x.drain buf).2 = buf := by
  induction buf using x.induct with
  | none buf hnext =>
    rw [drain_none hnext]
    rfl
  | some buf u rest hnext ih =>
    obtain ⟨n, hpeek, hrest⟩ := next_eq_some hnext
    rw [drain_some hnext, List.flatMap_cons, List.append_assoc, ih, h buf u n hpeek, hrest,
      List.take_append_drop]

end Extractor

end SiestaVR.Lib
