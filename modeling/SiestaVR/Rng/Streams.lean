import SiestaVR.Lib.Words

/-!
# Random streams of a run (lib/sim_rng.rs:85–237)

Every owner of random draws has a stream of its own, which starts from a state made of the
seed of the run and the owner's tag. `mix64` is a bijection of the 64-bit words, being a
composition of bijections (`mix64_bijective`), so a start is determined by the tag when the seed
is given, and by the seed when the tag is given. A tag combines several words, and changing
one of them changes the tag (`tag_part_inj`); `next_stream` puts the number of the call into it.

The map of values drawn once is left out.
-/

namespace SiestaVR.Rng

open Lib

/-- `mix64`. -/
def mix64 (z : UInt64) : UInt64 :=
  let z := z + 0x9E3779B97F4A7C15
  let z := (z ^^^ (z >>> 30)) * 0xBF58476D1CE4E5B9
  let z := (z ^^^ (z >>> 27)) * 0x94D049BB133111EB
  z ^^^ (z >>> 31)

/-- `tag`. -/
def tag (parts : List UInt64) : UInt64 :=
  parts.foldl (fun acc p => mix64 (acc ^^^ mix64 p)) 0x243F6A8885A308D3

/-- `tag_str`. -/
def tagStr (s : String) : UInt64 :=
  s.toUTF8.toList.foldl (fun h b => (h ^^^ b.toUInt64) * 0x00000100000001B3) 0xCBF29CE484222325

/-- `SimRng`. -/
structure SimRng where
  state : UInt64
  deriving DecidableEq, Repr

namespace SimRng

/-- `SimRng::new`. -/
def new (seed : UInt64) : SimRng := ⟨mix64 seed⟩

/-- `SimRng::for_seed`. -/
def forSeed (seed tag : UInt64) : SimRng := new (seed ^^^ mix64 tag)

/-- `next_u64`. -/
def nextU64 (r : SimRng) : UInt64 × SimRng :=
  let state := r.state + 0x9E3779B97F4A7C15
  let z := (state ^^^ (state >>> 30)) * 0xBF58476D1CE4E5B9
  let z := (z ^^^ (z >>> 27)) * 0x94D049BB133111EB
  (z ^^^ (z >>> 31), ⟨state⟩)

end SimRng

/-- `RunRng`: the seed of a run and its construction counter, which all clones share. -/
structure RunRng where
  seed : UInt64
  counter : UInt64
  deriving DecidableEq, Repr

namespace RunRng

/-- `set_global_seed`. -/
def start (seed : UInt64) : RunRng := ⟨seed, 0⟩

/-- `RunRng::stream`. -/
def stream (r : RunRng) (tag : UInt64) : SimRng := SimRng.forSeed r.seed tag

/-- `RunRng::next_stream`; the counter wraps around. -/
def nextStream (r : RunRng) (tagName : String) : SimRng × RunRng :=
  (r.stream (tag [tagStr tagName, r.counter]), { r with counter := r.counter + 1 })

/-- The streams of a sequence of calls of `next_stream`. -/
def nextStreams : RunRng → List String → List SimRng
  | _, [] => []
  | r, tagName :: tagNames =>
    (r.nextStream tagName).1 :: (r.nextStream tagName).2.nextStreams tagNames

end RunRng

/-! ## The mixing function -/

/-- The mixing function on bit vectors, step by step. -/
def mixBits : BitVec 64 → BitVec 64 :=
  xorShift 31 ∘ (· * 0x94D049BB133111EB#64) ∘ xorShift 27 ∘ (· * 0xBF58476D1CE4E5B9#64) ∘
    xorShift 30 ∘ (· + 0x9E3779B97F4A7C15#64)

theorem toBitVec_mix64 (z : UInt64) : (mix64 z).toBitVec = mixBits z.toBitVec := rfl

theorem mixBits_bijective : Function.Bijective mixBits := by
  -- both factors are odd; these are their inverses
  have hfirst : 0xBF58476D1CE4E5B9#64 * 0x96DE1B173F119089#64 = 1 := by decide
  have hsecond : 0x94D049BB133111EB#64 * 0x319642B2D24D8EC3#64 = 1 := by decide
  refine (xorShift_bijective (by decide)).comp ((mul_bijective hsecond).comp ?_)
  refine (xorShift_bijective (by decide)).comp ((mul_bijective hfirst).comp ?_)
  exact (xorShift_bijective (by decide)).comp (add_bijective _)

theorem mix64_bijective : Function.Bijective mix64 := by
  constructor
  · intro x y hxy
    have hbits : mixBits x.toBitVec = mixBits y.toBitVec := by
      rw [← toBitVec_mix64, ← toBitVec_mix64, hxy]
    exact UInt64.eq_of_toBitVec_eq (mixBits_bijective.1 hbits)
  · intro y
    obtain ⟨x, hx⟩ := mixBits_bijective.2 y.toBitVec
    exact ⟨⟨x⟩, UInt64.eq_of_toBitVec_eq hx⟩

theorem xor_right_inj {a x y : UInt64} (h : a ^^^ x = a ^^^ y) : x = y :=
  UInt64.eq_of_toBitVec_eq ((xor_bijective a.toBitVec).1 (congrArg UInt64.toBitVec h))

theorem xor_left_inj {a x y : UInt64} (h : x ^^^ a = y ^^^ a) : x = y := by
  rw [UInt64.xor_comm x, UInt64.xor_comm y] at h
  exact xor_right_inj h

/-! ## Tags -/

/-- What the parts behind do to an accumulated tag can be undone. -/
theorem foldl_mix_inj (parts : List UInt64) {acc acc' : UInt64}
    (h : parts.foldl (fun acc p => mix64 (acc ^^^ mix64 p)) acc
      = parts.foldl (fun acc p => mix64 (acc ^^^ mix64 p)) acc') : acc = acc' := by
  induction parts generalizing acc acc' with
  | nil => exact h
  | cons p parts ih => exact xor_left_inj (mix64_bijective.1 (ih h))

/-- **One part** of a tag is determined by the tag and the other parts. -/
theorem tag_part_inj {before behind : List UInt64} {p p' : UInt64}
    (h : tag (before ++ p :: behind) = tag (before ++ p' :: behind)) : p = p' := by
  unfold tag at h
  rw [List.foldl_append, List.foldl_append] at h
  exact mix64_bijective.1 (xor_right_inj (mix64_bijective.1 (foldl_mix_inj behind h)))

/-! ## Streams -/

theorem forSeed_tag_inj {seed tag tag' : UInt64}
    (h : (SimRng.forSeed seed tag).state = (SimRng.forSeed seed tag').state) : tag = tag' :=
  mix64_bijective.1 (xor_right_inj (mix64_bijective.1 h))

theorem forSeed_seed_inj {seed seed' tag : UInt64}
    (h : (SimRng.forSeed seed tag).state = (SimRng.forSeed seed' tag).state) : seed = seed' :=
  xor_left_inj (mix64_bijective.1 h)

namespace RunRng

/-- The `i`-th call finds the counter `i` further on. -/
theorem getElem?_nextStreams (r : RunRng) (tagNames : List String) (i : Nat) :
    (r.nextStreams tagNames)[i]? = tagNames[i]?.map fun tagName =>
      r.stream (tag [tagStr tagName, r.counter + UInt64.ofNat i]) := by
  induction tagNames generalizing r i with
  | nil => rfl
  | cons tagName tagNames ih =>
    cases i with
    | zero =>
      have hzero : r.counter + UInt64.ofNat 0 = r.counter := UInt64.add_zero r.counter
      rw [hzero]
      rfl
    | succ i =>
      show ((r.nextStream tagName).2.nextStreams tagNames)[i]? = _
      rw [ih]
      show Option.map _ tagNames[i]? = Option.map _ tagNames[i]?
      have hcounter : r.counter + 1 + UInt64.ofNat i = r.counter + UInt64.ofNat (i + 1) := by
        rw [UInt64.add_assoc, UInt64.add_comm 1, UInt64.ofNat_add]
        rfl
      exact congrArg (fun n => Option.map (fun tagName => r.stream (tag [tagStr tagName, n]))
        tagNames[i]?) hcounter

theorem length_nextStreams (r : RunRng) (tagNames : List String) :
    (r.nextStreams tagNames).length = tagNames.length := by
  induction tagNames generalizing r with
  | nil => rfl
  | cons tagName tagNames ih => exact congrArg (· + 1) (ih _)

/-- Two calls with the same name start from different states while the counter has not come
round. -/
theorem stream_counter_ne {r : RunRng} {name : String} {i j : Nat} (hij : i < j)
    (hj : j < 2 ^ 64) :
    (r.stream (tag [tagStr name, r.counter + UInt64.ofNat i])).state
      ≠ (r.stream (tag [tagStr name, r.counter + UInt64.ofNat j])).state := by
  intro h
  have htag : tag ([tagStr name] ++ [r.counter + UInt64.ofNat i])
      = tag ([tagStr name] ++ [r.counter + UInt64.ofNat j]) := forSeed_tag_inj h
  have hnat := congrArg UInt64.toNat (UInt64.add_right_inj _ |>.1 (tag_part_inj htag))
  rw [UInt64.toNat_ofNat_of_lt' (hij.trans hj), UInt64.toNat_ofNat_of_lt' hj] at hnat
  exact hij.ne hnat

end RunRng

/-- The mixing function is a bijection. Hence streams of one run with different tags start
from different states, and so do streams with one tag in runs with different seeds, and any
two of fewer than `2 ^ 64` calls of `next_stream` in one run that have the same name. -/
theorem streams_start_apart :
    Function.Bijective mix64 ∧
    (∀ (r : RunRng) (tag tag' : UInt64), tag ≠ tag' →
      (r.stream tag).state ≠ (r.stream tag').state) ∧
    (∀ (r r' : RunRng) (tag : UInt64), r.seed ≠ r'.seed →
      (r.stream tag).state ≠ (r'.stream tag).state) ∧
    (∀ (r : RunRng) (tagNames : List String), tagNames.length < 2 ^ 64 →
      (r.nextStreams tagNames).length = tagNames.length ∧
      ∀ i j, i < j → j < tagNames.length → tagNames[i]? = tagNames[j]? →
        (r.nextStreams tagNames)[i]?.map SimRng.state
          ≠ (r.nextStreams tagNames)[j]?.map SimRng.state) := by
  refine ⟨mix64_bijective, ?_, ?_, ?_⟩
  · intro r tag tag' hne h
    exact hne (forSeed_tag_inj h)
  · intro r r' tag hne h
    exact hne (forSeed_seed_inj h)
  · intro r tagNames hlength
    refine ⟨RunRng.length_nextStreams r tagNames, ?_⟩
    intro i j hij hj hname h
    have hstream := r.getElem?_nextStreams tagNames
    have hjname : tagNames[j]? = some tagNames[j] := List.getElem?_eq_getElem hj
    rw [hstream, hstream, hname, hjname, Option.map_some, Option.map_some, Option.map_some,
      Option.map_some, Option.some.injEq] at h
    exact RunRng.stream_counter_ne hij (hj.trans hlength) h

/-- Three calls, the first and the last with one name. -/
theorem streams_start_apart_three :
    (RunRng.start 7).nextStreams ["offset", "file", "offset"] ≠ [] ∧
    ((RunRng.start 7).nextStreams ["offset", "file", "offset"])[0]?.map SimRng.state
      ≠ ((RunRng.start 7).nextStreams ["offset", "file", "offset"])[2]?.map SimRng.state :=
  ⟨List.cons_ne_nil _ _, (streams_start_apart.2.2.2 (RunRng.start 7) ["offset", "file", "offset"]
    (by decide)).2 0 2 (by decide) (by decide) rfl⟩

/-! ## One cycle -/

/-- What `next_u64` adds to the state. -/
def increment : UInt64 := 0x9E3779B97F4A7C15

/-- A stream after so many calls of `next_u64`. -/
def SimRng.after (r : SimRng) : Nat → SimRng
  | 0 => r
  | n + 1 => (r.after n).nextU64.2

/-- What the next call returns. -/
def SimRng.nthU64 (r : SimRng) (n : Nat) : UInt64 := (r.after n).nextU64.1

theorem SimRng.state_after (r : SimRng) (n : Nat) :
    (r.after n).state = r.state + UInt64.ofNat n * increment := by
  induction n with
  | zero =>
    have hzero : UInt64.ofNat 0 * increment = 0 := UInt64.zero_mul
    rw [hzero, UInt64.add_zero]
    rfl
  | succ n ih =>
    have hstate : (r.after (n + 1)).state = (r.after n).state + increment := rfl
    have hnext : UInt64.ofNat (n + 1) = UInt64.ofNat n + 1 := UInt64.ofNat_add n 1
    rw [hstate, ih, hnext, UInt64.add_mul, UInt64.one_mul, UInt64.add_assoc]

theorem SimRng.nthU64_eq (r : SimRng) (n : Nat) :
    r.nthU64 n = mix64 (r.state + UInt64.ofNat n * increment) := by
  rw [← r.state_after]
  rfl

/-- The constant is odd, so each distance between two states is covered by a number of calls. -/
theorem exists_calls (d : UInt64) : ∃ k < 2 ^ 64, UInt64.ofNat k * increment = d := by
  have hinv : (0xF1DE83E19937733D : UInt64) * increment = 1 := by decide
  refine ⟨(d * 0xF1DE83E19937733D).toNat, UInt64.toNat_lt _, ?_⟩
  rw [UInt64.ofNat_toNat, UInt64.mul_assoc, hinv, UInt64.mul_one]

theorem calls_inj {m n : Nat} (hm : m < 2 ^ 64) (hn : n < 2 ^ 64)
    (h : UInt64.ofNat m * increment = UInt64.ofNat n * increment) : m = n := by
  have hinv : increment * 0xF1DE83E19937733D = 1 := by decide
  have hcancel : UInt64.ofNat m * increment * 0xF1DE83E19937733D =
      UInt64.ofNat n * increment * 0xF1DE83E19937733D := by rw [h]
  rw [UInt64.mul_assoc, UInt64.mul_assoc, hinv, UInt64.mul_one, UInt64.mul_one] at hcancel
  have hnat := congrArg UInt64.toNat hcancel
  rwa [UInt64.toNat_ofNat_of_lt' hm, UInt64.toNat_ofNat_of_lt' hn] at hnat

/-- **All streams run through one cycle.** A stream draws each 64-bit value exactly once in
`2 ^ 64` calls, and any two streams, of whatever seeds and tags, draw the same values from some
call of the one on. -/
theorem streams_on_one_cycle (r r' : SimRng) :
    (∀ v, ∃! n, n < 2 ^ 64 ∧ r.nthU64 n = v) ∧
      ∃ k < 2 ^ 64, ∀ n, r'.nthU64 n = r.nthU64 (k + n) := by
  constructor
  · intro v
    obtain ⟨z, rfl⟩ := mix64_bijective.2 v
    obtain ⟨n, hn, hcalls⟩ := exists_calls (z - r.state)
    have hz : r.state + (z - r.state) = z := by rw [UInt64.add_comm, UInt64.sub_add_cancel]
    refine ⟨n, ⟨hn, by rw [r.nthU64_eq, hcalls, hz]⟩, fun m ⟨hm, hdraw⟩ => calls_inj hm hn ?_⟩
    rw [r.nthU64_eq] at hdraw
    rw [hcalls, ← mix64_bijective.1 hdraw, UInt64.add_comm, UInt64.add_sub_cancel]
  · obtain ⟨k, hk, hcalls⟩ := exists_calls (r'.state - r.state)
    refine ⟨k, hk, fun n => ?_⟩
    rw [r'.nthU64_eq, r.nthU64_eq, UInt64.ofNat_add, UInt64.add_mul, hcalls, ← UInt64.add_assoc,
      UInt64.add_comm r.state, UInt64.sub_add_cancel]

end SiestaVR.Rng
