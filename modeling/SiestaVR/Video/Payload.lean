import Mathlib.Data.Nat.Fib.Basic
import Mathlib.Data.Rat.Floor
import SiestaVR.Stream.Wire

/-!
# The synthetic video payload (lib/alvr_stream_socket.rs:3919–3981)

Without an encoder, a frame is filled with the Fibonacci sequence modulo 256.
`fibonacci_payload_exact` computes it byte by byte; `fill_fibonacci_video_payload` appends
whole periods of a table of 384 bytes and a part of it at the end.

Two consecutive bytes determine the next ones, and after 384 steps the pair is `(0, 1)`
again (`fibStep_period`). So the table can be used again from its start whenever the length
is a multiple of its size, which is what the loop's invariant says (`fillLoop_eq`).
-/

namespace SiestaVR.Video

open SiestaVR.Stream (Bytes)

/-! ## The code -/

/-- The loop of `fibonacci_payload_exact` over a range of so many positions. -/
def exactLoop : Nat → Nat → Bytes → Bytes
  | 0, _, v => v
  | count + 1, i, v => exactLoop count (i + 1) (v.set i (v.getD (i - 1) 0 + v.getD (i - 2) 0))

/-- `fibonacci_payload_exact`. -/
def fibonacciPayloadExact (size : Nat) : Bytes :=
  let v := List.replicate size 0
  if size = 0 then v
  else
    let v := if 1 < size then v.set 1 1 else v
    exactLoop (size - 2) 2 v

/-- The loop that fills `FIB_MOD256`. -/
def fibLoop : Nat → UInt8 → UInt8 → Bytes
  | 0, _, _ => []
  | count + 1, a, b => a :: fibLoop count b (a + b)

/-- `FIB_MOD256_PERIOD`. -/
def fibMod256Period : Nat := 384

/-- `FIB_MOD256`. -/
def fibMod256 : Bytes := fibLoop fibMod256Period 0 1

/-- The loop of `fill_fibonacci_video_payload`, for at most so many turns. -/
def fillLoop (noBytes : Nat) : Nat → Bytes → Option Bytes
  | 0, _ => none
  | turns + 1, buffer =>
    if buffer.length < noBytes then
      let take := min (noBytes - buffer.length) fibMod256Period
      fillLoop noBytes turns (buffer ++ fibMod256.take take)
    else some buffer

/-- The part of `fill_fibonacci_video_payload` after the size is known: the buffer is cleared
and filled. Every turn appends a byte at least. -/
def fillFibonacci (buffer : Bytes) (noBytes : Nat) : Option Bytes :=
  let cleared := buffer.take 0
  fillLoop noBytes (noBytes + 1) cleared

/-! ## The sequence -/

/-- The first bytes of the sequence. -/
def fibBytes (n : Nat) : Bytes := (List.range n).map fun i => UInt8.ofNat (Nat.fib i)

/-- From two consecutive bytes to the next two. -/
def fibStep (pair : UInt8 × UInt8) : UInt8 × UInt8 := (pair.2, pair.1 + pair.2)

theorem fibStep_iterate (i : Nat) :
    fibStep^[i] (0, 1) = (UInt8.ofNat (Nat.fib i), UInt8.ofNat (Nat.fib (i + 1))) := by
  induction i with
  | zero => rfl
  | succ i ih => rw [Function.iterate_succ_apply', ih, fibStep, Nat.fib_add_two, UInt8.ofNat_add]

/-- The Pisano period of 256. -/
theorem fibStep_period : fibStep^[fibMod256Period] (0, 1) = (0, 1) := by
  decide +kernel

theorem ofNat_fib_add_period (i : Nat) :
    UInt8.ofNat (Nat.fib (fibMod256Period + i)) = UInt8.ofNat (Nat.fib i) := by
  have h : fibStep^[fibMod256Period + i] (0, 1) = fibStep^[i] (0, 1) := by
    rw [Nat.add_comm, Function.iterate_add_apply, fibStep_period]
  rw [fibStep_iterate, fibStep_iterate] at h
  exact congrArg Prod.fst h

theorem length_fibBytes (n : Nat) : (fibBytes n).length = n := by
  rw [fibBytes, List.length_map, List.length_range]

theorem getElem?_fibBytes {n i : Nat} (h : i < n) :
    (fibBytes n)[i]? = some (UInt8.ofNat (Nat.fib i)) := by
  rw [fibBytes, List.getElem?_map, List.getElem?_range h, Option.map_some]

theorem fibBytes_succ (n : Nat) : fibBytes (n + 1) = fibBytes n ++ [UInt8.ofNat (Nat.fib n)] := by
  rw [fibBytes, List.range_succ, List.map_append, List.map_singleton, fibBytes]

theorem fibBytes_add {m : Nat} (hm : fibMod256Period ∣ m) (n : Nat) :
    fibBytes (m + n) = fibBytes m ++ fibBytes n := by
  have hrepeat : ∀ i, UInt8.ofNat (Nat.fib (m + i)) = UInt8.ofNat (Nat.fib i) := by
    obtain ⟨k, rfl⟩ := hm
    intro i
    induction k with
    | zero => rw [Nat.mul_zero, Nat.zero_add]
    | succ k ih => rw [Nat.mul_succ, Nat.add_comm _ fibMod256Period, Nat.add_assoc,
        ofNat_fib_add_period, ih]
  rw [fibBytes, List.range_add, List.map_append, List.map_map]
  refine congrArg (fibBytes m ++ ·) (List.map_congr_left fun i _ => ?_)
  exact hrepeat i

/-! ## The fill by periods -/

theorem fibLoop_eq (count k : Nat) :
    fibLoop count (UInt8.ofNat (Nat.fib k)) (UInt8.ofNat (Nat.fib (k + 1))) =
      (List.range count).map fun i => UInt8.ofNat (Nat.fib (k + i)) := by
  induction count generalizing k with
  | zero => rfl
  | succ count ih =>
    rw [fibLoop, ← UInt8.ofNat_add, ← Nat.fib_add_two, ih (k + 1), List.range_succ_eq_map,
      List.map_cons, List.map_map]
    refine congrArg _ (List.map_congr_left fun i _ => ?_)
    rw [Function.comp_apply, Nat.add_assoc, Nat.add_comm 1]

theorem fibMod256_eq : fibMod256 = fibBytes fibMod256Period := by
  have h := fibLoop_eq fibMod256Period 0
  simp only [Nat.zero_add] at h
  exact h

theorem take_fibMod256 {n : Nat} (h : n ≤ fibMod256Period) : fibMod256.take n = fibBytes n := by
  rw [fibMod256_eq, fibBytes, ← List.map_take, List.take_range, Nat.min_eq_left h, fibBytes]

/-- **The loop**: a buffer with whole periods of the sequence, or all of it, is filled up. -/
theorem fillLoop_eq {noBytes turns len : Nat} (hle : len ≤ noBytes)
    (hlen : fibMod256Period ∣ len ∨ len = noBytes) (hturns : noBytes < turns + len) :
    fillLoop noBytes turns (fibBytes len) = some (fibBytes noBytes) := by
  induction turns generalizing len with
  | zero => omega
  | succ turns ih =>
    rw [fillLoop, length_fibBytes]
    by_cases hmore : len < noBytes
    · have hperiod : fibMod256Period ∣ len := hlen.resolve_right hmore.ne
      have hpos : 0 < fibMod256Period := by decide
      rw [if_pos hmore]
      dsimp only
      rw [take_fibMod256 (Nat.min_le_right _ _), ← fibBytes_add hperiod]
      refine ih (by omega) ?_ (by omega)
      -- either another whole period has been appended, or the rest
      obtain hshort | hlong := Nat.le_total (noBytes - len) fibMod256Period
      · right
        omega
      · left
        rw [Nat.min_eq_right hlong]
        exact (Nat.dvd_add_right hperiod).2 (Nat.dvd_refl _)
    · rw [if_neg hmore, show len = noBytes by omega]

theorem fillFibonacci_eq (buffer : Bytes) (noBytes : Nat) :
    fillFibonacci buffer noBytes = some (fibBytes noBytes) :=
  fillLoop_eq (Nat.zero_le _) (.inl (Nat.dvd_zero _)) (Nat.lt_succ_self _)

/-! ## Byte by byte -/

theorem getD_fibBytes_append {n i : Nat} (h : i < n) (rest : Bytes) :
    (fibBytes n ++ rest).getD i 0 = UInt8.ofNat (Nat.fib i) := by
  rw [List.getD_eq_getElem?_getD, List.getElem?_append_left (by rwa [length_fibBytes]),
    getElem?_fibBytes h, Option.getD_some]

theorem exactLoop_eq {i : Nat} (hi : 2 ≤ i) (count : Nat) :
    exactLoop count i (fibBytes i ++ List.replicate count 0) = fibBytes (i + count) := by
  induction count generalizing i with
  | zero => rw [exactLoop, List.replicate_zero, List.append_nil, Nat.add_zero]
  | succ count ih =>
    have hnext : UInt8.ofNat (Nat.fib (i - 1)) + UInt8.ofNat (Nat.fib (i - 2)) =
        UInt8.ofNat (Nat.fib i) := by
      obtain ⟨k, rfl⟩ : ∃ k, i = k + 2 := ⟨i - 2, by omega⟩
      rw [Nat.fib_add_two, UInt8.ofNat_add]
      exact UInt8.add_comm _ _
    have hset : (fibBytes i ++ List.replicate (count + 1) 0).set i (UInt8.ofNat (Nat.fib i)) =
        fibBytes (i + 1) ++ List.replicate count 0 := by
      rw [List.set_append_right _ _ (length_fibBytes i).le, length_fibBytes, Nat.sub_self,
        fibBytes_succ, List.append_assoc]
      rfl
    rw [exactLoop, getD_fibBytes_append (by omega), getD_fibBytes_append (by omega), hnext, hset,
      ih (by omega), Nat.add_assoc, Nat.add_comm 1]

theorem fibonacciPayloadExact_eq (size : Nat) : fibonacciPayloadExact size = fibBytes size := by
  match size with
  | 0 => rfl
  | 1 => rfl
  | n + 2 =>
    have hstart : (List.replicate (n + 2) 0).set 1 1 = fibBytes 2 ++ List.replicate n 0 := rfl
    have hloop := exactLoop_eq (le_refl 2) n
    rw [fibonacciPayloadExact, if_neg (Nat.succ_ne_zero _), if_pos (by omega), hstart,
      Nat.add_sub_cancel, hloop, Nat.add_comm]

/-- **The payload**: for every size the fill by periods returns, writes so many bytes, the
Fibonacci numbers modulo 256, and so what the recurrence byte by byte gives, whatever was in
the buffer. -/
theorem fillFibonacci_eq_exact (buffer : Bytes) (noBytes : Nat) :
    ∃ payload, fillFibonacci buffer noBytes = some payload ∧ payload.length = noBytes ∧
      (∀ i < noBytes, payload[i]? = some (UInt8.ofNat (Nat.fib i))) ∧
      payload = fibonacciPayloadExact noBytes :=
  ⟨fibBytes noBytes, fillFibonacci_eq buffer noBytes, length_fibBytes noBytes,
    fun _ => getElem?_fibBytes, (fibonacciPayloadExact_eq noBytes).symm⟩

end SiestaVR.Video
