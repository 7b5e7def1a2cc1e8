import Mathlib.Algebra.Order.Ring.Nat
import Mathlib.Data.Nat.Bitwise
import Mathlib.Data.BitVec
import Mathlib.Data.Fintype.EquivFin

/-!
# Words of bits

A word of fixed width, seen in two ways.

A word may keep several numbers in disjoint ranges of its bits. The mask of the bits from `lo`
up to `hi` is `2 ^ hi - 2 ^ lo`; what it selects is a remainder and a quotient, so that
questions about fields become linear arithmetic (`land_range`, `lor_of_lt`).

Or a word is mixed. The steps that mixing functions are built from are bijections of the words of
a fixed width: adding a constant, xor with a constant, multiplying with an invertible constant,
and xor with the word shifted to the right. The last is the only one without an obvious inverse:
if two words were mixed into the same one, their difference would be its own shift, and a word
that is its own shift is zero (`xorShift_bijective`).
-/

namespace SiestaVR.Lib

/-! ## Numbers packed into one word -/

section Packed

variable {lo hi x : Nat}

theorem testBit_range (h : lo ≤ hi) (i : Nat) :
    (2 ^ hi - 2 ^ lo).testBit i = (decide (lo ≤ i) && decide (i < hi)) := by
  have hle := Nat.pow_le_pow_right (n := 2) (by omega) h
  have hpos := Nat.two_pow_pos lo
  have hsub : 2 ^ hi - 2 ^ lo = 2 ^ hi - (2 ^ lo - 1 + 1) := by omega
  rw [hsub, Nat.testBit_two_pow_sub_succ (by omega), Nat.testBit_two_pow_sub_one]
  by_cases hi' : i < hi
  · by_cases hlo : i < lo
    · simp [hi', hlo, Nat.not_le.mpr hlo]
    · simp [hi', hlo, Nat.not_lt.mp hlo]
  · simp [hi']

theorem land_range (h : lo ≤ hi) : x &&& (2 ^ hi - 2 ^ lo) = x % 2 ^ hi / 2 ^ lo * 2 ^ lo := by
  apply Nat.eq_of_testBit_eq
  intro i
  rw [Nat.testBit_and, testBit_range h, Nat.testBit_mul_two_pow, Nat.testBit_div_two_pow,
    Nat.testBit_mod_two_pow]
  by_cases hlo : lo ≤ i
  · simp only [hlo, decide_true, Bool.true_and, Nat.sub_add_cancel hlo]
    rw [Bool.and_comm]
  · simp [hlo]

theorem lor_of_lt {k a b : Nat} (hb : b < 2 ^ k) : a * 2 ^ k ||| b = a * 2 ^ k + b := by
  rw [Nat.mul_comm, Nat.two_pow_add_eq_or_of_lt hb]

end Packed

/-! ## Mixing -/

section Mixing

variable {w : Nat}

theorem finite_bitVec (w : Nat) : Finite (BitVec w) :=
  Finite.of_injective BitVec.toFin BitVec.toFin_injective

theorem eq_zero_of_shift_eq {k : Nat} (hk : 0 < k) {d : BitVec w} (h : d >>> k = d) :
    d = 0#w := by
  have hdiv : d.toNat / 2 ^ k = d.toNat := by
    rw [← Nat.shiftRight_eq_div_pow, ← BitVec.toNat_ushiftRight, h]
  refine BitVec.eq_of_toNat_eq ?_
  rw [BitVec.toNat_ofNat, Nat.zero_mod]
  by_contra hne
  exact absurd hdiv (Nat.div_lt_self (Nat.pos_of_ne_zero hne) (Nat.one_lt_two_pow hk.ne')).ne

/-- Xor with the word's own shift. -/
def xorShift (k : Nat) (x : BitVec w) : BitVec w := x ^^^ (x >>> k)

theorem xorShift_bijective {k : Nat} (hk : 0 < k) :
    Function.Bijective (xorShift k : BitVec w → BitVec w) := by
  have := finite_bitVec w
  rw [← Finite.injective_iff_bijective]
  intro x y hxy
  -- the difference of the two words is its own shift
  have hshift : (x ^^^ y) >>> k = x ^^^ y := by
    rw [BitVec.ushiftRight_xor_distrib]
    calc (x >>> k) ^^^ (y >>> k)
        = xorShift k x ^^^ x ^^^ (y >>> k) := by
          rw [xorShift, BitVec.xor_comm x, BitVec.xor_assoc (x >>> k), BitVec.xor_self,
            BitVec.xor_zero]
      _ = xorShift k y ^^^ x ^^^ (y >>> k) := by rw [hxy]
      _ = x ^^^ y := by
          rw [xorShift, BitVec.xor_assoc, BitVec.xor_comm x, ← BitVec.xor_assoc,
            BitVec.xor_assoc y, BitVec.xor_self, BitVec.xor_zero, BitVec.xor_comm]
  exact BitVec.xor_eq_zero_iff.1 (eq_zero_of_shift_eq hk hshift)

theorem xor_bijective (c : BitVec w) : Function.Bijective (c ^^^ ·) := by
  refine Function.Involutive.bijective fun x => ?_
  show c ^^^ (c ^^^ x) = x
  rw [← BitVec.xor_assoc, BitVec.xor_self, BitVec.zero_xor]

theorem add_bijective (c : BitVec w) : Function.Bijective (· + c) := (Equiv.addRight c).bijective

theorem mul_bijective {c c' : BitVec w} (h : c * c' = 1) : Function.Bijective (· * c) := by
  refine Function.bijective_iff_has_inverse.2 ⟨(· * c'), fun x => ?_, fun x => ?_⟩
  · show x * c * c' = x
    rw [mul_assoc, h, mul_one]
  · show x * c' * c = x
    rw [mul_assoc, mul_comm c', h, mul_one]

end Mixing

end SiestaVR.Lib
