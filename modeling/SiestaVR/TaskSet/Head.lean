import SiestaVR.Lib.Words
import SiestaVR.TaskSet.Wake

/-!
# The head of the stack of woken tasks

The low half of the head is an index and the high half a countdown. Each test and each change of
the head is put in terms of the two: `pack` builds a head from them, and the lemmas say what the
masks, the comparisons and the subtraction of the source make of a packed head. Nothing after
this module mentions bits.
-/

namespace SiestaVR.TaskSet

open SiestaVR.Lib

/-- The head with a countdown and an index. -/
def pack (countdown index : Nat) : UInt64 := UInt64.ofNat (index + 2 ^ 32 * countdown)

variable {c i : Nat}

theorem toNat_pack (hc : c < 2 ^ 32) (hi : i < 2 ^ 32) : (pack c i).toNat = i + 2 ^ 32 * c := by
  rw [pack, UInt64.toNat_ofNat', Nat.mod_eq_of_lt]
  omega

theorem toNat_land_indexMask (x : UInt64) : (x &&& indexMask).toNat = x.toNat % 2 ^ 32 := by
  rw [UInt64.toNat_and, show indexMask.toNat = 2 ^ 32 - 2 ^ 0 from rfl, land_range (by decide)]
  omega

theorem toNat_land_countdownMask (x : UInt64) :
    (x &&& countdownMask).toNat = x.toNat / 2 ^ 32 * 2 ^ 32 := by
  rw [UInt64.toNat_and, show countdownMask.toNat = 2 ^ 64 - 2 ^ 32 from rfl,
    land_range (by decide), Nat.mod_eq_of_lt x.toNat_lt]

theorem toNat_headIndex (x : UInt64) : (headIndex x).toNat = x.toNat % 2 ^ 32 := by
  rw [headIndex, UInt64.toNat_toUInt32, toNat_land_indexMask, Nat.mod_mod]

theorem headIndex_pack (hc : c < 2 ^ 32) (hi : i < 2 ^ 32) : (headIndex (pack c i)).toNat = i := by
  rw [toNat_headIndex, toNat_pack hc hi]
  omega

theorem land_indexMask_eq_empty (x : UInt64) :
    x &&& indexMask = empty.toUInt64 ↔ headIndex x = empty := by
  rw [← UInt64.toNat_inj, ← UInt32.toNat_inj, toNat_land_indexMask, toNat_headIndex]
  rfl

theorem empty_eq_pack : empty.toUInt64 = pack 0 empty.toNat := rfl

theorem request_eq_pack (countdown : UInt32) :
    countdown.toUInt64 * countdownOne ||| empty.toUInt64 = pack countdown.toNat empty.toNat := by
  have hlt := countdown.toNat_lt
  have hempty : empty.toNat < 2 ^ 32 := empty.toNat_lt
  rw [← UInt64.toNat_inj, toNat_pack hlt hempty, UInt64.toNat_or, UInt64.toNat_mul,
    UInt32.toNat_toUInt64, UInt32.toNat_toUInt64, show countdownOne.toNat = 2 ^ 32 from rfl,
    Nat.mod_eq_of_lt (by omega), lor_of_lt hempty, Nat.add_comm, Nat.mul_comm]

theorem countdown_eq_one (hc : c < 2 ^ 32) (hi : i < 2 ^ 32) :
    pack c i &&& countdownMask = countdownOne ↔ c = 1 := by
  rw [← UInt64.toNat_inj, toNat_land_countdownMask, toNat_pack hc hi,
    show countdownOne.toNat = 2 ^ 32 from rfl]
  omega

/-- The countdown goes down to zero and stays there. -/
theorem pushed_eq_pack (hc : c < 2 ^ 32) (hi : i < 2 ^ 32) {idx : Nat} (hidx : idx < 2 ^ 32) :
    ((pack c i &&& countdownMask) -
        (if pack c i &&& countdownMask ≠ 0 then 1 else 0) * countdownOne) ||| UInt64.ofNat idx =
      pack (c - 1) idx := by
  have hcount : (pack c i &&& countdownMask).toNat = c * 2 ^ 32 := by
    rw [toNat_land_countdownMask, toNat_pack hc hi]
    omega
  have hzero : pack c i &&& countdownMask = 0 ↔ c = 0 := by
    rw [← UInt64.toNat_inj, hcount, UInt64.toNat_zero]
    omega
  have hsub : ((pack c i &&& countdownMask) -
      (if pack c i &&& countdownMask ≠ 0 then 1 else 0) * countdownOne).toNat =
        (c - 1) * 2 ^ 32 := by
    by_cases h : c = 0
    · rw [if_neg (not_not.mpr (hzero.mpr h)), UInt64.zero_mul, UInt64.sub_zero, hcount, h]
    · rw [if_pos (mt hzero.mp h), UInt64.one_mul, UInt64.toNat_sub, hcount,
        show countdownOne.toNat = 2 ^ 32 from rfl]
      omega
  rw [← UInt64.toNat_inj, UInt64.toNat_or, hsub, toNat_pack (by omega) hidx, UInt64.toNat_ofNat',
    Nat.mod_eq_of_lt (by omega), lor_of_lt hidx, Nat.add_comm, Nat.mul_comm]

end SiestaVR.TaskSet
