import Mathlib.Data.Nat.Bitwise

/-!
# Fields of a concatenated bit vector, read as natural numbers

`toNat_append_add` turns a concatenation into a sum with place values, `mask_*` turn the masks
a decoder uses into remainders.  With them a field read is linear arithmetic.
-/

namespace Bits

theorem toNat_append_add {m n : Nat} (hi : BitVec m) (lo : BitVec n) :
    (hi ++ lo).toNat = hi.toNat * 2^n + lo.toNat := by
  rw [BitVec.toNat_append, ← Nat.shiftLeft_add_eq_or_of_lt lo.isLt, Nat.shiftLeft_eq]

theorem mask_1 (w : Nat) : w &&& 1 = w % 2 := Nat.and_two_pow_sub_one_eq_mod w 1
theorem mask_2 (w : Nat) : w &&& 3 = w % 4 := Nat.and_two_pow_sub_one_eq_mod w 2
theorem mask_3 (w : Nat) : w &&& 7 = w % 8 := Nat.and_two_pow_sub_one_eq_mod w 3
theorem mask_5 (w : Nat) : w &&& 0x1F = w % 32 := Nat.and_two_pow_sub_one_eq_mod w 5
theorem mask_7 (w : Nat) : w &&& 0x7F = w % 128 := Nat.and_two_pow_sub_one_eq_mod w 7
theorem mask_16 (w : Nat) : w &&& 0xFFFF = w % 65536 := Nat.and_two_pow_sub_one_eq_mod w 16

end Bits
