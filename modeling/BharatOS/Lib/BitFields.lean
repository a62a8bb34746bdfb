import Mathlib.Data.BitVec

/-!
# Words packed from bit fields

A packed word is a chain of `field <<< offset ||| rest`. Read as a number it is
the sum of the shifted fields, and a shift followed by a mask reads a field back.
-/

namespace BharatOS

variable {w : Nat}

theorem toNat_and_mask (x mask : BitVec w) (width : Nat)
    (ones : mask.toNat = 2 ^ width - 1) : (x &&& mask).toNat = x.toNat % 2 ^ width := by
  rw [BitVec.toNat_and, ones, Nat.and_two_pow_sub_one_eq_mod]

theorem toNat_field (x mask : BitVec w) (offset width : Nat) (ones : mask.toNat = 2 ^ width - 1) :
    (x >>> offset &&& mask).toNat = x.toNat / 2 ^ offset % 2 ^ width := by
  rw [toNat_and_mask _ _ width ones, BitVec.toNat_ushiftRight, Nat.shiftRight_eq_div_pow]

/-- The word holds the number in its lowest `width` bits, and nothing else. -/
structure Packs (word : BitVec w) (value width : Nat) : Prop where
  toNat : word.toNat = value
  small : value < 2 ^ width

namespace Packs

theorem masked {v : Nat} (x : BitVec v) (mask : BitVec w) (width : Nat)
    (ones : mask.toNat = 2 ^ width - 1 := by rfl) (wider : v ≤ w := by decide) :
    Packs (x.setWidth w &&& mask) (x.toNat % 2 ^ width) width where
  toNat := by rw [toNat_and_mask _ _ width ones, BitVec.toNat_setWidth_of_le wider]
  small := Nat.mod_lt _ (Nat.two_pow_pos width)

variable {high low : BitVec w} {a b m n : Nat}

/-- A field in front of the others. -/
theorem cons (field : Packs high a m) (offset : Nat) (rest : Packs low b n)
    (fits : n ≤ offset := by decide) (room : offset + m ≤ w := by decide) :
    Packs (high <<< offset ||| low) (a * 2 ^ offset + b) (offset + m) := by
  have below : b < 2 ^ offset := rest.small.trans_le (Nat.pow_le_pow_right (by decide) fits)
  have whole : a * 2 ^ offset + b < 2 ^ (offset + m) := calc
    a * 2 ^ offset + b < a * 2 ^ offset + 2 ^ offset := Nat.add_lt_add_left below _
    _ = (a + 1) * 2 ^ offset := (Nat.succ_mul ..).symm
    _ ≤ 2 ^ m * 2 ^ offset := Nat.mul_le_mul_right _ field.small
    _ = 2 ^ (offset + m) := by rw [Nat.add_comm, Nat.pow_add]
  have inside := whole.trans_le (Nat.pow_le_pow_right (by decide) room)
  have shifted : (high <<< offset).toNat = a <<< offset := by
    rw [BitVec.toNat_shiftLeft, field.toNat, Nat.mod_eq_of_lt]
    omega
  refine ⟨?_, whole⟩
  rw [BitVec.toNat_or, shifted, rest.toNat, ← Nat.shiftLeft_add_eq_or_of_lt below, Nat.shiftLeft_eq]

end Packs

end BharatOS
