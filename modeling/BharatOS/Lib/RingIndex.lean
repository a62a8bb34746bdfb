import BharatOS.Lib.BitFields

/-!
# Slots of a ring with a power of two of slots

Positions count up and wrap; a mask takes a position to its slot.
-/

namespace BharatOS

open BitVec

/-- In a window as long as the ring every slot belongs to one position. -/
theorem eq_of_window {capacity first t u : Nat} (ht : first ≤ t) (ht' : t < first + capacity)
    (hu : first ≤ u) (hu' : u < first + capacity) (same : t % capacity = u % capacity) : t = u := by
  rcases Nat.le_total t u with le | le
  · have zero := Nat.sub_mod_eq_zero_of_mod_eq same.symm
    rw [Nat.mod_eq_of_lt (by omega)] at zero
    omega
  have zero := Nat.sub_mod_eq_zero_of_mod_eq same
  rw [Nat.mod_eq_of_lt (by omega)] at zero
  omega

variable {w : Nat} {capacity : BitVec w}

theorem toNat_pred (positive : capacity.toNat ≠ 0) : (capacity - 1).toNat = capacity.toNat - 1 := by
  have one : (1 : BitVec w).toNat = 1 := Nat.mod_eq_of_lt (show 1 < 2 ^ w by omega)
  rw [toNat_sub, one, show 2 ^ w - 1 + capacity.toNat = 2 ^ w + (capacity.toNat - 1) by omega,
    Nat.add_mod_left, Nat.mod_eq_of_lt (by omega)]

/-- A word is a power of two if it has no bit in common with the word below it. -/
theorem and_pred_eq_zero_iff (positive : capacity.toNat ≠ 0) :
    capacity &&& (capacity - 1) = 0 ↔ capacity.toNat.isPowerOfTwo := by
  rw [← Nat.and_sub_one_eq_zero_iff_isPowerOfTwo positive, ← toNat_pred positive, ← toNat_and]
  exact ⟨fun e => by rw [e]; simp, fun e => eq_of_toNat_eq (by simpa using e)⟩

/-- The slot of a position, however often positions wrapped. -/
theorem toNat_ofNat_and_mask {k : Nat} (value : capacity.toNat = 2 ^ k) (t : Nat) :
    (BitVec.ofNat w t &&& (capacity - 1)).toNat = t % 2 ^ k := by
  have positive := Nat.two_pow_pos k
  have small : 2 ^ k < 2 ^ w := value ▸ capacity.isLt
  rw [toNat_and_mask _ _ k (by rw [toNat_pred (by omega), value]), toNat_ofNat]
  exact Nat.mod_mod_of_dvd _ (Nat.pow_dvd_pow 2 ((Nat.pow_lt_pow_iff_right (by decide)).mp small).le)

end BharatOS
