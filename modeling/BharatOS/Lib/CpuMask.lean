/-!
# Sets of cores as 64-bit masks
-/

namespace BharatOS

open BitVec

/-- The mask of one core, `1ULL << cpu`. -/
def cpuBit (cpu : Nat) : BitVec 64 := 1#64 <<< cpu

def setCpu (mask : BitVec 64) (cpu : Nat) : BitVec 64 := mask ||| cpuBit cpu

def clearCpu (mask : BitVec 64) (cpu : Nat) : BitVec 64 := mask &&& ~~~cpuBit cpu

variable {cpu other : Nat} (mask : BitVec 64)

theorem getLsbD_cpuBit (h : other < 64) : (cpuBit cpu).getLsbD other = decide (other = cpu) := by
  rw [cpuBit, ← twoPow_eq, getLsbD_twoPow]
  by_cases same : cpu = other
  · simp [same, h]
  · simp [same, Ne.symm same]

theorem getLsbD_setCpu (h : cpu < 64) :
    (setCpu mask cpu).getLsbD other = (mask.getLsbD other || decide (other = cpu)) := by
  by_cases inside : other < 64
  · rw [setCpu, getLsbD_or, getLsbD_cpuBit inside]
  have different : other ≠ cpu := by omega
  simp [getLsbD_of_ge _ _ (Nat.not_lt.mp inside), different]

theorem getLsbD_clearCpu :
    (clearCpu mask cpu).getLsbD other = (mask.getLsbD other && !decide (other = cpu)) := by
  by_cases inside : other < 64
  · rw [clearCpu, getLsbD_and, getLsbD_not, getLsbD_cpuBit inside]
    simp [inside]
  · simp [getLsbD_of_ge _ _ (Nat.not_lt.mp inside)]

/-- The mask of the first `count` cores. -/
theorem getLsbD_lowCpus {count : Nat} (small : count < 64) (inside : cpu < count) :
    (1#64 <<< count - 1).getLsbD cpu = true := by
  have bound : 2 ^ count < 2 ^ 64 := Nat.pow_lt_pow_right (by decide) small
  have one : 1 ≤ 2 ^ count := Nat.one_le_two_pow
  have value : 1#64 <<< count - 1 = BitVec.ofNat 64 (2 ^ count - 1) := by
    apply eq_of_toNat_eq
    rw [← twoPow_eq, toNat_sub, toNat_twoPow, toNat_ofNat,
      Nat.mod_eq_of_lt bound, show (1 : BitVec 64).toNat = 1 from rfl]
    omega
  rw [value, getLsbD_ofNat, Nat.testBit_two_pow_sub_one]
  simp only [inside, decide_true, Bool.and_true, decide_eq_true_eq]
  omega

end BharatOS
