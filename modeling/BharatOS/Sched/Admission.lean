import Mathlib.Data.Nat.Cast.Field
import Mathlib.Tactic.Linarith
import Mathlib.Tactic.Ring

/-!
# Real-time admission (`sched_rt.c`)

A core counts the utilisation of its admitted tasks in thousandths, rounded down, of a product in
64 bits. What the calls write to the thread is left out.
-/

namespace BharatOS

structure RtBudget where
  used : BitVec 64
  total : BitVec 64

/-- The arguments of a call; only `sched_admission_edf` has a deadline. -/
structure RtRequest where
  thread : Bool
  wcet : BitVec 64
  period : BitVec 64
  deadline : BitVec 64
  deriving DecidableEq

/-- What both calls do; the budget of a core gets its limit with the first call. -/
def RtBudget.charge (b : RtBudget) (limit : BitVec 64) (invalid : Bool) (r : RtRequest) :
    RtBudget × Int :=
  let bandwidth := r.wcet * 1000 / r.period
  let total := if b.total = 0 then limit else b.total
  if invalid then (b, -1)
  else if total < b.used + bandwidth then (⟨b.used, total⟩, -2)
  else (⟨b.used + bandwidth, total⟩, 0)

def schedAdmissionEdf (b : RtBudget) (r : RtRequest) : RtBudget × Int :=
  b.charge 1000
    (!r.thread || r.period = 0 || r.wcet = 0 || r.deadline < r.wcet || r.period < r.deadline) r

def schedAdmissionRms (b : RtBudget) (r : RtRequest) : RtBudget × Int :=
  b.charge 690 (!r.thread || r.period = 0 || r.period < r.wcet) r

namespace RtBudget

/-- The accepted ones of some calls. -/
def accepted (call : RtBudget → RtRequest → RtBudget × Int) (b : RtBudget) :
    List RtRequest → List RtRequest
  | [] => []
  | r :: rest =>
    let later := accepted call (call b r).1 rest
    if (call b r).2 = 0 then r :: later else later

def utilisation (tasks : List RtRequest) : ℚ :=
  (tasks.map fun r => (r.wcet.toNat : ℚ) / r.period.toNat).sum

/-- Nothing is lost when the utilisation is put into thousandths. -/
abbrev Exact (r : RtRequest) : Prop :=
  r.wcet.toNat * 1000 < 2 ^ 64 ∧ r.period.toNat ∣ r.wcet.toNat * 1000

/-- The budget of a core on which no other limit is used. -/
def Within (limit : BitVec 64) (b : RtBudget) : Prop :=
  b.used ≤ limit ∧ (b.total = 0 ∨ b.total = limit)

/-- What the answer to a call says about the budget. -/
structure Counts (limit : BitVec 64) (b : RtBudget) (r : RtRequest) (a : RtBudget × Int) :
    Prop where
  within : a.1.Within limit
  refused : a.2 ≠ 0 → a.1.used = b.used
  counted : a.2 = 0 → Exact r →
    (b.used.toNat : ℚ) + 1000 * (r.wcet.toNat / r.period.toNat) = a.1.used.toNat

section

variable {limit : BitVec 64} {r : RtRequest} {b : RtBudget}

theorem bandwidth_eq (exact : Exact r) (period : r.period ≠ 0) :
    ((r.wcet * 1000 / r.period).toNat : ℚ) = 1000 * (r.wcet.toNat / r.period.toNat) := by
  have product : (r.wcet * 1000).toNat = r.wcet.toNat * 1000 := by
    exact Nat.mod_eq_of_lt exact.1
  have positive : (r.period.toNat : ℚ) ≠ 0 := by
    intro zero
    apply period
    apply BitVec.eq_of_toNat_eq
    exact_mod_cast zero
  rw [BitVec.toNat_udiv, product, Nat.cast_div exact.2 positive]
  push_cast
  ring

theorem charge_counts {invalid : Bool} (small : limit ≤ 1000)
    (valid : invalid = false → r.period ≠ 0 ∧ r.wcet ≤ r.period) (within : b.Within limit) :
    Counts limit b r (b.charge limit invalid r) := by
  have total : (if b.total = 0 then limit else b.total) = limit := by
    rcases within.2 with unset | set
    · rw [if_pos unset]
    · rw [set, ite_self]
  simp only [charge, total]
  split_ifs with rejected beyond
  · exact ⟨within, fun _ => rfl, nofun⟩
  · exact ⟨⟨within.1, .inr rfl⟩, fun _ => rfl, nofun⟩
  · refine ⟨⟨BitVec.not_lt.mp beyond, .inr rfl⟩, fun refused => absurd rfl refused, ?_⟩
    intro _ exact
    obtain ⟨period, fits⟩ := valid (Bool.eq_false_of_not_eq_true rejected)
    -- a task that fits into its period needs at most 1000 thousandths, so the sum does not wrap
    have bandwidth : (r.wcet * 1000 / r.period).toNat ≤ 1000 := by
      apply Nat.div_le_of_le_mul
      apply (Nat.mod_le ..).trans
      exact Nat.mul_le_mul_right 1000 fits
    have used : b.used.toNat ≤ 1000 := Nat.le_trans within.1 small
    have sum : (b.used + r.wcet * 1000 / r.period).toNat =
        b.used.toNat + (r.wcet * 1000 / r.period).toNat := by
      rw [BitVec.toNat_add]
      omega
    rw [← bandwidth_eq exact period, ← Nat.cast_add, ← sum]

theorem edf_counts : b.Within 1000 → Counts 1000 b r (schedAdmissionEdf b r) := by
  apply charge_counts (BitVec.le_refl _)
  simp only [Bool.or_eq_false_iff, decide_eq_false_iff_not, BitVec.not_lt]
  rintro ⟨⟨⟨⟨-, period⟩, -⟩, wcet⟩, deadline⟩
  exact ⟨period, BitVec.le_trans wcet deadline⟩

theorem rms_counts : b.Within 690 → Counts 690 b r (schedAdmissionRms b r) := by
  apply charge_counts (by decide)
  simp only [Bool.or_eq_false_iff, decide_eq_false_iff_not, BitVec.not_lt]
  rintro ⟨⟨-, period⟩, wcet⟩
  exact ⟨period, wcet⟩

theorem accepted_counted {call : RtBudget → RtRequest → RtBudget × Int} {requests : List RtRequest}
    (counts : ∀ {b : RtBudget} {r}, b.Within limit → Counts limit b r (call b r))
    (within : b.Within limit) (exact : ∀ r ∈ accepted call b requests, Exact r) :
    (b.used.toNat : ℚ) + 1000 * utilisation (accepted call b requests) ≤ limit.toNat := by
  induction requests generalizing b with
  | nil =>
    have used : b.used.toNat ≤ limit.toNat := within.1
    simpa [accepted, utilisation] using used
  | cons r rest ih =>
    have step := counts (r := r) within
    simp only [accepted] at exact ⊢
    split_ifs at exact ⊢ with admitted
    · have later := ih step.within fun r mem => exact r (.tail _ mem)
      have now := step.counted admitted (exact r (.head _))
      simp only [utilisation, List.map_cons, List.sum_cons] at later ⊢
      linarith
    · rw [← step.refused admitted]
      exact ih step.within exact

end

/-- The budget of a core before the first call. -/
def unset : RtBudget := ⟨0, 0⟩

/-- While no utilisation is rounded or wraps, the tasks admitted to a core fit into its time. -/
theorem admission_sound (requests : List RtRequest) :
    ((∀ r ∈ accepted schedAdmissionEdf unset requests, Exact r) →
      utilisation (accepted schedAdmissionEdf unset requests) ≤ 1) ∧
    ((∀ r ∈ accepted schedAdmissionRms unset requests, Exact r) →
      utilisation (accepted schedAdmissionRms unset requests) ≤ 69 / 100) := by
  constructor
  · intro exact
    have counted : ((0 : ℕ) : ℚ) + 1000 * utilisation _ ≤ (1000 : ℕ) :=
      accepted_counted edf_counts ⟨by decide, .inl rfl⟩ exact
    push_cast at counted
    linarith
  · intro exact
    have counted : ((0 : ℕ) : ℚ) + 1000 * utilisation _ ≤ (690 : ℕ) :=
      accepted_counted rms_counts ⟨by decide, .inl rfl⟩ exact
    push_cast at counted
    linarith

/-- Two quarters and a half fill a core under EDF; under RMS the half is refused. -/
theorem admission_sound_half :
    let tasks : List RtRequest := [⟨true, 1, 4, 4⟩, ⟨true, 1, 4, 4⟩, ⟨true, 1, 2, 2⟩]
    accepted schedAdmissionEdf unset tasks = tasks ∧
    accepted schedAdmissionRms unset tasks = tasks.take 2 ∧
    utilisation (accepted schedAdmissionEdf unset tasks) ≤ 1 ∧
    utilisation (accepted schedAdmissionRms unset tasks) ≤ 69 / 100 :=
  ⟨by decide, by decide, (admission_sound _).1 (by decide), (admission_sound _).2 (by decide)⟩

/-- Two tasks that need all of their period are admitted, since the product wraps to zero. -/
theorem two_full_tasks_admitted :
    let full : RtRequest := ⟨true, 0x8000000000000000, 0x8000000000000000, 0x8000000000000000⟩
    accepted schedAdmissionEdf unset [full, full] = [full, full] ∧
    accepted schedAdmissionRms unset [full, full] = [full, full] ∧
    ¬ utilisation [full, full] ≤ 1 := by
  decide +kernel

end RtBudget

end BharatOS
