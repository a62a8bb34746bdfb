import BharatOS.Lib.Prog
import Mathlib.Data.BitVec

/-!
# The early allocator (`early_alloc.c`, `pmm_init.c`)

Before there are page records, memory is given out by moving a pointer up. It jumps over what the
boot loader has reserved.
-/

namespace BharatOS

open List Prog

/-- The range of a `pmm_boot_reserved_range_t`; `stop` is its `end`. -/
structure BootReservedRange where
  start : BitVec 64
  stop : BitVec 64

def BootReservedRange.has (r : BootReservedRange) (paddr : Nat) : Bool :=
  r.start.toNat ≤ paddr ∧ paddr < r.stop.toNat

/-- The arguments of a call. -/
structure EarlyCall where
  size : BitVec 64
  alignment : BitVec 64

section

variable (bootReservations : List BootReservedRange)

def pmmBootReservationEnd (paddr : Nat) : Nat :=
  match bootReservations.find? (·.has paddr) with
  | some r => r.stop.toNat
  | none => 0

/-- The body of the loop of `pmm_boot_reservation_overlap_end`. -/
def overlapRound (start stop overlapEnd : Nat) (range : BootReservedRange) : Nat :=
  if start < range.stop.toNat ∧ range.start.toNat < stop ∧ overlapEnd < range.stop.toNat then
    range.stop.toNat
  else overlapEnd

def pmmBootReservationOverlapEnd (start stop : Nat) : Nat :=
  if stop ≤ start then 0 else bootReservations.foldl (overlapRound start stop) 0

/-- Where to jump to, or 0 if there is no need to. -/
def earlyJump (size bump : Nat) : Nat :=
  if 0 < size then pmmBootReservationOverlapEnd bootReservations bump (bump + size)
  else pmmBootReservationEnd bootReservations bump

/-- The pointer moved up to a multiple of the alignment, if there is one. -/
def earlyAlign (alignment bump : Nat) : Option Nat :=
  if alignment = 0 then some bump
  else
    let rem := bump % alignment
    let padding := if rem = 0 then 0 else alignment - rem
    if 2 ^ 64 - 1 - bump < padding then none else some (bump + padding)

/-- The body of the loop of `early_alloc`. It ends with the pointer, and the memory if there is
any. -/
def earlyAllocRound (size alignment bump : Nat) : Prog (Nat ⊕ Nat × Option Nat) :=
  match earlyAlign alignment bump with
  | none => pure (.inr (bump, none))
  | some bump =>
    if 2 ^ 64 - 1 - bump < size then pure (.inr (bump, none))
    else
      let rEnd := earlyJump bootReservations size bump
      if rEnd = 0 then pure (.inr (bump + size, some bump)) else pure (.inl rEnd)

/-- `kernelEnd` is the linker's `_end`, where the pointer starts. -/
def earlyAlloc (kernelEnd : BitVec 64) (call : EarlyCall) (bump : Nat) : Prog (Nat × Option Nat) :=
  loop (earlyAllocRound bootReservations call.size.toNat call.alignment.toNat)
    (if bump = 0 then kernelEnd.toNat else bump)

/-- The calls one after the other, and what they return. -/
def earlyAllocs (kernelEnd : BitVec 64) :
    List EarlyCall → Nat → Prog (List (EarlyCall × Option Nat))
  | [], _ => pure []
  | call :: rest, bump => do
    let (bump, ptr) ← earlyAlloc bootReservations kernelEnd call bump
    let later ← earlyAllocs kernelEnd rest bump
    return (call, ptr) :: later

end

variable {bootReservations : List BootReservedRange} {alignment bump : Nat}

/-- The end is that of a reservation behind the start, and no reservation in the range ends behind
it. -/
theorem overlapRound_foldl (start stop overlapEnd : Nat) :
    let rEnd := bootReservations.foldl (overlapRound start stop) overlapEnd
    overlapEnd ≤ rEnd ∧ (rEnd = overlapEnd ∨ start < rEnd ∧ rEnd < 2 ^ 64) ∧
      ∀ r ∈ bootReservations, start < r.stop.toNat → r.start.toNat < stop →
        r.stop.toNat ≤ rEnd := by
  induction bootReservations generalizing overlapEnd with
  | nil => exact ⟨Nat.le_refl _, .inl rfl, nofun⟩
  | cons r rest ih =>
    obtain ⟨le, new, all⟩ := ih (overlapRound start stop overlapEnd r)
    simp only [foldl_cons, forall_mem_cons]
    generalize rest.foldl (overlapRound start stop) _ = rEnd at le new all ⊢
    unfold overlapRound at le new
    refine ⟨?_, ?_, fun behind before => ?_, all⟩ <;> split_ifs at le new <;> omega

theorem earlyJump_cases (size bump : Nat) :
    bump < earlyJump bootReservations size bump ∧ earlyJump bootReservations size bump < 2 ^ 64 ∨
    earlyJump bootReservations size bump = 0 ∧ ∀ r ∈ bootReservations, ∀ paddr, bump ≤ paddr →
      paddr < bump + size → r.has paddr = false := by
  unfold earlyJump
  split_ifs with some_
  · rw [pmmBootReservationOverlapEnd, if_neg (by omega)]
    obtain ⟨-, jump, all⟩ := @overlapRound_foldl bootReservations bump (bump + size) 0
    refine jump.symm.imp_right fun none => ⟨none, fun r member paddr low high => ?_⟩
    have := all r member
    simp [BootReservedRange.has]
    omega
  · unfold pmmBootReservationEnd
    split
    · rename_i r found
      have inside := find?_some found
      simp only [BootReservedRange.has, decide_eq_true_eq] at inside
      exact .inl ⟨inside.2, r.stop.isLt⟩
    · exact .inr ⟨rfl, fun r member paddr low high => absurd high (by omega)⟩

theorem earlyAlign_spec {up : Nat} (eq : earlyAlign alignment bump = some up)
    (small : bump < 2 ^ 64) : bump ≤ up ∧ up < 2 ^ 64 ∧ (alignment ≠ 0 → alignment ∣ up) := by
  unfold earlyAlign at eq
  split_ifs at eq with none
  · cases eq
    exact ⟨Nat.le_refl _, small, fun some_ => absurd none some_⟩
  dsimp only at eq
  split_ifs at eq with whole tooFar tooFar
  · cases eq
    exact ⟨Nat.le_refl _, small, fun _ => Nat.dvd_of_mod_eq_zero whole⟩
  · cases eq
    refine ⟨by omega, by omega, fun _ => ⟨bump / alignment + 1, ?_⟩⟩
    have := Nat.div_add_mod bump alignment
    have := Nat.mod_lt bump (Nat.pos_of_ne_zero none)
    rw [Nat.mul_add]
    omega

/-- The memory is aligned, it ends within memory, and it meets no reservation. -/
structure EarlySound (bootReservations : List BootReservedRange) (call : EarlyCall) (ptr : Nat) :
    Prop where
  aligned : call.alignment.toNat ≠ 0 → call.alignment.toNat ∣ ptr
  fits : ptr + call.size.toNat < 2 ^ 64
  clear : ∀ r ∈ bootReservations, ∀ paddr, ptr ≤ paddr → paddr < ptr + call.size.toNat →
    r.has paddr = false

variable {kernelEnd : BitVec 64}

theorem earlyAlloc_spec {call : EarlyCall} (small : bump < 2 ^ 64) :
    Returns (earlyAlloc bootReservations kernelEnd call bump) fun (next, result) =>
      next < 2 ^ 64 ∧ bump ≤ next ∧ ∀ ptr, result = some ptr → bump ≤ ptr ∧
        ptr + call.size.toNat ≤ next ∧ EarlySound bootReservations call ptr := by
  have start : bump ≤ (if bump = 0 then kernelEnd.toNat else bump) ∧
      (if bump = 0 then kernelEnd.toNat else bump) < 2 ^ 64 := by
    split_ifs <;> omega
  -- every round but the last moves the pointer up
  refine .loop (fun k now => k = 2 ^ 64 - now ∧ bump ≤ now ∧ now < 2 ^ 64) ?_ ⟨rfl, start⟩
  rintro k now ⟨rfl, low, high⟩
  unfold earlyAllocRound
  split
  · exact .pure ⟨high, low, nofun⟩
  rename_i up eq
  obtain ⟨above, below, aligned⟩ := earlyAlign_spec eq high
  split_ifs with tooFar
  · exact .pure ⟨below, by omega, nofun⟩
  rcases @earlyJump_cases bootReservations call.size.toNat up with ⟨behind, within⟩ | ⟨none, clear⟩
  · rw [if_neg (by omega)]
    exact .pure ⟨_, by omega, rfl, by omega, within⟩
  · rw [if_pos none]
    refine .pure ⟨by omega, by omega, ?_⟩
    rintro _ ⟨⟩
    exact ⟨by omega, Nat.le_refl _, aligned, by omega, clear⟩

/-- An address of the memory that a call returned. -/
def EarlyHas (result : EarlyCall × Option Nat) (paddr : Nat) : Prop :=
  ∃ ptr, result.2 = some ptr ∧ ptr ≤ paddr ∧ paddr < ptr + result.1.size.toNat

/-- All the calls return, what they give is sound, and no address is given twice. -/
structure EarlyGiven (bootReservations : List BootReservedRange) (bump : Nat)
    (calls : List EarlyCall) (results : List (EarlyCall × Option Nat)) : Prop where
  all : results.map (·.1) = calls
  sound : ∀ result ∈ results, ∀ ptr, result.2 = some ptr → bump ≤ ptr ∧
    EarlySound bootReservations result.1 ptr
  apart : results.Pairwise fun r r' => ∀ paddr, EarlyHas r paddr → ¬ EarlyHas r' paddr

theorem earlyAllocs_spec {calls : List EarlyCall} (small : bump < 2 ^ 64) :
    Returns (earlyAllocs bootReservations kernelEnd calls bump)
      (EarlyGiven bootReservations bump calls) := by
  induction calls generalizing bump with
  | nil => exact .pure ⟨rfl, nofun, .nil⟩
  | cons call rest ih =>
    refine .bind (earlyAlloc_spec small) ?_
    rintro ⟨next, ptr⟩ ⟨fits, above, given⟩
    refine .bind (ih fits) fun later rest => .pure ⟨by simp [rest.all], ?_, ?_⟩
    · refine forall_mem_cons.mpr ⟨fun p is => ⟨(given p is).1, (given p is).2.2⟩, ?_⟩
      exact fun result member p is => (rest.sound result member p is).imp_left above.trans
    · refine pairwise_cons.mpr ⟨?_, rest.apart⟩
      intro result member paddr ⟨p, is, low, high⟩ ⟨p', is', low', _⟩
      have := (given p is).2.1
      have := (rest.sound result member p' is').1
      exact absurd high (by dsimp only; omega)

/-- Every call returns. The memory that it gives is aligned, ends within memory and meets no
reservation, and no address is given twice. -/
theorem early_allocations_sound (bootReservations : List BootReservedRange)
    (kernelEnd bump : BitVec 64) (calls : List EarlyCall) :
    Returns (earlyAllocs bootReservations kernelEnd calls bump.toNat)
      (EarlyGiven bootReservations bump.toNat calls) :=
  earlyAllocs_spec bump.isLt

end BharatOS
