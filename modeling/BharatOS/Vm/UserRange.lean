import BharatOS.Vm.RegionIndex

/-!
# Checking a range of user addresses (`user_range.c`)

The check goes from region to region until it is past the end of the range.
-/

namespace BharatOS

open Prog

inductive UserRangeStatus where
  | ok | fault | denied
  deriving DecidableEq

/-- The values of constants that the source does not define. -/
structure AccessBits where
  userAccessExecute : BitVec 32
  protRead : BitVec 32
  protWrite : BitVec 32
  protExec : BitVec 32

/-- Whether a region with the protection may be accessed. -/
def AccessBits.grants (bits : AccessBits) (access prot : BitVec 32) : Bool :=
  (access &&& 1 ≠ 0 → prot &&& bits.protRead ≠ 0) ∧
    (access &&& 2 ≠ 0 → prot &&& bits.protWrite ≠ 0) ∧
    (access &&& bits.userAccessExecute ≠ 0 → prot &&& bits.protExec ≠ 0)

def userMin : Nat := 0x1000

/-- `highHalf` says whether the architecture has 64-bit user addresses in the high half. -/
def userMax (highHalf : Bool) : Nat := if highHalf then 0x7FFFFFFFFFFF else 0x7FFFFFFF

def mmUserNumericRangeValid (highHalf : Bool) (ptr len : BitVec 64) : Bool :=
  if len = 0 then true
  else if ptr.toNat < userMin ∨ userMax highHalf < ptr.toNat then false
  else
    let endInclusive := ptr + len - 1
    ¬ (endInclusive < ptr ∨ userMax highHalf < endInclusive.toNat)

namespace RegionState

variable (bits : AccessBits) (highHalf : Bool) {s : RegionState} {zs : List RegionPtr}
  (access : BitVec 32)

/-- The body of the loop of `mm_user_range_validate_current`. -/
def validateRound (s : RegionState) (stop curr : Nat) : Prog (Nat ⊕ UserRangeStatus) :=
  if curr < stop then do
    match ← s.aspaceLookupRegion curr with
    | none => return .inr .fault
    | some p =>
      if bits.grants access (s.region p).prot then
        if stop ≤ (s.region p).stop then return .inr .ok else return .inl (s.region p).stop
      else return .inr .denied
  else pure (.inr .ok)

/-- `mm_user_range_validate_current`; `aspace` is the current address space. -/
def mmUserRangeValidateCurrent (aspace : Option RegionState) (ptr len : BitVec 64) :
    Prog UserRangeStatus :=
  if mmUserNumericRangeValid highHalf ptr len then
    match aspace with
    | none => pure .denied
    | some s => loop (s.validateRound bits access (ptr + len).toNat) ptr.toNat
  else pure .fault

theorem numericRangeValid_iff {ptr len : BitVec 64} (some_ : len ≠ 0) :
    mmUserNumericRangeValid highHalf ptr len = true ↔
    userMin ≤ ptr.toNat ∧ ptr.toNat + len.toNat ≤ userMax highHalf + 1 := by
  have small : userMax highHalf < 2 ^ 63 := by cases highHalf <;> decide
  have pos : 0 < len.toNat := Nat.pos_of_ne_zero fun zero => some_ (BitVec.eq_of_toNat_eq zero)
  simp only [mmUserNumericRangeValid, if_neg some_]
  split_ifs with outside
  · simp
    omega
  · simp
    bv_omega

/-- Every address of the range is in a region that may be accessed. -/
def Accessible (s : RegionState) (zs : List RegionPtr) (ptr stop : Nat) : Prop :=
  ∀ va, ptr ≤ va → va < stop →
    ∃ p ∈ zs, (s.region p).Contains va ∧ bits.grants access (s.region p).prot

theorem validate_spec (intact : s.Intact zs) {ptr stop : Nat} :
    Returns (loop (s.validateRound bits access stop) ptr) fun status =>
      (status = .ok ↔ s.Accessible bits access zs ptr stop) := by
  refine .loop (fun k curr => k = stop - curr ∧ ptr ≤ curr ∧
    s.Accessible bits access zs ptr (min curr stop)) ?_
    ⟨rfl, Nat.le_refl _, fun va low high => by omega⟩
  rintro k curr ⟨rfl, low, before⟩
  unfold validateRound
  split_ifs with more
  swap
  · rw [Nat.min_eq_right (Nat.not_lt.mp more)] at before
    exact .pure ⟨fun _ => before, fun _ => rfl⟩
  refine .bind (aspaceLookupRegion_spec intact) fun found iff => ?_
  cases found with
  | none =>
    refine .pure ⟨nofun, fun all => ?_⟩
    obtain ⟨p, member, inside, -⟩ := all curr low more
    cases (iff p).mpr ⟨member, inside⟩
  | some p =>
    obtain ⟨member, inside⟩ := (iff p).mp rfl
    dsimp only
    rw [(intact.laid.proper p member).stop_eq]
    have through (grants : bits.grants access (s.region p).prot = true) :
        s.Accessible bits access zs ptr (min (s.region p).limit stop) := by
      intro va from_ until_
      rcases Nat.lt_or_ge va curr with early | late
      · exact before va from_ (by omega)
      · exact ⟨p, member, ⟨Nat.le_trans inside.1 late, by omega⟩, grants⟩
    split_ifs with grants last
    · have through := through grants
      rw [Nat.min_eq_right last] at through
      exact .pure ⟨fun _ => through, fun _ => rfl⟩
    · have := inside.2
      exact .pure ⟨_, by omega, rfl, by omega, through grants⟩
    · refine .pure ⟨nofun, fun all => ?_⟩
      obtain ⟨q, member, inside, granted⟩ := all curr low more
      cases (iff q).mpr ⟨member, inside⟩
      exact absurd granted grants

/-- The check ends, and it succeeds just if every address of the range is a user address in a
region that may be accessed. -/
theorem user_range_exact (intact : s.Intact zs) (ptr : BitVec 64) {len : BitVec 64} (some_ : len ≠ 0) :
    Returns (mmUserRangeValidateCurrent bits highHalf access (some s) ptr len) fun status =>
      (status = .ok ↔ (∀ va, ptr.toNat ≤ va → va < ptr.toNat + len.toNat →
        userMin ≤ va ∧ va ≤ userMax highHalf) ∧
          s.Accessible bits access zs ptr.toNat (ptr.toNat + len.toNat)) := by
  have pos : 0 < len.toNat := Nat.pos_of_ne_zero fun zero => some_ (BitVec.eq_of_toNat_eq zero)
  have small : userMax highHalf < 2 ^ 63 := by cases highHalf <;> decide
  have valid := @numericRangeValid_iff highHalf ptr len some_
  unfold mmUserRangeValidateCurrent
  split_ifs with inside
  · obtain ⟨low, high⟩ := valid.mp inside
    rw [BitVec.toNat_add_of_lt (by omega)]
    refine (validate_spec bits access intact).mono fun status iff => iff.trans ?_
    exact (and_iff_right fun va from_ until_ => by omega).symm
  · refine .pure ⟨nofun, fun all => absurd (valid.mpr ?_) inside⟩
    have first := all.1 ptr.toNat (Nat.le_refl _) (by omega)
    have last := all.1 (ptr.toNat + len.toNat - 1) (by omega) (by omega)
    omega

/-- Two pages are mapped, and the middle of them is read. -/
theorem user_range_exact_middle : ∃ (s : RegionState) (zs : List RegionPtr), s.Intact zs ∧
    mmUserRangeValidateCurrent ⟨4, 1, 2, 4⟩ true 1 (some s) 0x1800 0x1000 8 = some .ok ∧
    s.Accessible ⟨4, 1, 2, 4⟩ 1 zs 0x1800 0x2800 := by
  have now : VmSpaces.outcome 8 [.create 0, .call 0 [some 0] (.reserve 0x1000 0x2000 1 0 .none)]
      (fun s => mmUserRangeValidateCurrent ⟨4, 1, 2, 4⟩ true 1 (some s) 0x1800 0x1000 8) =
      some (some .ok) := by decide +kernel
  obtain ⟨s, as, run, found, result⟩ := VmSpaces.exists_run now (fun s call => ¬ s.FreesTwice call)
    (by simp [VmSpaces.FreesTwice, FreesTwice])
  obtain ⟨lists, sound⟩ := VmSpaces.Sound.run run
  have intact := sound.intact found
  have iff := (user_range_exact ⟨4, 1, 2, 4⟩ true 1 intact 0x1800 (by decide)).post result
  exact ⟨_, _, intact, result, (iff.mp rfl).2⟩

end RegionState

end BharatOS
