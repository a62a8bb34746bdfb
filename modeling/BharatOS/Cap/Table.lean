import BharatOS.Cap.Types
import BharatOS.Ds.IdAllocator
import BharatOS.Lib.BitFields

/-!
# Capability tables

The allocator's flags say which entries are in use, an entry in use has the id its slot gives it,
and one not in use has neither parent nor child. Only `edit`, `release` and `install` change
entries.
-/

namespace BharatOS

open Function List BitVec

/-- `BH_CAP_SLOT_MASK` and `BH_CAP_GEN_SHIFT`: a handle is a 16-bit index below
the low half of the slot's generation. -/
def bhCapIndex (capId : BitVec 32) : BitVec 32 := capId &&& 0xFFFF

def bhCapGeneration (capId : BitVec 32) : BitVec 32 := capId >>> 16

/-- The build without the legacy capability tests. -/
def bhCapGenerationMatches (entryGeneration handleGeneration : BitVec 32) : Bool :=
  handleGeneration != 0 && handleGeneration == entryGeneration

/-- `e->id | (e->generation << 16)`. -/
def capHandle (id generation : BitVec 32) : BitVec 32 := id ||| generation <<< 16

variable (capId id generation : BitVec 32)

theorem bhCapGeneration_toNat : (bhCapGeneration capId).toNat = capId.toNat / 2 ^ 16 := by
  simp [bhCapGeneration, Nat.shiftRight_eq_div_pow]

theorem bhCapIndex_toNat : (bhCapIndex capId).toNat = capId.toNat % 2 ^ 16 :=
  toNat_and_mask capId _ 16 rfl

theorem capHandle_toNat (small : id.toNat < 2 ^ 16) :
    (capHandle id generation).toNat = generation.toNat % 2 ^ 16 * 2 ^ 16 + id.toNat := by
  have shifted : (generation <<< 16).toNat = (generation.toNat % 2 ^ 16) <<< 16 := by
    simp only [toNat_shiftLeft, Nat.shiftLeft_eq]
    omega
  rw [capHandle, toNat_or, Nat.or_comm, shifted,
    ← Nat.shiftLeft_add_eq_or_of_lt small, Nat.shiftLeft_eq]

/-- A handle keeps the index and the low half of the generation. -/
theorem capHandle_split (small : id.toNat < 2 ^ 16) :
    bhCapIndex (capHandle id generation) = id ∧
      (bhCapGeneration (capHandle id generation)).toNat = generation.toNat % 2 ^ 16 := by
  have whole := capHandle_toNat id generation small
  constructor
  · apply eq_of_toNat_eq
    rw [bhCapIndex_toNat, whole]
    omega
  · rw [bhCapGeneration_toNat, whole]
    omega

/-- `slot + 1`, the id an entry has while it is in use. -/
def slotId (slot : Slot) : BitVec 32 := BitVec.ofNat 32 (slot + 1)

theorem slotId_toNat (slot : Slot) : (slotId slot).toNat = slot + 1 := by
  simp only [slotId, toNat_ofNat]
  omega

theorem slotId_inj {i j : Slot} (h : slotId i = slotId j) : i = j := by
  have := congrArg BitVec.toNat h
  rw [slotId_toNat, slotId_toNat] at this
  exact Fin.ext (by omega)

structure CapabilityTable where
  entries : Slot → CapabilityEntry
  idAllocator : BhIdAllocator 64
  cspaceId : BitVec 32
  ownerCore : Core
  registrySlot : CSpaceSlot
  ownerPid : BitVec 64
  allocated : ∀ i, idAllocator.bitmap i = (entries i).inUse
  numbered : ∀ i, (entries i).inUse = true → (entries i).id = slotId i
  cleared : ∀ i, (entries i).inUse = false →
    (entries i).parent = capLocatorNull ∧ (entries i).firstChild = capLocatorNull

namespace CapabilityTable

/-- What names a table; no operation on entries touches it. -/
def ident (t : CapabilityTable) : BitVec 32 × Core × CSpaceSlot :=
  (t.cspaceId, t.ownerCore, t.registrySlot)

/-- The table that creation publishes. -/
def create (cspaceId : BitVec 32) (ownerCore : Core) (registrySlot : CSpaceSlot) :
    CapabilityTable where
  entries := fun _ => .zero
  idAllocator := .init
  cspaceId := cspaceId
  ownerCore := ownerCore
  registrySlot := registrySlot
  ownerPid := 0
  allocated := fun _ => rfl
  numbered := fun _ h => by cases h
  cleared := fun _ _ => ⟨rfl, rfl⟩

def edit (t : CapabilityTable) (i : Slot) (ed : EntryEdit) : CapabilityTable :=
  { t with
    entries := update t.entries i (ed.apply (t.entries i))
    allocated := fun j => by
      by_cases h : j = i
      · subst h; simpa using t.allocated j
      · simpa [h] using t.allocated j
    numbered := fun j => by
      by_cases h : j = i
      · subst h; simpa using t.numbered j
      · simpa [h] using t.numbered j
    cleared := fun j => by
      by_cases h : j = i
      · subst h
        simp only [update_self, EntryEdit.apply_inUse, EntryEdit.apply_parent]
        intro free
        rw [EntryEdit.apply_firstChild_of_free _ _ free]
        exact t.cleared j free
      · simpa [h] using t.cleared j }

def release (t : CapabilityTable) (i : Slot) : CapabilityTable :=
  { t with
    entries := update t.entries i (t.entries i).freed
    idAllocator := t.idAllocator.free i
    allocated := fun j => by
      by_cases h : j = i
      · subst h; simp [CapabilityEntry.freed]
      · simpa [h] using t.allocated j
    numbered := fun j => by
      by_cases h : j = i
      · subst h; simp [CapabilityEntry.freed]
      · simpa [h] using t.numbered j
    cleared := fun j => by
      by_cases h : j = i
      · subst h; simp [CapabilityEntry.freed]
      · simpa [h] using t.cleared j }

/-- Fill slot `i`, which the allocator has just handed out. -/
def fill (t : CapabilityTable) (i : Slot) (a : BhIdAllocator 64)
    (taken : a.bitmap = update t.idAllocator.bitmap i true) (c : NewCap) :
    CapabilityTable :=
  { t with
    entries := update t.entries i (c.written (t.entries i) i)
    idAllocator := a
    allocated := fun j => by
      rw [taken]
      by_cases h : j = i
      · subst h; simp [NewCap.written]
      · simpa [h] using t.allocated j
    numbered := fun j => by
      by_cases h : j = i
      · subst h; simp [NewCap.written, slotId]
      · simpa [h] using t.numbered j
    cleared := fun j => by
      by_cases h : j = i
      · subst h; simp [NewCap.written]
      · simpa [h] using t.cleared j }

/-- Allocate a slot and write the new capability into it. -/
def install (t : CapabilityTable) (c : NewCap) : Option (Slot × CapabilityTable) :=
  match h : t.idAllocator.alloc with
  | none => none
  | some (i, a) => some (i, t.fill i a (BhIdAllocator.alloc_some h).2 c)

variable {c : NewCap} {i : Slot} {t : CapabilityTable}

theorem install_some {t' : CapabilityTable} (h : t.install c = some (i, t')) :
    (t.entries i).inUse = false ∧ t'.ident = t.ident ∧
      t'.entries = update t.entries i (c.written (t.entries i) i) ∧
      ∃ a, t.idAllocator.alloc = some (i, a) ∧ t'.idAllocator = a := by
  unfold install at h
  split at h
  · cases h
  rename_i j a found
  obtain ⟨rfl, rfl⟩ := h
  exact ⟨by rw [← t.allocated]; exact (BhIdAllocator.alloc_some found).1, rfl, rfl, a, found, rfl⟩

theorem install_none : t.install c = none ↔ t.idAllocator.alloc = none := by
  unfold install
  split
  · rename_i none; simp [none]
  · rename_i found; simp [found]

/-- The first entry in use with this id, as the search loops find it. -/
def findId (t : CapabilityTable) (id : BitVec 32) : Option Slot :=
  (finRange 64).find? fun i => (t.entries i).inUse && (t.entries i).id == id

theorem findId_eq_some {id : BitVec 32} :
    t.findId id = some i ↔ (t.entries i).inUse = true ∧ id = slotId i := by
  constructor
  · intro h
    have found := find?_some h
    simp only [Bool.and_eq_true, beq_iff_eq] at found
    exact ⟨found.1, found.2.symm.trans (t.numbered i found.1)⟩
  · rintro ⟨used, rfl⟩
    cases h : t.findId (slotId i) with
    | none =>
      have := find?_eq_none.mp h i (mem_finRange i)
      simp [used, t.numbered i used] at this
    | some j =>
      have found := find?_some h
      simp only [Bool.and_eq_true, beq_iff_eq] at found
      rw [slotId_inj (found.2.symm.trans (t.numbered j found.1))]

end CapabilityTable

end BharatOS
