import BharatOS.Cap.Table
import Mathlib.Data.Fintype.Prod

/-!
# The CSpace registry

For every core a row of positions, each empty or holding one table. A table pointer is the position
it is registered at, and a registered table is named after its position and the position's
generation.
-/

namespace BharatOS

open Function Option

structure TableRef where
  core : Core
  cspace : CSpaceSlot
  deriving DecidableEq, Repr

/-- One entry of one table. -/
structure CapRef where
  table : TableRef
  slot : Slot
  deriving DecidableEq, Repr

instance : Fintype CapRef :=
  .ofEquiv (Core × CSpaceSlot × Slot)
    ⟨fun x => ⟨⟨x.1, x.2.1⟩, x.2.2⟩, fun c => (c.table.core, c.table.cspace, c.slot),
      fun _ => rfl, fun _ => rfl⟩

theorem card_capRef : Fintype.card CapRef = 32 * 64 * 64 := by
  rw [Fintype.ofEquiv_card]
  simp

def capCspaceIdMake (ownerCore : Core) (slot : CSpaceSlot) (generation : Nat) : BitVec 32 :=
  BitVec.ofNat 32 generation <<< 12 ||| BitVec.ofNat 32 ownerCore <<< 7 |||
    BitVec.ofNat 32 (slot + 1)

def bhCapCspaceGenerationMax : Nat := 2 ^ 20 - 1

theorem capCspaceIdMake_toNat (ownerCore : Core) (slot : CSpaceSlot) {generation : Nat}
    (bound : generation ≤ bhCapCspaceGenerationMax) :
    (capCspaceIdMake ownerCore slot generation).toNat =
      generation * 4096 + (ownerCore * 128 + (slot + 1)) := by
  unfold bhCapCspaceGenerationMax at bound
  have field : ∀ {n m : Nat}, n < 2 ^ m → m ≤ 32 → Packs (BitVec.ofNat 32 n) n m := by
    intro n m small fits
    have := Nat.pow_le_pow_right (by decide : 0 < 2) fits
    exact ⟨by rw [BitVec.toNat_ofNat]; omega, small⟩
  have packed := (field (n := generation) (m := 20) (by omega) (by decide)).cons 12 <|
    (field (m := 5) ownerCore.isLt (by decide)).cons 7 <|
    field (m := 7) (n := slot + 1) (by omega) (by decide)
  rw [capCspaceIdMake, BitVec.or_assoc, packed.toNat]
  rfl

structure BhCapCspaceRegistryEntry where
  table : Option CapabilityTable
  generation : Nat
  usesBootstrapStorage : Bool
  reserved : Bool

structure Registry where
  slots : TableRef → BhCapCspaceRegistryEntry
  bootstrapUsed : Core → Bool
  bounded : ∀ ref, (slots ref).generation ≤ bhCapCspaceGenerationMax
  named : ∀ ref t, (slots ref).table = some t →
    t.ident = (capCspaceIdMake ref.core ref.cspace (slots ref).generation, ref.core, ref.cspace)

namespace Registry

def empty : Registry where
  slots := fun _ => ⟨none, 0, false, false⟩
  bootstrapUsed := fun _ => false
  bounded := fun _ => Nat.zero_le _
  named := fun _ _ h => by cases h

theorem capCspaceIdMake_pos (ref : TableRef) {generation : Nat}
    (bound : generation ≤ bhCapCspaceGenerationMax) :
    capCspaceIdMake ref.core ref.cspace generation ≠ 0 := by
  intro e
  have value := capCspaceIdMake_toNat ref.core ref.cspace bound
  rw [e] at value
  simp at value

variable {ref : TableRef} {R R' : Registry} {locator : BhCapLocator} {c : CapRef}
  {out : Option TableRef} {ref' : TableRef} {t t' : CapabilityTable} {id : BitVec 32} {i : Slot}
  {core : Core} {i : CSpaceSlot}

theorem capCspaceIdMake_inj {g g' : Nat} (bound : g ≤ bhCapCspaceGenerationMax)
    (bound' : g' ≤ bhCapCspaceGenerationMax)
    (h : capCspaceIdMake ref.core ref.cspace g = capCspaceIdMake ref'.core ref'.cspace g') :
    ref = ref' ∧ g = g' := by
  have one := capCspaceIdMake_toNat ref.core ref.cspace bound
  have two := capCspaceIdMake_toNat ref'.core ref'.cspace bound'
  rw [h, two] at one
  obtain ⟨core, cspace⟩ := ref
  obtain ⟨core', cspace'⟩ := ref'
  simp only [TableRef.mk.injEq, Fin.ext_iff] at one ⊢
  omega

def table (R : Registry) (ref : TableRef) : Option CapabilityTable := (R.slots ref).table

/-- The entry at a position; a position without a table reads as a zeroed entry. -/
def entry (R : Registry) (c : CapRef) : CapabilityEntry :=
  match R.table c.table with
  | none => .zero
  | some t => t.entries c.slot

/-- The CSpace id in force at a position. -/
def cspaceId (R : Registry) (ref : TableRef) : Option (BitVec 32) := (R.table ref).map (·.cspaceId)

/-! ## Locators -/

/-- `cap_locator_make` for a slot index that the caller has not bounded. -/
def locatorMake (R : Registry) (ref : TableRef) (slot : Nat) (generation revocationEpoch : BitVec 32) :
    BhCapLocator :=
  match R.table ref with
  | none => capLocatorNull
  | some t => if slot < 64 then ⟨t.cspaceId, t.ownerCore, slot, generation, revocationEpoch⟩
      else capLocatorNull

/-- The registry position that a locator's CSpace id and owner core encode. -/
def position (locator : BhCapLocator) : Option TableRef :=
  if capLocatorIsNull locator then none
  else if core : locator.ownerCore < 32 then
    let encodedSlot := (locator.cspaceId &&& 0x7F).toNat
    if slot : encodedSlot = 0 ∨ encodedSlot > 64 then none
    else some ⟨⟨locator.ownerCore, core⟩, ⟨encodedSlot - 1, by omega⟩⟩
  else none

def capLocatorResolveTable (R : Registry) (locator : BhCapLocator) : Option TableRef :=
  match position locator with
  | none => none
  | some ref =>
    match R.table ref with
    | none => none
    | some t =>
      if t.cspaceId ≠ locator.cspaceId ∨ t.ownerCore ≠ ref.core ∨ t.registrySlot ≠ ref.cspace then
        none
      else some ref

/-- The entry a locator points into, whatever instance lives there now. -/
def locate (R : Registry) (locator : BhCapLocator) : Option CapRef :=
  match R.capLocatorResolveTable locator with
  | none => none
  | some ref => if h : locator.slot < 64 then some ⟨ref, ⟨locator.slot, h⟩⟩ else none

/-- The instance a locator names: the entry is in use and has the locator's generation. -/
def resolve (R : Registry) (locator : BhCapLocator) : Option CapRef :=
  match R.locate locator with
  | none => none
  | some c =>
    if (R.entry c).inUse = true ∧ (R.entry c).generation = locator.generation then some c else none

theorem named_of_table (h : R.table ref = some t) :
    t.cspaceId = capCspaceIdMake ref.core ref.cspace (R.slots ref).generation ∧
      t.ownerCore = ref.core ∧ t.registrySlot = ref.cspace := by
  have := R.named ref t h
  simp only [CapabilityTable.ident, Prod.mk.injEq] at this
  exact this

theorem cspaceId_eq_some : R.cspaceId ref = some id ↔ (R.table ref).isSome = true ∧
      id = capCspaceIdMake ref.core ref.cspace (R.slots ref).generation := by
  unfold cspaceId
  cases h : R.table ref with
  | none => simp
  | some t => simp [(named_of_table h).1, eq_comm]

theorem cspaceId_toNat (h : R.cspaceId ref = some id) :
    id.toNat = (R.slots ref).generation * 4096 + (ref.core * 128 + (ref.cspace + 1)) := by
  rw [(cspaceId_eq_some.mp h).2]
  exact capCspaceIdMake_toNat _ _ (R.bounded ref)

/-- A CSpace id in force says where its table is registered. -/
theorem cspaceId_inj (h : R.cspaceId ref = some id) (h' : R.cspaceId ref' = some id) :
    ref = ref' := by
  have one := cspaceId_toNat h
  have two := cspaceId_toNat h'
  obtain ⟨core, cspace⟩ := ref
  obtain ⟨core', cspace'⟩ := ref'
  simp only [TableRef.mk.injEq, Fin.ext_iff] at one two ⊢
  omega

theorem position_core (h : position locator = some ref) : locator.ownerCore = ref.core := by
  unfold position at h
  split at h
  · cases h
  split at h
  · simp only at h
    split at h
    · cases h
    cases h
    rfl
  · cases h

/-- A locator that carries a table's CSpace id and core encodes the table's position. -/
theorem position_of_cspaceId (id : R.cspaceId ref = some locator.cspaceId)
    (core : locator.ownerCore = ref.core) : position locator = some ref := by
  have value := cspaceId_toNat id
  have notNull : capLocatorIsNull locator = false := by
    simp only [capLocatorIsNull, beq_eq_false_iff_ne, ne_eq]
    intro e
    rw [e] at value
    simp at value
  have low : (locator.cspaceId &&& 0x7F).toNat = ref.cspace + 1 := by
    rw [toNat_and_mask _ _ 7 rfl]
    omega
  have bound : locator.ownerCore < 32 := core ▸ ref.core.isLt
  unfold position
  rw [if_neg (by simp [notNull]), dif_pos bound]
  rw [dif_neg (by omega), some.injEq]
  obtain ⟨c, s⟩ := ref
  simp only [TableRef.mk.injEq, Fin.ext_iff]
  exact ⟨core, by rw [low]; rfl⟩

theorem resolveTable_eq_some : R.capLocatorResolveTable locator = some ref ↔
      R.cspaceId ref = some locator.cspaceId ∧ locator.ownerCore = ref.core := by
  unfold capLocatorResolveTable
  constructor
  · intro h
    split at h
    · cases h
    rename_i position
    split at h
    · cases h
    rename_i found
    split at h
    · cases h
    rename_i agree
    cases h
    simp only [not_or, not_not] at agree
    exact ⟨by rw [cspaceId, found, map_some, agree.1], position_core position⟩
  · rintro ⟨id, core⟩
    rw [position_of_cspaceId id core]
    unfold cspaceId at id
    cases found : R.table ref with
    | none => simp [found] at id
    | some t =>
      have name := named_of_table found
      rw [found, map_some, some.injEq] at id
      simp [found, id, name.2.1, name.2.2]

theorem locate_eq_some : R.locate locator = some c ↔ R.cspaceId c.table = some locator.cspaceId ∧
      locator.ownerCore = c.table.core ∧ locator.slot = c.slot := by
  unfold locate
  cases h : R.capLocatorResolveTable locator with
  | none =>
    simp only [reduceCtorEq, false_iff]
    rintro ⟨id, core, -⟩
    rw [resolveTable_eq_some.mpr ⟨id, core⟩] at h
    cases h
  | some ref =>
    have named := resolveTable_eq_some.mp h
    constructor
    · intro e
      simp only at e
      split at e
      · cases e
        exact ⟨named.1, named.2, rfl⟩
      · cases e
    · rintro ⟨id, core, slot⟩
      obtain rfl := cspaceId_inj named.1 id
      simp only
      rw [dif_pos (slot ▸ c.slot.isLt)]
      obtain ⟨table, i⟩ := c
      simp only [some.injEq, CapRef.mk.injEq, true_and, Fin.ext_iff]
      exact slot

theorem resolve_eq_some : R.resolve locator = some c ↔ R.locate locator = some c ∧
      (R.entry c).inUse = true ∧ (R.entry c).generation = locator.generation := by
  unfold resolve
  cases R.locate locator with
  | none => simp
  | some d =>
    simp only [some.injEq]
    split
    · rename_i live
      exact ⟨fun e => ⟨some.inj e, some.inj e ▸ live⟩, fun e => by rw [e.1]⟩
    · rename_i stale
      exact ⟨fun e => (by cases e), fun e => absurd (e.1 ▸ e.2) stale⟩

theorem locate_null (null : capLocatorIsNull locator = true) : R.locate locator = none := by
  simp [locate, capLocatorResolveTable, position, null]

theorem resolve_lost (lost : R.locate locator = none) : R.resolve locator = none := by
  simp [resolve, lost]

theorem resolve_null (null : capLocatorIsNull locator = true) : R.resolve locator = none :=
  resolve_lost (locate_null null)

theorem resolveTable_congr (h : R'.cspaceId = R.cspaceId) :
    R'.capLocatorResolveTable = R.capLocatorResolveTable := by
  funext l
  apply ext
  intro ref
  rw [resolveTable_eq_some, resolveTable_eq_some, h]

theorem locate_congr (h : R'.cspaceId = R.cspaceId) (l : BhCapLocator) :
    R'.locate l = R.locate l := by
  apply ext
  intro c
  rw [locate_eq_some, locate_eq_some, h]

/-! ## Changing one table -/

theorem registered_of_inUse (h : (R.entry c).inUse = true) : (R.table c.table).isSome = true := by
  unfold entry at h
  cases found : R.table c.table with
  | none => simp [found, CapabilityEntry.zero] at h
  | some t => rfl

theorem entry_of_table (h : R.table c.table = some t) : R.entry c = t.entries c.slot := by
  simp [entry, h]

section

variable (R : Registry) (ref : TableRef) {entry : BhCapCspaceRegistryEntry}

theorem bounded_update (h : entry.generation ≤ bhCapCspaceGenerationMax) :
    ∀ r, (update R.slots ref entry r).generation ≤ bhCapCspaceGenerationMax :=
  (forall_update_iff R.slots fun _ e => e.generation ≤ bhCapCspaceGenerationMax).mpr
    ⟨h, fun r _ => R.bounded r⟩

theorem named_update (h : ∀ t, entry.table = some t →
      t.ident = (capCspaceIdMake ref.core ref.cspace entry.generation, ref.core, ref.cspace)) :
    ∀ r t, (update R.slots ref entry r).table = some t → t.ident =
      (capCspaceIdMake r.core r.cspace (update R.slots ref entry r).generation, r.core, r.cspace) :=
  (forall_update_iff R.slots fun r e => ∀ t, e.table = some t →
    t.ident = (capCspaceIdMake r.core r.cspace e.generation, r.core, r.cspace)).mpr
    ⟨h, fun r _ => R.named r⟩

end

def put (R : Registry) (ref : TableRef) (t t' : CapabilityTable) (old : R.table ref = some t)
    (same : t'.ident = t.ident) : Registry :=
  { R with
    slots := update R.slots ref { R.slots ref with table := some t' }
    bounded := R.bounded_update ref (R.bounded ref)
    named := R.named_update ref fun u new => by
      cases new
      rw [same]
      exact R.named ref t old }

def edit (R : Registry) (c : CapRef) (ed : EntryEdit) : Registry :=
  match h : R.table c.table with
  | none => R
  | some t => R.put c.table t (t.edit c.slot ed) h rfl

def release (R : Registry) (c : CapRef) : Registry :=
  match h : R.table c.table with
  | none => R
  | some t => R.put c.table t (t.release c.slot) h rfl

def install (R : Registry) (ref : TableRef) (cap : NewCap) : Option (Slot × Registry) :=
  match h : R.table ref with
  | none => none
  | some t =>
    match h' : t.install cap with
    | none => none
    | some (i, t') => some (i, R.put ref t t' h (CapabilityTable.install_some h').2.1)

/-- Nothing was created or destroyed between the two. -/
structure SameSpaces (R R' : Registry) : Prop where
  cspaceId : R'.cspaceId = R.cspaceId
  generation : ∀ ref, (R'.slots ref).generation = (R.slots ref).generation

theorem SameSpaces.refl (R : Registry) : SameSpaces R R := ⟨rfl, fun _ => rfl⟩

theorem SameSpaces.trans {R₁ R₂ R₃ : Registry} (h : SameSpaces R₁ R₂) (h' : SameSpaces R₂ R₃) :
    SameSpaces R₁ R₃ :=
  ⟨h'.cspaceId.trans h.cspaceId, fun ref => (h'.generation ref).trans (h.generation ref)⟩

theorem put_sameSpaces (old : R.table ref = some t) (same : t'.ident = t.ident) :
    SameSpaces R (R.put ref t t' old same) := by
  refine ⟨?_, fun r => ?_⟩
  · funext r
    by_cases h : r = ref
    · subst h
      simp only [CapabilityTable.ident, Prod.mk.injEq] at same
      simp [cspaceId, table, put, same.1, show (R.slots r).table = some t from old]
    · simp [cspaceId, table, put, h]
  · by_cases h : r = ref
    · subst h; simp [put]
    · simp [put, h]

theorem put_entry (old : R.table ref = some t) (same : t'.ident = t.ident) {e : CapabilityEntry}
    (change : t'.entries = update t.entries i e) :
    (R.put ref t t' old same).entry = update R.entry ⟨ref, i⟩ e := by
  funext c
  obtain ⟨r, j⟩ := c
  by_cases h : r = ref
  · subst h
    have now : (R.put r t t' old same).entry ⟨r, j⟩ = t'.entries j := by
      simp [entry, table, put]
    rw [now, change]
    by_cases hj : j = i
    · subst hj; simp
    · rw [update_of_ne hj, update_of_ne (by simp [hj]), entry_of_table old]
  · simp [entry, table, put, h]

theorem edit_sameSpaces (R : Registry) (c : CapRef) (ed : EntryEdit) :
    SameSpaces R (R.edit c ed) := by
  unfold edit
  split
  · exact .refl R
  · exact put_sameSpaces _ _

theorem release_sameSpaces (R : Registry) (c : CapRef) : SameSpaces R (R.release c) := by
  unfold release
  split
  · exact .refl R
  · exact put_sameSpaces _ _

theorem edit_entry (ed : EntryEdit) (h : (R.table c.table).isSome = true) :
    (R.edit c ed).entry = update R.entry c (ed.apply (R.entry c)) := by
  obtain ⟨t, found⟩ := isSome_iff_exists.mp h
  unfold edit
  split
  · rename_i none; rw [none] at found; cases found
  rename_i u hu
  rw [entry_of_table hu]
  exact put_entry _ _ rfl

theorem release_entry (h : (R.table c.table).isSome = true) :
    (R.release c).entry = update R.entry c (R.entry c).freed := by
  obtain ⟨t, found⟩ := isSome_iff_exists.mp h
  unfold release
  split
  · rename_i none; rw [none] at found; cases found
  rename_i u hu
  rw [entry_of_table hu]
  exact put_entry _ _ rfl

theorem install_some {cap : NewCap} (h : R.install ref cap = some (i, R')) :
    (R.table ref).isSome = true ∧ (R.entry ⟨ref, i⟩).inUse = false ∧ SameSpaces R R' ∧
      R'.entry = update R.entry ⟨ref, i⟩ (cap.written (R.entry ⟨ref, i⟩) i) := by
  unfold install at h
  split at h
  · cases h
  rename_i t found
  split at h
  · cases h
  rename_i j t' installed
  obtain ⟨rfl, rfl⟩ := h
  obtain ⟨free, same, entries, -⟩ := CapabilityTable.install_some installed
  refine ⟨by simp [found], by rw [entry_of_table found]; exact free, put_sameSpaces _ _, ?_⟩
  rw [entry_of_table found]
  exact put_entry _ _ entries

/-! ## Creating and destroying tables -/

/-- The first position of the core's row that a new table can take. -/
def freePosition (R : Registry) (core : Core) : Option CSpaceSlot :=
  (List.finRange 64).find? fun i =>
    (R.slots ⟨core, i⟩).table.isNone && !(R.slots ⟨core, i⟩).reserved &&
      decide ((R.slots ⟨core, i⟩).generation < bhCapCspaceGenerationMax)

theorem freePosition_some (h : R.freePosition core = some i) :
    R.table ⟨core, i⟩ = none ∧ (R.slots ⟨core, i⟩).generation < bhCapCspaceGenerationMax := by
  have found := List.find?_some h
  simp only [Bool.and_eq_true, isNone_iff_eq_none, decide_eq_true_eq] at found
  exact ⟨found.1.1, found.2⟩

def reserve (R : Registry) (core : Core) : Option (CSpaceSlot × Registry) :=
  match h : R.freePosition core with
  | none => none
  | some i =>
    let entry := R.slots ⟨core, i⟩
    some (i,
      { R with
        slots := update R.slots ⟨core, i⟩
          { entry with reserved := true, generation := entry.generation + 1 }
        bounded := R.bounded_update ⟨core, i⟩ (freePosition_some h).2
        named := R.named_update ⟨core, i⟩ fun u there => by
          have empty : entry.table = none := (freePosition_some h).1
          cases empty.symm.trans there })

def unreserve (R : Registry) (ref : TableRef) : Registry :=
  { R with
    slots := update R.slots ref { R.slots ref with reserved := false }
    bounded := R.bounded_update ref (R.bounded ref)
    named := R.named_update ref (R.named ref) }

def takeBootstrap (R : Registry) (core : Core) : Registry :=
  { R with bootstrapUsed := update R.bootstrapUsed core true }

/-- The table is named after the generation that the reservation left behind. -/
def publish (R : Registry) (ref : TableRef) (bootstrapStorage : Bool) : Registry :=
  { R with
    slots := update R.slots ref
      { table := some (.create (capCspaceIdMake ref.core ref.cspace (R.slots ref).generation)
          ref.core ref.cspace)
        generation := (R.slots ref).generation
        usesBootstrapStorage := bootstrapStorage
        reserved := false }
    bounded := R.bounded_update ref (R.bounded ref)
    named := R.named_update ref fun u new => by
      cases new
      rfl }

/-- `cap_table_create`; `kmalloc` says whether the allocation succeeds. -/
def create (R : Registry) (core : Core) (kmalloc : Bool) : Registry × Option CSpaceSlot :=
  match R.reserve core with
  | none => (R, none)
  | some (slot, reserved) =>
    if kmalloc then (reserved.publish ⟨core, slot⟩ false, some slot)
    else if reserved.bootstrapUsed core then (reserved.unreserve ⟨core, slot⟩, none)
    else ((reserved.takeBootstrap core).publish ⟨core, slot⟩ true, some slot)

/-- The registry part of `cap_table_destroy`. -/
def destroy (R : Registry) (ref : TableRef) : Registry where
  slots := update R.slots ref
    { R.slots ref with table := none, usesBootstrapStorage := false }
  bootstrapUsed :=
    if (R.slots ref).usesBootstrapStorage then update R.bootstrapUsed ref.core false
    else R.bootstrapUsed
  bounded := R.bounded_update ref (R.bounded ref)
  named := R.named_update ref fun _ none => by cases none

theorem destroy_table : (R.destroy ref).table = update R.table ref none := by
  funext r
  by_cases h : r = ref
  · subst h; simp [table, destroy]
  · simp [table, destroy, h]

variable {r : TableRef} {bootstrapStorage : Bool}

theorem destroy_generation : ((R.destroy ref).slots r).generation = (R.slots r).generation := by
  by_cases h : r = ref
  · subst h; simp [destroy]
  · simp [destroy, h]

theorem destroy_cspaceId : (R.destroy ref).cspaceId = update R.cspaceId ref none := by
  funext r
  by_cases h : r = ref
  · subst h; simp [cspaceId, destroy_table]
  · simp [cspaceId, destroy_table, h]

theorem destroy_entry : (R.destroy ref).entry c = if c.table = ref then .zero else R.entry c := by
  unfold entry
  rw [destroy_table]
  by_cases h : c.table = ref
  · simp [h]
  · simp [h]

/-- What creation does to the registry: at most one position changes, it had no
table, and its generation grows. -/
inductive Created (R R' : Registry) : Option TableRef → Prop
  | failed (table : R'.table = R.table)
      (generation : ∀ r, (R.slots r).generation ≤ (R'.slots r).generation) : Created R R' none
  | made (ref : TableRef) (t : CapabilityTable) (vacant : R.table ref = none)
      (table : R'.table = update R.table ref (some t))
      (fresh : t.entries = fun _ => .zero) (allocator : t.idAllocator = .init)
      (newer : (R.slots ref).generation < (R'.slots ref).generation)
      (generation : ∀ r, (R.slots r).generation ≤ (R'.slots r).generation) :
      Created R R' (some ref)

theorem reserve_some (h : R.reserve core = some (i, R')) :
    R.table ⟨core, i⟩ = none ∧ R'.table = R.table ∧
      (R.slots ⟨core, i⟩).generation < (R'.slots ⟨core, i⟩).generation ∧
      ∀ r, (R.slots r).generation ≤ (R'.slots r).generation := by
  unfold reserve at h
  split at h
  · cases h
  rename_i j found
  simp only [some.injEq, Prod.mk.injEq] at h
  obtain ⟨rfl, rfl⟩ := h
  refine ⟨(freePosition_some found).1, ?_, by simp, fun r => ?_⟩
  · funext r
    by_cases hr : r = ⟨core, j⟩
    · subst hr; simp [table]
    · simp [table, hr]
  · by_cases hr : r = ⟨core, j⟩
    · subst hr; simp
    · simp [hr]

theorem reserve_slots (h : R.reserve core = some (i, R')) :
    (R.slots ⟨core, i⟩).table = none ∧ (R.slots ⟨core, i⟩).reserved = false ∧
      R'.slots = update R.slots ⟨core, i⟩ { R.slots ⟨core, i⟩ with
          reserved := true
          generation := (R.slots ⟨core, i⟩).generation + 1 } := by
  unfold reserve at h
  split at h
  · cases h
  rename_i j found
  obtain ⟨rfl, rfl⟩ := h
  have free := List.find?_some found
  simp only [Bool.and_eq_true, isNone_iff_eq_none, Bool.not_eq_true'] at free
  exact ⟨free.1.1, free.1.2, rfl⟩

theorem publish_table :
    (R.publish ref bootstrapStorage).table = update R.table ref
      (some (.create (capCspaceIdMake ref.core ref.cspace (R.slots ref).generation)
        ref.core ref.cspace)) := by
  funext r
  by_cases h : r = ref
  · subst h; simp [table, publish]
  · simp [table, publish, h]

theorem publish_generation :
    ((R.publish ref bootstrapStorage).slots r).generation = (R.slots r).generation := by
  by_cases h : r = ref
  · subst h; simp [publish]
  · simp [publish, h]

theorem create_created (R : Registry) (core : Core) (kmalloc : Bool) :
    Created R (R.create core kmalloc).1 ((R.create core kmalloc).2.map (⟨core, ·⟩)) := by
  unfold create
  cases taken : R.reserve core with
  | none => exact .failed rfl fun _ => le_rfl
  | some pair =>
    obtain ⟨slot, reserved⟩ := pair
    obtain ⟨vacant, same, newer, grows⟩ := reserve_some taken
    have published : ∀ (R' : Registry) (bootstrapStorage : Bool), R'.slots = reserved.slots →
        Created R (R'.publish ⟨core, slot⟩ bootstrapStorage) (some ⟨core, slot⟩) := by
      intro R' bootstrapStorage slots
      refine .made _ (.create (capCspaceIdMake core slot (R'.slots ⟨core, slot⟩).generation)
        core slot) vacant ?_ rfl rfl ?_ fun r => ?_
      · rw [publish_table, show R'.table = R.table from by rw [← same]; unfold table; rw [slots]]
      · rw [publish_generation, slots]; exact newer
      · rw [publish_generation, slots]; exact grows r
    simp only
    split
    · exact published reserved false rfl
    split
    · refine .failed (same ▸ ?_) fun r => ?_
      · funext r
        by_cases h : r = ⟨core, slot⟩
        · subst h; simp [table, unreserve]
        · simp [table, unreserve, h]
      · by_cases h : r = ⟨core, slot⟩
        · subst h; simpa [unreserve] using grows _
        · simpa [unreserve, h] using grows r
    · exact published (reserved.takeBootstrap core) true rfl

/-- A new table reads as the empty position did. -/
theorem Created.entry (h : Created R R' out) : R'.entry = R.entry := by
  funext c
  unfold Registry.entry
  cases h with
  | failed table => rw [table]
  | made ref t vacant table fresh =>
    rw [table]
    by_cases hc : c.table = ref
    · simp [hc, vacant, fresh]
    · simp [hc]

theorem Created.generation (h : Created R R' out) (ref : TableRef) :
    (R.slots ref).generation ≤ (R'.slots ref).generation := by
  cases h with
  | failed _ generation | made _ _ _ _ _ _ _ generation => exact generation ref

/-- A CSpace id in force before is still in force, and a new one has a newer generation. -/
theorem Created.cspaceId (h : Created R R' out) (ref : TableRef) :
    R'.cspaceId ref = R.cspaceId ref ∨
      R.cspaceId ref = none ∧ (R.slots ref).generation < (R'.slots ref).generation := by
  unfold Registry.cspaceId
  cases h with
  | failed table => rw [table]; exact .inl rfl
  | made r t vacant table _ _ newer =>
    rw [table]
    by_cases hr : ref = r
    · subst hr; exact .inr ⟨by simp [vacant], newer⟩
    · exact .inl (by simp [hr])

end Registry

end BharatOS
