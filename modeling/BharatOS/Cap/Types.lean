import Mathlib.Data.BitVec

/-!
# Capability data

The data of `capability.h`: types, rights, states, locators and entries. Words
keep the width the kernel gives them; a core, a CSpace slot and an entry slot
are indices below their array bound.
-/

namespace BharatOS

/-- `MAX_CPUS` cores. -/
abbrev Core := Fin 32

/-- A position in one core's row of the CSpace registry. -/
abbrev CSpaceSlot := Fin 64

/-- A position in a capability table. -/
abbrev Slot := Fin 64

instance core_neZero : NeZero 32 := ⟨by decide⟩
instance slot_neZero : NeZero 64 := ⟨by decide⟩

inductive CapType where
  | none | endpoint | memory | sched | process | cryptoEndpoint | cryptoDevice | cryptoKey
  | rng | sealer | netdev | netQueue | netBuffer | importedProxy | accelDevice | accelQueue
  | accelBuffer | accelTelemetry | accelAdmin | dmaDomain | dmaGrant | thread | hmem
  | bootstrap | vmSpace
  deriving DecidableEq, Repr

abbrev CapRightsMask := BitVec 64

/-- `UINT64_C(1) << bit`. -/
def capRight (bit : Nat) : CapRightsMask := 1#64 <<< bit

def capRightNone : CapRightsMask := 0
def capRightEndpointSend := capRight 0
def capRightEndpointReceive := capRight 1
def capRightMemoryMap := capRight 2
def capRightMemoryUnmap := capRight 3
def capRightMemoryShare := capRight 4
def capRightDmaMap := capRight 5
def capRightSchedule := capRight 6
def capRightDelegate := capRight 7
def capRightCryptUse := capRight 8
def capRightCryptDerive := capRight 9
def capRightCryptSign := capRight 10
def capRightCryptDecrypt := capRight 11
def capRightCryptExportWrapped := capRight 12
def capRightCryptAdmin := capRight 13
def capRightEnqueue := capRight 18
def capRightCancel := capRight 19
def capRightQuery := capRight 20
def capRightBind := capRight 21
def capRightSyncCpu := capRight 22
def capRightSyncDev := capRight 23
def capRightReadStats := capRight 24
def capRightReadFaults := capRight 25
def capRightReset := capRight 26
def capRightPartition := capRight 27
def capRightFwLoad := capRight 28
def capRightVmmManage := capRight 34
def capRightProcessManage := capRight 36
def capRightResourceAlloc := capRight 37
def capRightHmemCreate := capRight 38
def capRightHmemMapCpu := capRight 39
def capRightHmemMapDevice := capRight 40
def capRightHmemPin := capRight 41
def capRightHmemShare := capRight 42
def capRightHmemMigrate := capRight 43
def capRightHmemQuery := capRight 44
def capRightHmemDestroy := capRight 45
def capRightAccelSubmit := capRight 46
def capRightDeviceDma := capRight 47
def capRightBootstrapLaunch := capRight 48
def capRightBootstrapBind := capRight 49

inductive CapState where
  | free | live | revoking | revoked | quarantined
  deriving DecidableEq, Repr

/-- `bh_cap_locator_t`: a pointer-free name of one capability instance. -/
structure BhCapLocator where
  cspaceId : BitVec 32
  ownerCore : Nat
  slot : Nat
  generation : BitVec 32
  revocationEpoch : BitVec 32
  deriving DecidableEq, Repr

def capLocatorNull : BhCapLocator := ⟨0, 0xFFFF, 0xFFFF, 0, 0⟩

def capLocatorIsNull (locator : BhCapLocator) : Bool := locator.cspaceId == 0

@[simp] theorem capLocatorNull_isNull : capLocatorIsNull capLocatorNull = true := rfl

structure CapInstanceId where
  originCore : Core
  objectId : BitVec 64
  slotGen : BitVec 32
  rightsDigest : CapRightsMask
  deriving DecidableEq, Repr

structure CapabilityEntry where
  inUse : Bool
  state : CapState
  id : BitVec 32
  type : CapType
  rights : CapRightsMask
  flags : BitVec 32
  objectRef : BitVec 64
  parent : BhCapLocator
  firstChild : BhCapLocator
  nextSibling : BhCapLocator
  generation : BitVec 32
  ownerCore : Core
  activePins : BitVec 32
  scopeId : BitVec 32
  instanceId : CapInstanceId
  revocationEpoch : BitVec 64
  deriving DecidableEq, Repr

namespace CapabilityEntry

/-- The entry of a new table: zeroed, with null links. -/
def zero : CapabilityEntry where
  inUse := false
  state := .free
  id := 0
  type := .none
  rights := 0
  flags := 0
  objectRef := 0
  parent := capLocatorNull
  firstChild := capLocatorNull
  nextSibling := capLocatorNull
  generation := 0
  ownerCore := 0
  activePins := 0
  scopeId := 0
  instanceId := ⟨0, 0, 0, 0⟩
  revocationEpoch := 0

/-- The block that frees an entry: revocation, rollback and the remote revoke
handler all contain it. The id, the type and the instance id stay behind. -/
def freed (e : CapabilityEntry) : CapabilityEntry :=
  { e with
    rights := 0, flags := 0, objectRef := 0, activePins := 0, scopeId := 0
    parent := capLocatorNull, firstChild := capLocatorNull, nextSibling := capLocatorNull
    generation := e.generation + 1, state := .free, inUse := false }

end CapabilityEntry

/-- What a path that fills a free slot decides about the new capability. -/
structure NewCap where
  type : CapType
  rights : CapRightsMask
  objectRef : BitVec 64
  flags : BitVec 32
  scopeId : BitVec 32
  parent : BhCapLocator
  nextSibling : BhCapLocator
  ownerCore : Core
  instanceId : CapInstanceId
  revocationEpoch : BitVec 64

/-- The entry written into the slot: live, unpinned, childless, with the slot's
generation moved on by one and noted in the instance id. -/
def NewCap.written (c : NewCap) (old : CapabilityEntry) (slot : Slot) : CapabilityEntry where
  inUse := true
  state := .live
  id := BitVec.ofNat 32 (slot + 1)
  type := c.type
  rights := c.rights
  flags := c.flags
  objectRef := c.objectRef
  parent := c.parent
  firstChild := capLocatorNull
  nextSibling := c.nextSibling
  generation := old.generation + 1
  ownerCore := c.ownerCore
  activePins := 0
  scopeId := c.scopeId
  instanceId := { c.instanceId with slotGen := old.generation + 1 }
  revocationEpoch := c.revocationEpoch

/-- The writes the code makes to an entry that stays where it is. -/
inductive EntryEdit where
  | state (s : CapState)
  | firstChild (l : BhCapLocator)
  | nextSibling (l : BhCapLocator)
  | bumpEpoch
  | pin
  | unpin

/-- The child link is only ever written after a check that the entry is in use. -/
def EntryEdit.apply : EntryEdit → CapabilityEntry → CapabilityEntry
  | .state s, e => { e with state := s }
  | .firstChild l, e => if e.inUse then { e with firstChild := l } else e
  | .nextSibling l, e => { e with nextSibling := l }
  | .bumpEpoch, e => { e with revocationEpoch := e.revocationEpoch + 1 }
  | .pin, e => { e with activePins := e.activePins + 1 }
  | .unpin, e => { e with activePins := e.activePins - 1 }

namespace EntryEdit

/-- The write leaves the pin count alone. -/
def quiet : EntryEdit → Bool
  | .pin | .unpin => false
  | _ => true

variable (ed : EntryEdit) (e : CapabilityEntry)

@[simp] theorem apply_inUse : (ed.apply e).inUse = e.inUse := by
  cases ed <;> simp only [apply]
  split <;> rfl

@[simp] theorem apply_id : (ed.apply e).id = e.id := by
  cases ed <;> simp only [apply]
  split <;> rfl

@[simp] theorem apply_type : (ed.apply e).type = e.type := by
  cases ed <;> simp only [apply]
  split <;> rfl

@[simp] theorem apply_rights : (ed.apply e).rights = e.rights := by
  cases ed <;> simp only [apply]
  split <;> rfl

@[simp] theorem apply_objectRef : (ed.apply e).objectRef = e.objectRef := by
  cases ed <;> simp only [apply]
  split <;> rfl

@[simp] theorem apply_parent : (ed.apply e).parent = e.parent := by
  cases ed <;> simp only [apply]
  split <;> rfl

@[simp] theorem apply_generation : (ed.apply e).generation = e.generation := by
  cases ed <;> simp only [apply]
  split <;> rfl

theorem apply_activePins (quiet : ed.quiet = true) : (ed.apply e).activePins = e.activePins := by
  cases ed with
  | firstChild l => simp only [apply]; split <;> rfl
  | pin | unpin => cases quiet
  | _ => rfl

theorem apply_firstChild_of_free (free : e.inUse = false) :
    (ed.apply e).firstChild = e.firstChild := by
  cases ed <;> simp [apply, free]

end EntryEdit

end BharatOS
