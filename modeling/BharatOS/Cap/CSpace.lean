import BharatOS.Cap.Kernel

/-!
# Operations on capability tables (`cap_cspace.c`)

Every operation takes the core it runs on. A call that fails leaves its reason
as an error code; a call that makes a capability returns the handle of it.
-/

namespace BharatOS

namespace Registry

/-- `e->id | (e->generation << 16)`. -/
def handle (R : Registry) (c : CapRef) : BitVec 32 :=
  capHandle (R.entry c).id (R.entry c).generation

/-- The entry in use whose id a handle carries, as the search loops find it. -/
def findIndex (R : Registry) (ref : TableRef) (capId : BitVec 32) : Option CapRef :=
  match R.table ref with
  | none => none
  | some t => (t.findId (bhCapIndex capId)).map (⟨ref, ·⟩)

/-- The live entry a handle names; a stale or dying one is not found. -/
def findLive (R : Registry) (ref : TableRef) (capId : BitVec 32) : Option CapRef :=
  match R.findIndex ref capId with
  | none => none
  | some c =>
    if !bhCapGenerationMatches (R.entry c).generation (bhCapGeneration capId) then none
    else if (R.entry c).state ≠ .live then none
    else some c

variable {R : Registry} {c : CapRef} {capId : BitVec 32} {ref : TableRef}

theorem findIndex_some (h : R.findIndex ref capId = some c) :
    c.table = ref ∧ (R.entry c).inUse = true ∧ bhCapIndex capId = slotId c.slot := by
  unfold findIndex at h
  cases found : R.table ref with
  | none => simp [found] at h
  | some t =>
    simp only [found, Option.map_eq_some_iff] at h
    obtain ⟨i, hi, rfl⟩ := h
    obtain ⟨used, id⟩ := CapabilityTable.findId_eq_some.mp hi
    exact ⟨rfl, by rw [entry_of_table found]; exact used, id⟩

theorem findLive_some (h : R.findLive ref capId = some c) :
    c.table = ref ∧ (R.entry c).inUse = true := by
  unfold findLive at h
  split at h
  · cases h
  rename_i d found
  split at h
  · cases h
  split at h
  · cases h
  cases h
  exact ⟨(findIndex_some found).1, (findIndex_some found).2.1⟩

def capTableLookup (R : Registry) (ref : TableRef) (capId : BitVec 32) (requiredType : CapType)
    (requiredRights : CapRightsMask) : Except Int CapabilityEntry :=
  if (R.table ref).isNone ∨ capId = 0 then .error (-1)
  else
    match R.findIndex ref capId with
    | none => .error (-4)
    | some c =>
      let e := R.entry c
      if !bhCapGenerationMatches e.generation (bhCapGeneration capId) then .error (-6)
      else if e.state ≠ .live then .error (-7)
      else if requiredType ≠ .none ∧ e.type ≠ requiredType then .error (-2)
      else if e.rights &&& requiredRights ≠ requiredRights then .error (-3)
      else .ok e

def bhCapTransferCapture (R : Registry) (core : Core) (ref : TableRef) (capId : BitVec 32)
    (rights : CapRightsMask) : Except Int BhCapLocator :=
  if (R.table ref).isNone ∨ rights = capRightNone then .error (-1)
  else if ref.core ≠ core then .error (-772)
  else
    match R.findLive ref capId with
    | none => .error (-775)
    | some c =>
      let e := R.entry c
      if e.rights &&& capRightDelegate ≠ 0 ∧ capCanTransfer e.type e.rights rights then
        .ok (R.locatorMake ref c.slot e.generation (e.revocationEpoch.setWidth 32))
      else .error (-775)

/-- What a capability passes on to a child made from it. -/
def childOf (R : Registry) (c : CapRef) (rights : CapRightsMask) : NewCap :=
  let e := R.entry c
  { type := e.type
    rights := rights
    objectRef := e.objectRef
    flags := e.flags
    scopeId := e.scopeId
    parent := R.locatorMake c.table c.slot e.generation (e.revocationEpoch.setWidth 32)
    nextSibling := e.firstChild
    ownerCore := e.ownerCore
    instanceId := { e.instanceId with rightsDigest := rights }
    revocationEpoch := e.revocationEpoch }

/-- The source must still be the instance that a transfer captured. -/
def expectedMatches (R : Registry) (c : CapRef) : Option BhCapLocator → Bool
  | none => true
  | some l => c.slot.val == l.slot && (R.entry c).generation == l.generation &&
      (R.entry c).revocationEpoch == l.revocationEpoch.setWidth 64

end Registry

namespace Kernel

def capTableCreate (k : Kernel) (core : Core) (kmalloc : Bool) : Kernel × Option TableRef :=
  let made := k.registry.create core kmalloc
  ({ k with registry := made.1 }, made.2.map (⟨core, ·⟩))

/-- What tear-down leaves in an entry's memory: only live entries are cleared. -/
def tornDown (e : CapabilityEntry) : CapabilityEntry :=
  if e.inUse ∧ e.state = .live then { e with state := .free, inUse := false } else e

/-- The references given back by one entry of a table that is torn down. -/
def tearDownEntry (t : CapabilityTable) (pool : EndpointPool) (i : Slot) : EndpointPool :=
  let e := t.entries i
  if e.inUse ∧ e.state = .live then pool.capEndpointRefRelease e.type e.objectRef e.rights
  else pool

/-- `cap_table_destroy`; also returns the table's memory as it is when it is freed. -/
def capTableDestroy (k : Kernel) (core : Core) (ref : TableRef) :
    Kernel × Option (Slot → CapabilityEntry) :=
  match k.registry.table ref with
  | none => (k, none)
  | some t =>
    if t.ownerCore ≠ core then (k, none)
    else
      ({ k with
          registry := k.registry.destroy ref
          endpoints := (List.finRange 64).foldl (tearDownEntry t) k.endpoints },
        some fun i => tornDown (t.entries i))

/-- A granted capability has no parent and no sibling. -/
def grantedCap (core : Core) (type : CapType) (objectRef : BitVec 64) (rights : CapRightsMask) :
    NewCap where
  type := type
  rights := rights
  objectRef := objectRef
  flags := 0
  scopeId := 0
  parent := capLocatorNull
  nextSibling := capLocatorNull
  ownerCore := core
  instanceId := ⟨core, objectRef, 0, rights⟩
  revocationEpoch := 0

def capTableGrant (k : Kernel) (core : Core) (ref : TableRef) (type : CapType)
    (objectRef : BitVec 64) (rights : CapRightsMask) : Kernel × Except Int (BitVec 32) :=
  if (k.registry.table ref).isNone ∨ type = .none then (k, .error (-1))
  else if capRightsValid type rights = false ∨ rights = capRightNone then (k, .error (-3))
  else
    match k.registry.install ref (grantedCap core type objectRef rights) with
    | none => (k, .error (-2))
    | some (i, R) =>
      ({ k with
          registry := R
          endpoints := k.endpoints.capEndpointRefAcquire type objectRef rights },
        .ok (R.handle ⟨ref, i⟩))

def capTableDelegateLocal (k : Kernel) (src dst : TableRef) (capId : BitVec 32)
    (delegatedRights : CapRightsMask) (expected : Option BhCapLocator) :
    Kernel × Except Int (BitVec 32) :=
  match k.registry.findLive src capId with
  | none => (k, .error (-51))
  | some c =>
    let e := k.registry.entry c
    if k.registry.expectedMatches c expected = false then (k, .error (-51))
    else if e.rights &&& capRightDelegate = 0 then (k, .error (-52))
    else if e.rights &&& delegatedRights ≠ delegatedRights then (k, .error (-53))
    else if capRightsValid e.type delegatedRights = false then (k, .error (-54))
    else if delegatedRights = capRightNone then (k, .error (-55))
    else
      match k.registry.install dst (k.registry.childOf c delegatedRights) with
      | none => (k, .error (-2))
      | some (j, R) =>
        let d := R.entry ⟨dst, j⟩
        let link := R.locatorMake dst j d.generation (d.revocationEpoch.setWidth 32)
        ({ k with
            registry := R.edit c (.firstChild link)
            endpoints := k.endpoints.capEndpointRefAcquire e.type e.objectRef delegatedRights },
          .ok (R.handle ⟨dst, j⟩))

def bhCapTransferInstall (k : Kernel) (core : Core) (locator : BhCapLocator)
    (destination : TableRef) (rights : CapRightsMask) : Kernel × Except Int (BitVec 32) :=
  if (k.registry.table destination).isNone ∨ rights = capRightNone then (k, .error (-1))
  else if locator.ownerCore ≠ core ∨ destination.core ≠ core then (k, .error (-1032))
  else
    match k.registry.locate locator with
    | none => (k, .error (-775))
    | some source =>
      let capId := BitVec.ofNat 32 (locator.slot + 1) ||| locator.generation <<< 16
      match k.capTableDelegateLocal source.table destination capId rights (some locator) with
      | (k', .ok capId') => (k', .ok capId')
      | (k', .error code) => (k', .error (if code = -2 then -19 else -775))

/-! ## What the calls that make capabilities do -/

theorem grant_cases (k : Kernel) (core : Core) (ref : TableRef) (type : CapType)
    (objectRef : BitVec 64) (rights : CapRightsMask) :
    (∃ code, k.capTableGrant core ref type objectRef rights = (k, .error code)) ∨
    ∃ i R, capRightsValid type rights = true ∧ rights ≠ capRightNone ∧
      k.registry.install ref (grantedCap core type objectRef rights) = some (i, R) ∧
      k.capTableGrant core ref type objectRef rights = ({ k with
            registry := R
            endpoints := k.endpoints.capEndpointRefAcquire type objectRef rights },
          .ok (R.handle ⟨ref, i⟩)) := by
  unfold capTableGrant
  split
  · exact .inl ⟨_, rfl⟩
  split
  · exact .inl ⟨_, rfl⟩
  rename_i allowed
  simp only [not_or, Bool.not_eq_false] at allowed
  cases installed : k.registry.install ref (grantedCap core type objectRef rights) with
  | none => exact .inl ⟨_, rfl⟩
  | some made => exact .inr ⟨made.1, made.2, allowed.1, allowed.2, rfl, rfl⟩

/-- A local delegation that succeeds fills a slot of the destination with a child
of the source and links it; one that fails changes nothing. -/
theorem delegateLocal_cases (k : Kernel) (src dst : TableRef) (capId : BitVec 32)
    (rights : CapRightsMask) (expected : Option BhCapLocator) :
    (∃ code, k.capTableDelegateLocal src dst capId rights expected = (k, .error code)) ∨
    ∃ c j R, k.registry.findLive src capId = some c ∧ k.registry.expectedMatches c expected = true ∧
      (k.registry.entry c).rights &&& capRightDelegate ≠ 0 ∧
      (k.registry.entry c).rights &&& rights = rights ∧
      capRightsValid (k.registry.entry c).type rights = true ∧ rights ≠ capRightNone ∧
      k.registry.install dst (k.registry.childOf c rights) = some (j, R) ∧
      k.capTableDelegateLocal src dst capId rights expected = ({ k with
            registry := R.edit c (.firstChild (R.locatorMake dst j (R.entry ⟨dst, j⟩).generation
              ((R.entry ⟨dst, j⟩).revocationEpoch.setWidth 32)))
            endpoints := k.endpoints.capEndpointRefAcquire (k.registry.entry c).type
              (k.registry.entry c).objectRef rights }, .ok (R.handle ⟨dst, j⟩)) := by
  unfold capTableDelegateLocal
  cases found : k.registry.findLive src capId with
  | none => exact .inl ⟨_, rfl⟩
  | some c =>
    simp only
    split
    · exact .inl ⟨_, rfl⟩
    rename_i expect
    split
    · exact .inl ⟨_, rfl⟩
    rename_i may
    split
    · exact .inl ⟨_, rfl⟩
    rename_i subset
    split
    · exact .inl ⟨_, rfl⟩
    rename_i valid
    split
    · exact .inl ⟨_, rfl⟩
    rename_i nonempty
    cases installed : k.registry.install dst (k.registry.childOf c rights) with
    | none => exact .inl ⟨_, rfl⟩
    | some made =>
      obtain ⟨j, R⟩ := made
      exact .inr ⟨c, j, R, rfl, by simpa using expect, may, by simpa using subset,
        by simpa using valid, nonempty, installed, rfl⟩

/-- A transfer is a local delegation from the instance it captured, or nothing. -/
theorem transferInstall_cases (k : Kernel) (core : Core) (locator : BhCapLocator)
    (destination : TableRef) (rights : CapRightsMask) :
    (∃ code, k.bhCapTransferInstall core locator destination rights = (k, .error code)) ∨
    ∃ source capId, k.registry.locate locator = some source ∧
      k.bhCapTransferInstall core locator destination rights =
        k.capTableDelegateLocal source.table destination capId rights (some locator) := by
  unfold bhCapTransferInstall
  split
  · exact .inl ⟨_, rfl⟩
  split
  · exact .inl ⟨_, rfl⟩
  cases place : k.registry.locate locator with
  | none => exact .inl ⟨_, rfl⟩
  | some source =>
    simp only
    generalize BitVec.ofNat 32 (locator.slot + 1) ||| locator.generation <<< 16 = capId
    rcases k.delegateLocal_cases source.table destination capId rights (some locator) with
      ⟨code, failed⟩ | ⟨_, _, _, _, _, _, _, _, _, _, done⟩
    · rw [failed]
      exact .inl ⟨_, rfl⟩
    · refine .inr ⟨source, capId, rfl, ?_⟩
      rw [done]

end Kernel

end BharatOS
