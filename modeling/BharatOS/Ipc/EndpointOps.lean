import BharatOS.Cap.Revoke

/-!
# Creating and closing endpoints (`endpoint_ipc.c`)

An endpoint is created together with the two capabilities that refer to it. If
there is no room for the second one, the first one is revoked again.
-/

namespace BharatOS

/-- The first endpoint of the core's part of the pool that is not in use. -/
def EndpointPool.freeSlot (pool : EndpointPool) (core : Core) : Option EndpointSlot :=
  (List.finRange 64).find? fun i => !(pool core i).inUse

/-- How an endpoint that got no capabilities is given up. -/
def IpcEndpoint.discarded (ep : IpcEndpoint) : IpcEndpoint :=
  { ep with inUse := false, state := .free }

/-- How far `ipc_endpoint_create` gets without `cap_table_revoke`: to its result, or
to a send capability that has to be taken back. -/
inductive EndpointCreation where
  | done (result : Except Int (BitVec 32 × BitVec 32))
  | undo (slot : EndpointSlot) (sendCap : BitVec 32)

def EndpointCreation.isDone : EndpointCreation → Bool
  | .done _ => true
  | .undo .. => false

namespace Kernel

def setEndpoint (k : Kernel) (core : Core) (slot : EndpointSlot) (ep : IpcEndpoint) : Kernel :=
  { k with endpoints := k.endpoints.set core slot ep }

def discardEndpoint (k : Kernel) (core : Core) (slot : EndpointSlot) : Kernel :=
  k.setEndpoint core slot (k.endpoints core slot).discarded

def ipcEndpointCreate (k : Kernel) (core : Core) (table : TableRef) : Kernel × EndpointCreation :=
  match k.registry.table table with
  | none => (k, .done (.error (-1)))
  | some t =>
    if t.ownerCore ≠ core then (k, .done (.error (-4)))
    else
      match k.endpoints.freeSlot core with
      | none => (k, .done (.error (-2)))
      | some i =>
        let ep := (k.endpoints core i).opened core
        let objRef := endpointMakeRef core i ep.generation
        match (k.setEndpoint core i ep).capTableGrant core table .endpoint objRef
            (capRightEndpointSend ||| capRightDelegate) with
        | (k₁, .error _) => (k₁.discardEndpoint core i, .done (.error (-2)))
        | (k₁, .ok sendCap) =>
          match k₁.capTableGrant core table .endpoint objRef
              (capRightEndpointReceive ||| capRightDelegate) with
          | (k₂, .error _) => (k₂, .undo i sendCap)
          | (k₂, .ok recvCap) => (k₂, .done (.ok (sendCap, recvCap)))

/-- `ipc_endpoint_create` as a whole. The result of the revocation is thrown away. -/
inductive CreatesEndpoint (k : Kernel) (core : Core) (table : TableRef) :
    Kernel → Except Int (BitVec 32 × BitVec 32) → Prop
  | done {k' : Kernel} {result : Except Int (BitVec 32 × BitVec 32)}
      (created : k.ipcEndpointCreate core table = (k', .done result)) :
      CreatesEndpoint k core table k' result
  | undone {k₁ k₂ : Kernel} {slot : EndpointSlot} {sendCap : BitVec 32} {code : Int}
      (created : k.ipcEndpointCreate core table = (k₁, .undo slot sendCap))
      (revoked : k₁.Revokes core table sendCap k₂ code) :
      CreatesEndpoint k core table (k₂.discardEndpoint core slot) (.error (-2))

theorem createsEndpoint_of_done {k : Kernel} {core : Core} {table : TableRef}
    (done : (k.ipcEndpointCreate core table).2.isDone = true) :
    ∃ result, k.CreatesEndpoint core table (k.ipcEndpointCreate core table).1 result := by
  cases created : k.ipcEndpointCreate core table with
  | mk k' creation =>
    cases creation with
    | done result => exact ⟨result, .done created⟩
    | undo slot sendCap => rw [created] at done; cases done

/-- `ipc_endpoint_owner_close`; also returns the threads it wakes. -/
def ipcEndpointOwnerClose (k : Kernel) (core : Core) (table : TableRef) (capId : BitVec 32) :
    Kernel × Int × List Nat :=
  if (k.registry.table table).isNone ∨ capId = 0 then (k, -1, [])
  else
    match k.registry.capTableLookup table capId .endpoint capRightEndpointReceive with
    | .error _ => (k, -4, [])
    | .ok e =>
      match k.endpoints.endpointByRef e.objectRef with
      | none => (k, -1, [])
      | some (owner, slot) =>
        let ep := k.endpoints owner slot
        if ep.ownerCore ≠ core then (k, -4, [])
        else (k.setEndpoint owner slot ep.ownerClose.1, 0, ep.ownerClose.2)

/-! ## Sequences of whole operations -/

/-- The operations that make, pass on and take away endpoint capabilities. -/
inductive EndpointOp where
  | tableCreate (core : Core) (kmalloc : Bool)
  | tableDestroy (core : Core) (table : TableRef)
  | create (core : Core) (table : TableRef)
  | ownerClose (core : Core) (table : TableRef) (capId : BitVec 32)
  | delegate (core : Core) (src dst : TableRef) (capId : BitVec 32) (rights : CapRightsMask)
  | transfer (core : Core) (locator : BhCapLocator) (destination : TableRef)
      (rights : CapRightsMask)
  | revoke (core : Core) (table : TableRef) (capId : BitVec 32)

/-- One operation after the other; a delegation is one between tables of the core. -/
def Operates (k : Kernel) (op : EndpointOp) (k' : Kernel) : Prop :=
  match op with
  | .tableCreate core kmalloc => k' = (k.capTableCreate core kmalloc).1
  | .tableDestroy core table => k' = (k.capTableDestroy core table).1
  | .create core table => ∃ result, k.CreatesEndpoint core table k' result
  | .ownerClose core table capId => k' = (k.ipcEndpointOwnerClose core table capId).1
  | .delegate core src dst capId rights =>
    dst.core = core ∧ k' = (k.capTableDelegate core src dst capId rights).1
  | .transfer core locator destination rights =>
    k' = (k.bhCapTransferInstall core locator destination rights).1
  | .revoke core table capId => ∃ code, k.Revokes core table capId k' code

end Kernel

end BharatOS
