import BharatOS.Cap.Registry
import BharatOS.Cap.Policy
import BharatOS.Cap.Transaction
import BharatOS.Ipc.Endpoint

/-!
# The shared state

Everything the capability code reads and writes outside its own stack: the
CSpace registry, the transaction table, the endpoint pool and the uRPC channels
that lead to each core.
-/

namespace BharatOS

inductive UrpcChannelState where
  | closed | binding | bound | error
  deriving DecidableEq, Repr

/-- A word on its way to a core, with the core it came from. -/
structure Message where
  source : Core
  raw : BitVec 64
  deriving DecidableEq, Repr

structure Kernel where
  registry : Registry
  txs : TxTable
  endpoints : EndpointPool
  channels : Core → UrpcChannelState
  isBound : Core → Bool
  inbox : Core → List Message
  pmmInitialized : Bool

namespace Kernel

/-- A ring of 256 words is full when it holds 255. -/
def urpcRingCapacity : Nat := 255

/-- A kernel without tables, transactions or endpoints. The cores whose channels
are bound, and whether the page allocator is up, stay as they are. -/
def boot (bound : Core → Bool) (pmmInitialized : Bool) : Kernel where
  registry := .empty
  txs := fun _ _ => .zero
  endpoints := fun _ _ => .zero
  channels := fun c => if bound c then .bound else .closed
  isBound := bound
  inbox := fun _ => []
  pmmInitialized := pmmInitialized

def urpcBootstrapSend (k : Kernel) (source target : Core) (raw : BitVec 64) : Kernel × Int :=
  if k.isBound target = false then (k, -3)
  else if urpcRingCapacity ≤ (k.inbox target).length then (k, -6)
  else ({ k with inbox := Function.update k.inbox target (k.inbox target ++ [⟨source, raw⟩]) }, 0)

variable (k : Kernel) (source target : Core) (raw : BitVec 64)

@[simp] theorem send_registry :
    (k.urpcBootstrapSend source target raw).1.registry = k.registry := by
  unfold urpcBootstrapSend
  split
  · rfl
  · split <;> rfl

@[simp] theorem send_txs : (k.urpcBootstrapSend source target raw).1.txs = k.txs := by
  unfold urpcBootstrapSend
  split
  · rfl
  · split <;> rfl

@[simp] theorem send_endpoints :
    (k.urpcBootstrapSend source target raw).1.endpoints = k.endpoints := by
  unfold urpcBootstrapSend
  split
  · rfl
  · split <;> rfl

/-- A write to one transaction record. -/
def setTx (k : Kernel) (core : Core) (slot : TxSlot) (tx : BhCapTxEntry) : Kernel :=
  { k with txs := k.txs.set core slot tx }

def setTxState (k : Kernel) (core : Core) (slot : TxSlot) (state : BhCapTxState) : Kernel :=
  { k with txs := k.txs.setState core slot state }

/-- `cap_tx_release`. -/
def releaseTx (k : Kernel) (core : Core) (slot : TxSlot) : Kernel :=
  { k with txs := k.txs.capTxRelease core slot }

def edit (k : Kernel) (c : CapRef) (ed : EntryEdit) : Kernel :=
  { k with registry := k.registry.edit c ed }

/-- Free an entry and give back the endpoint references it held. -/
def freeEntry (k : Kernel) (c : CapRef) : Kernel :=
  let e := k.registry.entry c
  { k with
    registry := k.registry.release c
    endpoints := k.endpoints.capEndpointRefRelease e.type e.objectRef e.rights }

@[simp] theorem edit_registry (c : CapRef) (ed : EntryEdit) :
    (k.edit c ed).registry = k.registry.edit c ed := rfl

end Kernel

end BharatOS
