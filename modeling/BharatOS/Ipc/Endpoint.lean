import BharatOS.Cap.Types

/-!
# IPC endpoints and their capability references (`endpoint_ipc.c`)

An endpoint counts the capabilities that can send to it and that can receive from it, closes when
the receivers are gone, and is reclaimed when nothing refers to it any more.
-/

namespace BharatOS

/-- A position in one core's part of the endpoint pool. -/
abbrev EndpointSlot := Fin 64

inductive IpcEndpointState where
  | free | ready | closed | revoked | allocating | closing | reclaimed
  deriving DecidableEq, Repr

structure IpcMessage where
  msgLen : BitVec 32
  payload : List (BitVec 8)
  capTransferId : BitVec 32
  capTransferRights : CapRightsMask
  deriving DecidableEq, Repr

structure IpcProvenance where
  senderPid : BitVec 64
  senderProcessObjectId : BitVec 64
  senderCspaceId : BitVec 32
  senderOwnerCore : BitVec 32
  deliveryGeneration : BitVec 64
  capType : CapType
  capRights : CapRightsMask
  hasProvenance : Bool
  bootSessionId : BitVec 64
  serviceIncarnationId : BitVec 64
  replyCapToSend : BitVec 32
  replyCapSendRights : CapRightsMask
  deriving DecidableEq, Repr

def IpcProvenance.zero : IpcProvenance := ⟨0, 0, 0, 0, 0, .none, 0, false, 0, 0, 0, 0⟩

/-- `has_msg`. -/
inductive MsgSlot where
  | empty | queued | claimed
  deriving DecidableEq, Repr

structure IpcEndpoint where
  inUse : Bool
  state : IpcEndpointState
  generation : BitVec 32
  ownerCore : Core
  sendCapRefs : BitVec 32
  recvCapRefs : BitVec 32
  activeClaims : BitVec 32
  queuedMsgs : BitVec 32
  droppedMsgs : BitVec 32
  timeouts : BitVec 32
  msg : IpcMessage
  hasMsg : MsgSlot
  capTransferSource : BhCapLocator
  replyCapTransferId : BitVec 32
  replyCapTransferRights : CapRightsMask
  replyCapTransferSource : BhCapLocator
  provenance : IpcProvenance
  senders : List Nat
  receivers : List Nat
  deriving DecidableEq, Repr

/-- `(bh_cap_locator_t){0}`: null, though not the null locator of the tables. -/
def capLocatorZero : BhCapLocator := ⟨0, 0, 0, 0, 0⟩

namespace IpcEndpoint

/-- The pool before any endpoint was created. -/
def zero : IpcEndpoint :=
  ⟨false, .free, 0, 0, 0, 0, 0, 0, 0, 0, ⟨0, [], 0, 0⟩, .empty, capLocatorZero, 0, 0,
    capLocatorZero, .zero, [], []⟩

/-- `ipc_endpoint_clear_msg_locked`; the payload bytes stay behind. -/
def clearMsgLocked (ep : IpcEndpoint) : IpcEndpoint :=
  { ep with
    msg := { ep.msg with msgLen := 0, capTransferId := 0, capTransferRights := 0 }
    capTransferSource := capLocatorZero
    replyCapTransferId := 0
    replyCapTransferRights := 0
    replyCapTransferSource := capLocatorZero
    provenance := .zero
    hasMsg := .empty }

/-- The step to the next generation, which skips 0. -/
def nextGeneration (generation : BitVec 32) : BitVec 32 :=
  if generation + 1 = 0 then 1 else generation + 1

def tryReclaimLocked (ep : IpcEndpoint) : IpcEndpoint :=
  if ep.inUse = false then ep
  else if ep.state ≠ .closed ∧ ep.state ≠ .closing ∧ ep.state ≠ .revoked then ep
  else if ep.sendCapRefs = 0 ∧ ep.recvCapRefs = 0 ∧ ep.activeClaims = 0 ∧ ep.senders = [] ∧
      ep.receivers = [] then
    { ep.clearMsgLocked with
      state := .free, generation := nextGeneration ep.generation, inUse := false }
  else ep

/-- Empty both wait queues; the last thread dequeued is the first one woken. -/
def drainWaiters (ep : IpcEndpoint) : IpcEndpoint × List Nat :=
  ({ ep with senders := [], receivers := [] }, ep.receivers.reverse ++ ep.senders.reverse)

def acquireSend (ep : IpcEndpoint) : Option IpcEndpoint :=
  if ep.inUse = false ∨ ep.state ≠ .ready then none
  else some { ep with sendCapRefs := ep.sendCapRefs + 1 }

def acquireRecv (ep : IpcEndpoint) : Option IpcEndpoint :=
  if ep.inUse = false ∨ ep.state ≠ .ready then none
  else some { ep with recvCapRefs := ep.recvCapRefs + 1 }

/-- A count goes down by one, but not below zero. -/
def lowerSend (ep : IpcEndpoint) : IpcEndpoint :=
  if 0 < ep.sendCapRefs then { ep with sendCapRefs := ep.sendCapRefs - 1 } else ep

def lowerRecv (ep : IpcEndpoint) : IpcEndpoint :=
  if 0 < ep.recvCapRefs then { ep with recvCapRefs := ep.recvCapRefs - 1 } else ep

def closeUnreferenced (ep : IpcEndpoint) : IpcEndpoint :=
  if ep.sendCapRefs = 0 ∧ ep.recvCapRefs = 0 ∧ ep.state = .ready then { ep with state := .closed }
  else ep

/-- An endpoint closes with its last receive capability, and its waiters are woken. -/
def closeUnreceived (ep : IpcEndpoint) : IpcEndpoint × List Nat :=
  if ep.recvCapRefs = 0 ∧ ep.state = .ready then
    let ep := { ep with state := .closed }
    (if ep.hasMsg = .queued then ep.clearMsgLocked else ep).drainWaiters
  else (ep, [])

def releaseSend (ep : IpcEndpoint) : IpcEndpoint :=
  ep.lowerSend.closeUnreferenced.tryReclaimLocked

def releaseRecv (ep : IpcEndpoint) : IpcEndpoint × List Nat :=
  let closed := ep.lowerRecv.closeUnreceived
  (closed.1.tryReclaimLocked, closed.2)

def ownerClose (ep : IpcEndpoint) : IpcEndpoint × List Nat :=
  if ep.state = .ready ∨ ep.state = .closing then
    let ep := { ep with state := .closing }
    let ep := if ep.hasMsg = .queued then ep.clearMsgLocked else ep
    ({ ep.drainWaiters.1 with state := .closed }.tryReclaimLocked, ep.drainWaiters.2)
  else (ep.tryReclaimLocked, [])

/-- The slot as `ipc_endpoint_create` fills it, before the two capabilities are granted. -/
def opened (ep : IpcEndpoint) (ownerCore : Core) : IpcEndpoint :=
  { { ep with
      inUse := true, state := .ready, generation := nextGeneration ep.generation
      ownerCore := ownerCore, sendCapRefs := 0, recvCapRefs := 0, activeClaims := 0
      queuedMsgs := 0, droppedMsgs := 0, timeouts := 0 }.clearMsgLocked with
    senders := [], receivers := [] }

end IpcEndpoint

/-! ## The pool -/

abbrev EndpointPool := Core → EndpointSlot → IpcEndpoint

def endpointMakeRef (ownerCore : Core) (slot : EndpointSlot) (generation : BitVec 32) : BitVec 64 :=
  (BitVec.ofNat 64 ownerCore &&& 0xFFFF) <<< 48 ||| generation.setWidth 64 <<< 16 |||
    (BitVec.ofNat 64 slot &&& 0xFFFF)

structure EndpointRef where
  core : Nat
  slot : Nat
  generation : BitVec 32
  deriving DecidableEq, Repr

def endpointUnpackRef (ref : BitVec 64) : EndpointRef where
  core := (ref >>> 48 &&& 0xFFFF).toNat
  slot := (ref &&& 0xFFFF).toNat
  generation := (ref >>> 16 &&& 0xFFFFFFFF).setWidth 32

namespace EndpointPool

/-- The endpoint at a position, if it still is the incarnation asked for. -/
def endpointAt (pool : EndpointPool) (r : EndpointRef) : Option (Core × EndpointSlot) :=
  if h : r.core < 32 ∧ r.slot < 64 then
    let ep := pool ⟨r.core, h.1⟩ ⟨r.slot, h.2⟩
    if ep.inUse = false then none
    else if ep.generation ≠ r.generation then none
    else some (⟨r.core, h.1⟩, ⟨r.slot, h.2⟩)
  else none

def endpointByRef (pool : EndpointPool) (ref : BitVec 64) : Option (Core × EndpointSlot) :=
  pool.endpointAt (endpointUnpackRef ref)

def set (pool : EndpointPool) (core : Core) (slot : EndpointSlot) (ep : IpcEndpoint) :
    EndpointPool :=
  Function.update pool core (Function.update (pool core) slot ep)

def acquireSendCap (pool : EndpointPool) (ref : BitVec 64) : EndpointPool × Int :=
  match pool.endpointByRef ref with
  | none => (pool, -1)
  | some (core, slot) =>
    match (pool core slot).acquireSend with
    | none => (pool, -7)
    | some ep => (pool.set core slot ep, 0)

def acquireRecvCap (pool : EndpointPool) (ref : BitVec 64) : EndpointPool × Int :=
  match pool.endpointByRef ref with
  | none => (pool, -1)
  | some (core, slot) =>
    match (pool core slot).acquireRecv with
    | none => (pool, -7)
    | some ep => (pool.set core slot ep, 0)

def releaseSendCap (pool : EndpointPool) (ref : BitVec 64) : EndpointPool × Int :=
  match pool.endpointByRef ref with
  | none => (pool, -1)
  | some (core, slot) => (pool.set core slot (pool core slot).releaseSend, 0)

def releaseRecvCap (pool : EndpointPool) (ref : BitVec 64) : EndpointPool × Int × List Nat :=
  match pool.endpointByRef ref with
  | none => (pool, -1, [])
  | some (core, slot) =>
    (pool.set core slot (pool core slot).releaseRecv.1, 0, (pool core slot).releaseRecv.2)

/-- `cap_endpoint_ref_acquire`: the results of the two calls are thrown away. -/
def capEndpointRefAcquire (pool : EndpointPool) (type : CapType) (objectRef : BitVec 64)
    (rights : CapRightsMask) : EndpointPool :=
  if type ≠ .endpoint then pool
  else
    let pool := if rights &&& capRightEndpointSend ≠ 0 then (pool.acquireSendCap objectRef).1
      else pool
    if rights &&& capRightEndpointReceive ≠ 0 then (pool.acquireRecvCap objectRef).1 else pool

def capEndpointRefRelease (pool : EndpointPool) (type : CapType) (objectRef : BitVec 64)
    (rights : CapRightsMask) : EndpointPool :=
  if type ≠ .endpoint then pool
  else
    let pool := if rights &&& capRightEndpointSend ≠ 0 then (pool.releaseSendCap objectRef).1
      else pool
    if rights &&& capRightEndpointReceive ≠ 0 then (pool.releaseRecvCap objectRef).1 else pool

end EndpointPool

end BharatOS
