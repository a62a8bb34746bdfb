import BharatOS.Cap.CSpace

/-!
# Requests from other cores, validation and pins (`cap_dispatch.c`)
-/

namespace BharatOS

/-- A request that names a record of the transaction table. -/
structure TxRequest where
  origin : Core
  slot : TxSlot
  generation : BitVec 32
  op : BitVec 8
  deriving DecidableEq, Repr

/-- Where an acknowledgement goes and what it repeats. -/
structure TxReply where
  request : TxRequest
  source : Core
  deriving DecidableEq, Repr

def TxRequest.ofPayload (payload : BitVec 64) : Option TxRequest :=
  let req := capTxUnpackReq payload
  if h : req.originCore.toNat < 32 ∧ req.slot.toNat < 16 then
    some ⟨⟨req.originCore.toNat, h.1⟩, ⟨req.slot.toNat, h.2⟩, req.generation, req.op⟩
  else none

namespace Kernel

/-- The transaction record that a request names. -/
def txOf (k : Kernel) (req : TxRequest) : BhCapTxEntry := k.txs req.origin req.slot

/-- Requests and acknowledgements for another generation, or for a record that is
neither published nor aborted, are dropped. -/
def txAccepts (tx : BhCapTxEntry) (generation : BitVec 32) : Bool :=
  tx.generation == generation && (tx.state == .published || tx.state == .aborted)

def sendAck (k : Kernel) (core : Core) (reply : TxReply) (type : UrpcMsgType) (status : BitVec 8) :
    Kernel :=
  (k.urpcBootstrapSend core reply.source (urpcPackMsg type
    (capTxPackAck (BitVec.ofNat 8 reply.request.origin) (BitVec.ofNat 8 reply.request.slot)
      reply.request.generation (BitVec.ofNat 8 core) status))).1

/-! ## The four requests -/

/-- The destination of a delegation, or the status that refuses it. -/
def delegateDestination (k : Kernel) (core : Core) (req : TxRequest) : Except (BitVec 8) TableRef :=
  let dst := (k.txOf req).dst
  match k.registry.capLocatorResolveTable dst with
  | none => .error (-1)
  | some ref => if dst.ownerCore ≠ core ∨ ref.core ≠ core then .error (-2) else .ok ref

/-- The capability that a transaction record describes. -/
def txNewCap (tx : BhCapTxEntry) : NewCap where
  type := tx.type
  rights := tx.requestedRights
  objectRef := tx.objectRef
  flags := tx.flags
  scopeId := 0
  parent := tx.src
  nextSibling := tx.srcFirstChild
  ownerCore := tx.ownerCore
  instanceId := tx.instanceId
  revocationEpoch := tx.revocationEpoch

/-- The section under the destination table's lock: install what was read, and note in the
record where. -/
def installRead (k : Kernel) (req : TxRequest) (dst : TableRef) (read : BhCapTxEntry) :
    Option Kernel :=
  (k.registry.install dst (txNewCap read)).map fun (i, R) =>
    { k with
      registry := R
      txs := k.txs.set req.origin req.slot
        { k.txOf req with
          remoteCapId := slotId i
          remoteDstSlot := BitVec.ofNat 32 i
          remoteDstGen := (R.entry ⟨dst, i⟩).generation } }

/-- The reference to the endpoint, taken after the table's lock was released. -/
def acquireRead (k : Kernel) (read : BhCapTxEntry) : Kernel :=
  { k with
    endpoints := k.endpoints.capEndpointRefAcquire read.type read.objectRef read.requestedRights }

/-- An installation with no other core in between, and the status it acknowledges. -/
def delegateInstall (k : Kernel) (req : TxRequest) (dst : TableRef) : Kernel × BitVec 8 :=
  match k.installRead req dst (k.txOf req) with
  | none => (k, -2)
  | some k' => (k'.acquireRead (k.txOf req), 0)

/-- The entry that a rollback takes back, if it is still the one installed. -/
def rollbackEntry (k : Kernel) (dst : TableRef) (slot generation : BitVec 32) : Option CapRef :=
  if h : slot.toNat < 64 then
    let e := k.registry.entry ⟨dst, ⟨slot.toNat, h⟩⟩
    if e.inUse ∧ e.generation = generation then some ⟨dst, ⟨slot.toNat, h⟩⟩ else none
  else none

/-- A rollback with no other core in between. -/
def rollback (k : Kernel) (req : TxRequest) : Kernel :=
  let tx := k.txOf req
  if tx.remoteDstSlot = noRemoteSlot then k
  else
    match k.registry.capLocatorResolveTable tx.dst with
    | none => k
    | some dst =>
      match k.rollbackEntry dst tx.remoteDstSlot tx.remoteDstGen with
      | none => k
      | some c => k.freeEntry c

/-- What the revoke handlers take from the record before they lock any table. -/
structure RevokeNotice where
  origin : Core
  slot : Nat
  generation : BitVec 32
  revocationEpoch : BitVec 32
  deriving DecidableEq, Repr

def revokeNotice (k : Kernel) (req : TxRequest) : RevokeNotice :=
  let tx := k.txOf req
  ⟨req.origin, tx.target.slot, tx.target.generation, tx.revocationEpoch.setWidth 32⟩

/-- The handlers' test for a child of the revoked capability. -/
def isDescendant (notice : RevokeNotice) (e : CapabilityEntry) : Bool :=
  e.parent.ownerCore == notice.origin.val && e.parent.slot == notice.slot &&
    e.parent.generation == notice.generation &&
    decide (e.parent.revocationEpoch ≤ notice.revocationEpoch)

def prepares (notice : RevokeNotice) (e : CapabilityEntry) : Bool :=
  e.inUse && e.state == .live && isDescendant notice e

def commits (notice : RevokeNotice) (e : CapabilityEntry) : Bool :=
  e.inUse && (e.state == .live || e.state == .revoking) && isDescendant notice e

def prepareEntry (notice : RevokeNotice) (k : Kernel) (c : CapRef) : Kernel :=
  if prepares notice (k.registry.entry c) then k.edit c (.state .revoking) else k

def commitEntry (notice : RevokeNotice) (k : Kernel) (c : CapRef) : Kernel :=
  if commits notice (k.registry.entry c) then k.freeEntry c else k

def tableEntries (ref : TableRef) : List CapRef := (List.finRange 64).map (⟨ref, ·⟩)

/-- The entries of a core in the order of the scan: table by table, slot by slot. A
position without a table has no entry in use, so nothing happens there. -/
def coreEntries (core : Core) : List CapRef :=
  (List.finRange 64).flatMap fun cspace => tableEntries ⟨core, cspace⟩

def revokePrepare (k : Kernel) (core : Core) (notice : RevokeNotice) : Kernel :=
  (coreEntries core).foldl (prepareEntry notice) k

def revokeCommit (k : Kernel) (core : Core) (notice : RevokeNotice) : Kernel :=
  (coreEntries core).foldl (commitEntry notice) k

/-- `cap_handle_tx_req` on `core`. -/
def capHandleTxReq (k : Kernel) (core : Core) (payload : BitVec 64) (source : Core) : Kernel :=
  match TxRequest.ofPayload payload with
  | none => k
  | some req =>
    let reply : TxReply := ⟨req, source⟩
    if txAccepts (k.txOf req) req.generation = false then k
    else if req.op = BhCapTxOp.delegate.code then
      match k.delegateDestination core req with
      | .error status => k.sendAck core reply .capDelegateAck status
      | .ok dst =>
        let done := k.delegateInstall req dst
        done.1.sendAck core reply .capDelegateAck done.2
    else if req.op = BhCapTxOp.rollback.code then
      (k.rollback req).sendAck core reply .capRevokeAck 0
    else if req.op = BhCapTxOp.revokePrepare.code then
      (k.revokePrepare core (k.revokeNotice req)).sendAck core reply .capRevokeAck 0
    else if req.op = BhCapTxOp.revoke.code ∨ req.op = BhCapTxOp.revokeCommit.code then
      (k.revokeCommit core (k.revokeNotice req)).sendAck core reply .capRevokeAck 0
    else k

/-- `cap_handle_tx_ack` on `core`. -/
def capHandleTxAck (k : Kernel) (core : Core) (payload : BitVec 64) : Kernel :=
  let ack := capTxUnpackAck payload
  if h : ack.slot.toNat < 16 then
    if ack.originCore.toNat ≠ core ∨ 32 ≤ ack.responderCore.toNat then k
    else
      let slot : TxSlot := ⟨ack.slot.toNat, h⟩
      let tx := k.txs core slot
      let bit := 1#32 <<< ack.responderCore.toNat
      if txAccepts tx ack.generation = false then k
      else if tx.targetMask &&& bit = 0 then k
      else if tx.ackMask &&& bit ≠ 0 then k
      else
        k.setTx core slot
          { tx with
            ackMask := tx.ackMask ||| bit
            result := if ack.status ≠ 0 ∧ tx.result = 0 then ack.status.toInt else tx.result }
  else k

/-- The dispatch loop's step for one received word. -/
def dispatch (k : Kernel) (core : Core) (message : Message) : Kernel :=
  let msg := urpcUnpackMsg message.raw
  if msg.type = UrpcMsgType.capDelegateReq.code then
    k.capHandleTxReq core msg.payload message.source
  else if msg.type = UrpcMsgType.capDelegateAck.code then k.capHandleTxAck core msg.payload
  else if msg.type = UrpcMsgType.capRevoke.code then
    k.capHandleTxReq core msg.payload message.source
  else if msg.type = UrpcMsgType.capRevokeAck.code then k.capHandleTxAck core msg.payload
  else k

end Kernel

/-! ## Validation and pins -/

structure CapValidationRequest where
  capId : BitVec 32
  expectedObjectType : CapType
  requiredRights : CapRightsMask
  requesterPid : BitVec 64
  expectedGeneration : BitVec 64
  deriving DecidableEq, Repr

namespace Registry

/-- The checks that `cap_validate_ex` and `cap_validate_and_pin` share, in their order. -/
def validate (R : Registry) (ref : TableRef) (req : CapValidationRequest) : Except Int CapRef :=
  match R.table ref with
  | none => .error (-1)
  | some t =>
    match R.findIndex ref req.capId with
    | none => .error (-3)
    | some c =>
      let e := R.entry c
      if bhCapGenerationMatches e.generation (bhCapGeneration req.capId) = false then .error (-775)
      else if req.expectedGeneration ≠ 0 ∧ req.expectedGeneration.setWidth 32 ≠ e.generation then
        .error (-775)
      else if e.state ≠ .live then .error (-770)
      else if req.expectedObjectType ≠ .none ∧ e.type ≠ req.expectedObjectType then .error (-769)
      else if e.rights &&& req.requiredRights ≠ req.requiredRights then .error (-771)
      else if req.requesterPid ≠ 0 ∧ t.ownerPid ≠ 0 ∧ t.ownerPid ≠ req.requesterPid then
        .error (-771)
      else .ok c

def capValidateEx (R : Registry) (ref : TableRef) (req : CapValidationRequest) :
    Except Int CapabilityEntry :=
  (R.validate ref req).map R.entry

end Registry

namespace Kernel

def capValidateAndPin (k : Kernel) (ref : TableRef) (req : CapValidationRequest) :
    Kernel × Except Int (CapabilityEntry × Slot) :=
  match k.registry.validate ref req with
  | .error code => (k, .error code)
  | .ok c => (k.edit c .pin, .ok (EntryEdit.pin.apply (k.registry.entry c), c.slot))

/-- `cap_unpin` trusts the slot number it is given. -/
def capUnpin (k : Kernel) (ref : TableRef) (pinnedSlot : Nat) : Kernel :=
  if h : pinnedSlot < 64 then
    let c : CapRef := ⟨ref, ⟨pinnedSlot, h⟩⟩
    if (k.registry.entry c).inUse ∧ 0 < (k.registry.entry c).activePins then k.edit c .unpin else k
  else k

end Kernel

end BharatOS
