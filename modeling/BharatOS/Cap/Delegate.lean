import BharatOS.Cap.CSpace
import BharatOS.Lib.Sections

/-!
# Delegation to another core

`cap_table_delegate` for a destination that another core owns, as a sequence of lock sections and
accesses to the shared transaction record.
-/

namespace BharatOS

/-- The locals of a remote delegation after the source was checked. A table
pointer is a position together with the CSpace id found there. -/
structure DelegateFrame where
  core : Core
  src : TableRef
  srcId : BitVec 32
  dst : TableRef
  dstId : BitVec 32
  capId : BitVec 32
  srcSlot : Slot
  tx : TxSlot
  deriving DecidableEq, Repr

namespace DelegateFrame

def source (f : DelegateFrame) : CapRef := ⟨f.src, f.srcSlot⟩

end DelegateFrame

inductive DelegatePc where
  | publish
  | send
  | sendFailed
  | await
  | timedOut
  | result
  | refused (code : Int)
  | commit
  | sendRollback (code : Int)
  | release (outcome : Except Int (BitVec 32))

structure DelegateCall where
  frame : DelegateFrame
  pc : DelegatePc

namespace Kernel

/-- The record filled in under the source table's lock. -/
def snapshot (k : Kernel) (tx : BhCapTxEntry) (c : CapRef) (dst : TableRef)
    (delegatedRights : CapRightsMask) : BhCapTxEntry :=
  let e := k.registry.entry c
  { tx with
    src := k.registry.locatorMake c.table c.slot e.generation (e.revocationEpoch.setWidth 32)
    dst := k.registry.locatorMake dst 0 0 0
    type := e.type
    requestedRights := delegatedRights
    objectRef := e.objectRef
    flags := e.flags
    ownerCore := e.ownerCore
    instanceId := { e.instanceId with rightsDigest := delegatedRights }
    revocationEpoch := e.revocationEpoch
    srcFirstChild := e.firstChild
    targetMask := 1#32 <<< dst.core.val
    ackMask := 0
    result := 0
    remoteCapId := 0
    remoteDstSlot := noRemoteSlot
    remoteDstGen := 0 }

/-- What the source must allow before anything is sent. -/
def mayDelegate (e : CapabilityEntry) (delegatedRights : CapRightsMask) : Bool :=
  e.rights &&& capRightDelegate != 0 && e.rights &&& delegatedRights == delegatedRights &&
    capRightsValid e.type delegatedRights && delegatedRights != capRightNone

/-- `cap_table_delegate` up to the end of its first lock section. -/
def capTableDelegate (k : Kernel) (core : Core) (src dst : TableRef) (capId : BitVec 32)
    (delegatedRights : CapRightsMask) : Kernel × (DelegateCall ⊕ Except Int (BitVec 32)) :=
  match k.registry.cspaceId src, k.registry.cspaceId dst with
  | some srcId, some dstId =>
    if capId = 0 then (k, .inr (.error (-1)))
    else if dst.core = core then
      let done := k.capTableDelegateLocal src dst capId delegatedRights none
      (done.1, .inr done.2)
    else if k.channels dst.core ≠ .bound then (k, .inr (.error (-6)))
    else
      match k.registry.findLive src capId with
      | none => (k, .inr (.error (-5)))
      | some c =>
        if mayDelegate (k.registry.entry c) delegatedRights = false then (k, .inr (.error (-5)))
        else
          match k.txs.capTxAlloc core .delegate with
          | none => (k, .inr (.error (-6)))
          | some (slot, txs) =>
            ({ k with txs := txs.set core slot (k.snapshot (txs core slot) c dst delegatedRights) },
              .inl ⟨⟨core, src, srcId, dst, dstId, capId, c.slot, slot⟩, .publish⟩)
  | _, _ => (k, .inr (.error (-1)))

variable {capId : BitVec 32} {core : Core} {dst src : TableRef} {k k' : Kernel}
  {rights : CapRightsMask}

/-- A delegation that goes on after its first section has claimed a record and filled
it in; one that returns at once has failed, or was a local one. -/
theorem delegate_started {call : DelegateCall}
    (h : k.capTableDelegate core src dst capId rights = (k', .inl call)) :
    ∃ srcId dstId, ∃ c : CapRef, ∃ slot, ∃ txs : TxTable, k.registry.cspaceId dst = some dstId ∧
      k' = { k with txs := txs.set core slot (k.snapshot (txs core slot) c dst rights) } ∧
      call = ⟨⟨core, src, srcId, dst, dstId, capId, c.slot, slot⟩, .publish⟩ := by
  unfold capTableDelegate at h
  split at h
  · rename_i srcId dstId _ home
    split at h
    · cases h
    split at h
    · cases h
    split at h
    · cases h
    split at h
    · cases h
    rename_i c _
    split at h
    · cases h
    split at h
    · cases h
    rename_i slot txs _
    obtain ⟨rfl, e⟩ := Prod.mk.inj h
    exact ⟨srcId, dstId, c, slot, txs, home, rfl, (Sum.inl.inj e).symm⟩
  · cases h

theorem delegate_returned {result : Except Int (BitVec 32)}
    (h : k.capTableDelegate core src dst capId rights = (k', .inr result)) :
    (∃ code, result = .error code) ∧ k' = k ∨
      k.capTableDelegateLocal src dst capId rights none = (k', result) := by
  unfold capTableDelegate at h
  split at h
  · split at h
    · cases h; exact .inl ⟨⟨_, rfl⟩, rfl⟩
    split at h
    · obtain ⟨rfl, e⟩ := Prod.mk.inj h
      exact .inr (Prod.ext rfl (Sum.inr.inj e))
    split at h
    · cases h; exact .inl ⟨⟨_, rfl⟩, rfl⟩
    split at h
    · cases h; exact .inl ⟨⟨_, rfl⟩, rfl⟩
    split at h
    · cases h; exact .inl ⟨⟨_, rfl⟩, rfl⟩
    split at h
    · cases h; exact .inl ⟨⟨_, rfl⟩, rfl⟩
    · cases h
  · cases h; exact .inl ⟨⟨_, rfl⟩, rfl⟩

/-- Send a request about transaction `slot` of `core` to `target`. -/
def sendReq (k : Kernel) (core target : Core) (slot : TxSlot) (type : UrpcMsgType)
    (op : BhCapTxOp) : Kernel × Int :=
  k.urpcBootstrapSend core target (urpcPackMsg type
    (capTxPackReq (BitVec.ofNat 8 core) (BitVec.ofNat 8 slot) (k.txs core slot).generation op.code))

/-- Whether every core the transaction waits for has answered. -/
def acknowledged (tx : BhCapTxEntry) : Bool := tx.ackMask &&& tx.targetMask == tx.targetMask

/-- The section that links the new child, if the source is still what it was. -/
def commitDelegation (k : Kernel) (f : DelegateFrame) : Kernel × Except Int (BitVec 32) :=
  let tx := k.txs f.core f.tx
  let e := k.registry.entry f.source
  if e.inUse ∧ e.id = bhCapIndex f.capId ∧ e.generation = tx.src.generation ∧ e.state = .live then
    let link : BhCapLocator :=
      if tx.remoteDstSlot.toNat < 64 then
        ⟨f.dstId, f.dst.core, tx.remoteDstSlot.toNat, tx.remoteDstGen,
          tx.revocationEpoch.setWidth 32⟩
      else capLocatorNull
    ((k.edit f.source (.firstChild link)).setTxState f.core f.tx .committed,
      .ok (tx.remoteCapId ||| tx.remoteDstGen <<< 16))
  else (k.setTxState f.core f.tx .aborted, .error (-7))

end Kernel

namespace DelegateCall

/-- One section of a remote delegation; `expired` is what the deadline check
answers. A source table that is gone leaves the call without memory to go on. -/
def step (expired : Bool) : Sections Kernel DelegateCall (Except Int (BitVec 32)) :=
  fun k call =>
    let f := call.frame
    let tx := k.txs f.core f.tx
    match call.pc with
    | .publish => (k.setTxState f.core f.tx .published, .inl ⟨f, .send⟩)
    | .send =>
      let sent := k.sendReq f.core f.dst.core f.tx .capDelegateReq .delegate
      (sent.1, .inl ⟨f, if sent.2 ≠ 0 then .sendFailed else .await⟩)
    | .sendFailed => (k.setTxState f.core f.tx .aborted, .inl ⟨f, .release (.error (-6))⟩)
    | .await =>
      if Kernel.acknowledged tx then (k, .inl ⟨f, .result⟩)
      else if expired then (k, .inl ⟨f, .timedOut⟩)
      else (k, .inl call)
    | .timedOut => (k.setTxState f.core f.tx .aborted, .inl ⟨f, .sendRollback (-7)⟩)
    | .result =>
      if tx.result ≠ 0 then (k, .inl ⟨f, .refused tx.result⟩) else (k, .inl ⟨f, .commit⟩)
    | .refused code => (k.setTxState f.core f.tx .aborted, .inl ⟨f, .release (.error code)⟩)
    | .commit =>
      if k.registry.cspaceId f.src ≠ some f.srcId then (k, .inl call)
      else
        match k.commitDelegation f with
        | (k', .ok capId) => (k', .inl ⟨f, .release (.ok capId)⟩)
        | (k', .error code) => (k', .inl ⟨f, .sendRollback code⟩)
    | .sendRollback code =>
      ((k.sendReq f.core f.dst.core f.tx .capRevoke .rollback).1,
        .inl ⟨f, .release (.error code)⟩)
    | .release outcome => (k.releaseTx f.core f.tx, .inr outcome)

variable {call : DelegateCall} {expired : Bool} {k k' : Kernel}

/-- The locals stay as they are. -/
theorem step_frame {call' : DelegateCall} (h : call.step expired k = (k', .inl call')) :
    call'.frame = call.frame := by
  obtain ⟨f, pc⟩ := call
  cases pc with
  | publish | send | sendFailed | timedOut | refused | sendRollback => cases h; rfl
  | await | commit =>
    simp only [step] at h
    split at h
    · cases h; rfl
    · split at h <;> cases h <;> rfl
  | result =>
    simp only [step] at h
    split at h <;> cases h <;> rfl
  | release => cases h

/-- The last section releases the record and returns what was decided before. -/
theorem step_returns {result : Except Int (BitVec 32)} (h : call.step expired k = (k', .inr result))
    :
    call.pc = .release result ∧ k'.registry = k.registry := by
  obtain ⟨f, pc⟩ := call
  cases pc with
  | publish | send | sendFailed | timedOut | refused | sendRollback => cases h
  | await | commit =>
    simp only [step] at h
    split at h
    · cases h
    · split at h <;> cases h
  | result =>
    simp only [step] at h
    split at h <;> cases h
  | release => cases h; exact ⟨rfl, rfl⟩

/-- Only a commit leads to a return with success. -/
theorem step_succeeds {f : DelegateFrame} {capId : BitVec 32}
    (h : call.step expired k = (k', .inl ⟨f, .release (.ok capId)⟩)) :
    call.frame = f ∧ k.commitDelegation f = (k', .ok capId) := by
  obtain ⟨g, pc⟩ := call
  cases pc with
  | publish | sendFailed | timedOut | refused | sendRollback | release => cases h
  | send =>
    have pc := congrArg DelegateCall.pc (Sum.inl.inj (Prod.mk.inj h).2)
    split at pc <;> cases pc
  | await =>
    simp only [step] at h
    split at h
    · cases h
    · split at h <;> cases h
  | result =>
    simp only [step] at h
    split at h <;> cases h
  | commit =>
    simp only [step] at h
    split at h
    · cases h
    split at h
    · rename_i done
      cases h
      exact ⟨rfl, done⟩
    · cases h

end DelegateCall

end BharatOS
