import BharatOS.Cap.Types
import BharatOS.Lib.BitFields
import Mathlib.Data.List.FinRange

/-!
# Cross-core capability transactions

The record that the origin core publishes and the destination core completes, and the words that
travel between them, packed into the 56 payload bits of a uRPC message.
-/

namespace BharatOS

open BitVec

/-- A position in one core's row of the transaction table. -/
abbrev TxSlot := Fin 16

instance txSlot_neZero : NeZero 16 := ⟨by decide⟩

inductive BhCapTxState where
  | free | prepared | published | committed | aborted
  deriving DecidableEq, Repr

inductive BhCapTxOp where
  | none | delegate | revoke | rollback | revokePrepare | revokeCommit
  deriving DecidableEq, Repr

def BhCapTxOp.code : BhCapTxOp → BitVec 8
  | .none => 0
  | .delegate => 1
  | .revoke => 2
  | .rollback => 3
  | .revokePrepare => 4
  | .revokeCommit => 5

structure BhCapTxEntry where
  state : BhCapTxState
  generation : BitVec 32
  op : BhCapTxOp
  src : BhCapLocator
  dst : BhCapLocator
  target : BhCapLocator
  revocationEpoch : BitVec 64
  type : CapType
  requestedRights : CapRightsMask
  objectRef : BitVec 64
  flags : BitVec 32
  ownerCore : Core
  instanceId : CapInstanceId
  srcFirstChild : BhCapLocator
  targetMask : BitVec 32
  ackMask : BitVec 32
  result : Int
  remoteCapId : BitVec 32
  remoteDstSlot : BitVec 32
  remoteDstGen : BitVec 32
  deriving DecidableEq, Repr

/-- `UINT32_MAX`, the remote slot of a transaction that has installed nothing. -/
def noRemoteSlot : BitVec 32 := 0xFFFFFFFF

namespace BhCapTxEntry

/-- The static table before its first use. -/
def zero : BhCapTxEntry :=
  ⟨.free, 0, .none, ⟨0, 0, 0, 0, 0⟩, ⟨0, 0, 0, 0, 0⟩, ⟨0, 0, 0, 0, 0⟩, 0, .none, 0, 0, 0, 0,
    ⟨0, 0, 0, 0⟩, ⟨0, 0, 0, 0, 0⟩, 0, 0, 0, 0, 0, 0⟩

/-- Records that are free or finished are handed out again. -/
def reusable (tx : BhCapTxEntry) : Bool :=
  tx.state == .free || tx.state == .committed || tx.state == .aborted

/-- The step to the next generation, which skips 0. -/
def bumpGeneration (generation : BitVec 32) : BitVec 32 :=
  if generation + 1 = 0 then 1 else generation + 1

/-- The record as `cap_tx_alloc` leaves it. -/
def prepared (tx : BhCapTxEntry) (originCore : Core) (op : BhCapTxOp) : BhCapTxEntry where
  state := .prepared
  generation := bumpGeneration tx.generation
  op := op
  src := capLocatorNull
  dst := capLocatorNull
  target := capLocatorNull
  revocationEpoch := 0
  type := .none
  requestedRights := 0
  objectRef := 0
  flags := 0
  ownerCore := originCore
  instanceId := ⟨0, 0, 0, 0⟩
  srcFirstChild := capLocatorNull
  targetMask := 0
  ackMask := 0
  result := 0
  remoteCapId := 0
  remoteDstSlot := noRemoteSlot
  remoteDstGen := 0

end BhCapTxEntry

abbrev TxTable := Core → TxSlot → BhCapTxEntry

namespace TxTable

def set (txs : TxTable) (core : Core) (slot : TxSlot) (tx : BhCapTxEntry) : TxTable :=
  Function.update txs core (Function.update (txs core) slot tx)

variable (txs : TxTable) (core : Core) (slot : TxSlot) (tx : BhCapTxEntry)

@[simp] theorem set_self : txs.set core slot tx core slot = tx := by
  simp [set]

theorem set_other {txs : TxTable} {core core' : Core} {slot slot' : TxSlot} (tx : BhCapTxEntry)
    (h : ¬ (core' = core ∧ slot' = slot)) : txs.set core slot tx core' slot' = txs core' slot' := by
  unfold set
  by_cases hc : core' = core
  · subst hc
    have hs : slot' ≠ slot := fun e => h ⟨rfl, e⟩
    simp [hs]
  · simp [hc]

theorem set_set (tx' : BhCapTxEntry) :
    (txs.set core slot tx).set core slot tx' = txs.set core slot tx' := by
  simp [set]

def capTxAlloc (txs : TxTable) (originCore : Core) (op : BhCapTxOp) : Option (TxSlot × TxTable) :=
  match (List.finRange 16).find? fun i => (txs originCore i).reusable with
  | none => none
  | some i => some (i, txs.set originCore i ((txs originCore i).prepared originCore op))

theorem capTxAlloc_some {txs txs' : TxTable} {core : Core} {op : BhCapTxOp} {i : TxSlot}
    (h : txs.capTxAlloc core op = some (i, txs')) :
    (txs core i).reusable = true ∧ txs' = txs.set core i ((txs core i).prepared core op) := by
  unfold capTxAlloc at h
  split at h
  · cases h
  rename_i found
  obtain ⟨rfl, rfl⟩ := h
  exact ⟨by simpa using List.find?_some found, rfl⟩

def setState (txs : TxTable) (core : Core) (slot : TxSlot) (state : BhCapTxState) : TxTable :=
  txs.set core slot { txs core slot with state := state }

def capTxRelease (txs : TxTable) (originCore : Core) (slot : TxSlot) : TxTable :=
  txs.setState originCore slot .free

end TxTable

/-! ## Packed words -/

inductive UrpcMsgType where
  | none | bindReq | bindAck | close | capRevoke | capRevokeAck | tlbInval | tlbInvalAck
  | capDelegateReq | capDelegateAck | iommuInval | iommuInvalAck
  deriving DecidableEq, Repr

def UrpcMsgType.code : UrpcMsgType → BitVec 8
  | .none => 0
  | .bindReq => 1
  | .bindAck => 2
  | .close => 3
  | .capRevoke => 4
  | .capRevokeAck => 5
  | .tlbInval => 6
  | .tlbInvalAck => 7
  | .capDelegateReq => 8
  | .capDelegateAck => 9
  | .iommuInval => 10
  | .iommuInvalAck => 11

def urpcMsgPayloadMask : BitVec 64 := (1#64 <<< 56) - 1

def urpcPackMsg (type : UrpcMsgType) (payload : BitVec 64) : BitVec 64 :=
  (type.code.setWidth 64 &&& 0xFF) <<< 56 ||| (payload &&& urpcMsgPayloadMask)

structure UrpcMsg where
  type : BitVec 8
  payload : BitVec 64
  deriving DecidableEq, Repr

def urpcUnpackMsg (raw : BitVec 64) : UrpcMsg where
  type := (raw >>> 56 &&& 0xFF).setWidth 8
  payload := raw &&& urpcMsgPayloadMask

structure TxReq where
  originCore : BitVec 8
  slot : BitVec 8
  generation : BitVec 32
  op : BitVec 8
  deriving DecidableEq, Repr

def capTxPackReq (originCore slot : BitVec 8) (generation : BitVec 32) (op : BitVec 8) : BitVec 64 :=
  (originCore.setWidth 64 &&& 0xFF) <<< 46 ||| (slot.setWidth 64 &&& 0x3F) <<< 40 |||
    (generation.setWidth 64 &&& 0xFFFFFFFF) <<< 8 ||| (op.setWidth 64 &&& 0xFF)

def capTxUnpackReq (payload : BitVec 64) : TxReq where
  originCore := (payload >>> 46 &&& 0xFF).setWidth 8
  slot := (payload >>> 40 &&& 0x3F).setWidth 8
  generation := (payload >>> 8 &&& 0xFFFFFFFF).setWidth 32
  op := (payload &&& 0xFF).setWidth 8

structure TxAck where
  originCore : BitVec 8
  slot : BitVec 8
  generation : BitVec 32
  responderCore : BitVec 8
  status : BitVec 8
  deriving DecidableEq, Repr

def capTxPackAck (originCore slot : BitVec 8) (generation : BitVec 32)
    (responderCore status : BitVec 8) : BitVec 64 :=
  (originCore.setWidth 64 &&& 0x1F) <<< 49 ||| (slot.setWidth 64 &&& 0x0F) <<< 45 |||
    (generation.setWidth 64 &&& 0xFFFFFFFF) <<< 13 |||
    (responderCore.setWidth 64 &&& 0x1F) <<< 8 ||| status.setWidth 64

def capTxUnpackAck (payload : BitVec 64) : TxAck where
  originCore := (payload >>> 49 &&& 0x1F).setWidth 8
  slot := (payload >>> 45 &&& 0x0F).setWidth 8
  generation := (payload >>> 13 &&& 0xFFFFFFFF).setWidth 32
  responderCore := (payload >>> 8 &&& 0x1F).setWidth 8
  status := (payload &&& 0xFF).setWidth 8

variable (originCore slot : BitVec 8) (generation : BitVec 32) (op : BitVec 8)

theorem capTxPackReq_toNat :
    (capTxPackReq originCore slot generation op).toNat =
      originCore.toNat * 2 ^ 46 + (slot.toNat % 64 * 2 ^ 40 +
        (generation.toNat * 2 ^ 8 + op.toNat)) := by
  have packed := (Packs.masked originCore (0xFF : BitVec 64) 8).cons 46 <|
    (Packs.masked slot 0x3F 6).cons 40 <|
    (Packs.masked generation 0xFFFFFFFF 32).cons 8 <| .masked op 0xFF 8
  rw [capTxPackReq, BitVec.or_assoc, BitVec.or_assoc, packed.toNat]
  omega

/-- A packed request comes back as it went in, for slots below the field's width. -/
theorem capTxUnpackReq_pack (small : slot.toNat < 64) :
    capTxUnpackReq (capTxPackReq originCore slot generation op) =
      ⟨originCore, slot, generation, op⟩ := by
  have whole := capTxPackReq_toNat originCore slot generation op
  refine TxReq.mk.injEq .. ▸ ⟨?_, ?_, ?_, ?_⟩ <;> apply eq_of_toNat_eq <;>
    rw [toNat_setWidth]
  · rw [toNat_field _ _ 46 8 rfl, whole]; omega
  · rw [toNat_field _ _ 40 6 rfl, whole]; omega
  · rw [toNat_field _ _ 8 32 rfl, whole]; omega
  · rw [toNat_and_mask _ _ 8 rfl, whole]; omega

theorem capTxPackAck_toNat (responderCore status : BitVec 8) :
    (capTxPackAck originCore slot generation responderCore status).toNat =
      originCore.toNat % 32 * 2 ^ 49 + (slot.toNat % 16 * 2 ^ 45 +
        (generation.toNat * 2 ^ 13 + (responderCore.toNat % 32 * 2 ^ 8 + status.toNat))) := by
  have byte : Packs (status.setWidth 64) status.toNat 8 :=
    ⟨BitVec.toNat_setWidth_of_le (by decide), status.isLt⟩
  have packed := (Packs.masked originCore 0x1F 5).cons 49 <|
    (Packs.masked slot 0x0F 4).cons 45 <| (Packs.masked generation 0xFFFFFFFF 32).cons 13 <|
    (Packs.masked responderCore 0x1F 5).cons 8 byte
  rw [capTxPackAck, BitVec.or_assoc, BitVec.or_assoc, BitVec.or_assoc, packed.toNat]
  omega

/-- A packed acknowledgement comes back as it went in, for the cores and slots there are. -/
theorem capTxUnpackAck_pack {originCore slot responderCore : BitVec 8} {generation : BitVec 32}
    {status : BitVec 8} (origin : originCore.toNat < 32) (small : slot.toNat < 16)
    (responder : responderCore.toNat < 32) :
    capTxUnpackAck (capTxPackAck originCore slot generation responderCore status) =
      ⟨originCore, slot, generation, responderCore, status⟩ := by
  have whole := capTxPackAck_toNat originCore slot generation responderCore status
  refine TxAck.mk.injEq .. ▸ ⟨?_, ?_, ?_, ?_, ?_⟩ <;> apply eq_of_toNat_eq <;>
    rw [toNat_setWidth]
  · rw [toNat_field _ _ 49 5 rfl, whole]; omega
  · rw [toNat_field _ _ 45 4 rfl, whole]; omega
  · rw [toNat_field _ _ 13 32 rfl, whole]; omega
  · rw [toNat_field _ _ 8 5 rfl, whole]; omega
  · rw [toNat_and_mask _ _ 8 rfl, whole]; omega

theorem urpcUnpackMsg_pack {type : UrpcMsgType} {payload : BitVec 64}
    (fits : payload.toNat < 2 ^ 56) :
    urpcUnpackMsg (urpcPackMsg type payload) = ⟨type.code, payload⟩ := by
  have kept : Packs (payload &&& urpcMsgPayloadMask) payload.toNat 56 :=
    ⟨(toNat_and_mask _ _ 56 rfl).trans (Nat.mod_eq_of_lt fits), fits⟩
  have whole : (urpcPackMsg type payload).toNat = _ :=
    ((Packs.masked type.code 0xFF 8).cons 56 kept).toNat
  refine UrpcMsg.mk.injEq .. ▸ ⟨?_, ?_⟩ <;> apply eq_of_toNat_eq
  · rw [toNat_setWidth, toNat_field _ _ 56 8 rfl, whole]; omega
  · rw [toNat_and_mask _ _ 56 rfl, whole]; omega

end BharatOS
