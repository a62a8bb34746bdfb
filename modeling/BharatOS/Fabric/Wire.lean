import BharatOS.Cap.Types
import BharatOS.Fabric.Lane
import Mathlib

/-!
# Handles and messages of the fabric (`mk_proto.h`)
-/

namespace BharatOS

/-- `BHARAT_MAX_CPUS`. -/
abbrev FabricCore := Fin 256

instance fabricCore_neZero : NeZero 256 := ⟨by decide⟩

inductive BhMkLane where
  | control | normal | bulk
  deriving DecidableEq, Repr

def BhMkLane.code : BhMkLane → Nat
  | .control => 0
  | .normal => 1
  | .bulk => 2

inductive BharatProfile where
  | mmuFull | mmuLite | other
  deriving DecidableEq, Repr

/-- `BH_MK_LANE_CONTROL_CAP` and the like. -/
def bhMkLaneCap : BharatProfile → BhMkLane → Nat
  | .mmuFull, .control => 64
  | .mmuFull, .normal => 128
  | .mmuFull, .bulk => 32
  | .mmuLite, .control => 32
  | .mmuLite, .normal => 64
  | .mmuLite, .bulk => 16
  | .other, .control => 32
  | .other, .normal => 32
  | .other, .bulk => 8

/-- Every lane is a ring that can be initialised. -/
theorem laneCap_powerOfTwo {profile : BharatProfile} {lane : BhMkLane} :
    ∃ k < 31, bhMkLaneCap profile lane = 2 ^ k := by
  cases profile <;> cases lane <;> decide

/-! ## Endpoint handles -/

def bhMkEndpointInvalid : BitVec 64 := 0xFFFFFFFFFFFFFFFF
def bhMkEndpointLegacy : BitVec 64 := 0xFFFFFFFFFFFFFFFE
def bhMkHandleTypeMagic : BitVec 64 := 0xA5

def bhMkHandlePack (coreId coreGen epGen slot : BitVec 32) : Option (BitVec 64) :=
  if 0xFFF < coreId ∨ 0xFFFF < coreGen ∨ 0xFFFF < epGen ∨ 0xFFF < slot then none
  else some (bhMkHandleTypeMagic <<< 56 ||| coreId.setWidth 64 <<< 44 |||
    coreGen.setWidth 64 <<< 28 ||| epGen.setWidth 64 <<< 12 ||| slot.setWidth 64)

structure BhMkHandle where
  coreId : FabricCore
  coreGen : BitVec 32
  epGen : BitVec 32
  slot : Fin 64
  deriving DecidableEq, Repr

/-- `bh_mk_handle_unpack`, with the ranges it checks as types. -/
def bhMkHandleUnpack (handle : BitVec 64) : Except Int BhMkHandle :=
  if handle = bhMkEndpointInvalid then .error (-3)
  else if handle >>> 56 &&& 0xFF ≠ bhMkHandleTypeMagic then .error (-768)
  else
    let coreId := handle >>> 44 &&& 0xFFF
    let slot := handle &&& 0xFFF
    if hCore : coreId.toNat < 256 then
      if hSlot : slot.toNat < 64 then
        .ok ⟨⟨coreId.toNat, hCore⟩, (handle >>> 28 &&& 0xFFFF).setWidth 32,
          (handle >>> 12 &&& 0xFFFF).setWidth 32, ⟨slot.toNat, hSlot⟩⟩
      else .error (-1)
    else .error (-1)

/-- The tests that `bh_mk_send` and the dispatcher make for a legacy destination. -/
def isLegacy (destination : BitVec 64) : Bool :=
  destination == bhMkEndpointLegacy || destination &&& 0xFFFFFFFFFFFFFF#64 == bhMkEndpointLegacy

/-! ## Messages -/

def mkMsgFlagIsReply : BitVec 32 := 1#32 <<< 1
def mkMsgFlagError : BitVec 32 := 1#32 <<< 2

structure BhMkWireHeader where
  abiVersion : BitVec 16
  headerSize : BitVec 16
  messageClass : BitVec 16
  opcode : BitVec 16
  flags : BitVec 32
  payloadSize : BitVec 32
  srcCore : BitVec 32
  dstCore : BitVec 32
  srcEndpoint : BitVec 64
  srcEndpointGeneration : BitVec 32
  dstEndpoint : BitVec 64
  dstEndpointGeneration : BitVec 32
  txnSlot : BitVec 32
  txnGeneration : BitVec 32
  sequence : BitVec 64
  deadlineTicks : BitVec 64
  reserved : BitVec 32
  deriving DecidableEq, Repr

structure BhMkWireMessage where
  header : BhMkWireHeader
  payload : List (BitVec 8)
  deriving DecidableEq, Repr

/-- The slot of a message that belongs to no transaction. -/
def noTransaction : BitVec 32 := 0xFFFFFFFF

def bhMkWireValidate (now : BitVec 64) (msg : BhMkWireMessage) : Int :=
  let h := msg.header
  if h.abiVersion ≠ 1 then -5
  else if h.headerSize ≠ 96 then -5
  else if 128 < h.payloadSize then -11
  else if 256 ≤ h.srcCore ∨ 256 ≤ h.dstCore then -1794
  else if h.reserved ≠ 0 then -1
  else if 0 < h.deadlineTicks ∧ h.deadlineTicks < now then -7
  else if h.txnSlot ≠ noTransaction ∧ 128 ≤ h.txnSlot then -1
  else 0

end BharatOS
