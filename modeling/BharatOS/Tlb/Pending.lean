import BharatOS.Lib.BitFields
import BharatOS.Vm.ActiveCores

/-!
# The table of pending shootdowns (`tlb_pending.c`)

A core that asks other cores to invalidate translations takes a slot of its own. The slot
collects the acknowledgements. A request id packs the core, the slot, and 16 bits of a
counter of the slot.
-/

namespace BharatOS

def tlbMaxPendingPerCore : Nat := 16

def tlbReqidEncode (coreId slot generation : BitVec 32) : BitVec 32 :=
  coreId <<< 24 ||| slot <<< 16 ||| generation &&& 0xFFFF

/-- The core, the slot and the generation of a request id. -/
def tlbReqidDecode (reqid : BitVec 32) : BitVec 32 × BitVec 32 × BitVec 32 :=
  (reqid >>> 24 &&& 0xFF, reqid >>> 16 &&& 0xFF, reqid &&& 0xFFFF)

theorem toNat_natCast_of_lt {m : Nat} (fits : m < 2 ^ 32) : ((m : Nat) : BitVec 32).toNat = m :=
  Nat.mod_eq_of_lt fits

theorem tlbReqidEncode_toNat {coreId slot generation : BitVec 32} (core : coreId.toNat < 256)
    (small : slot.toNat < 256) (gen : generation.toNat < 2 ^ 16) :
    (tlbReqidEncode coreId slot generation).toNat =
      coreId.toNat * 2 ^ 24 + (slot.toNat * 2 ^ 16 + generation.toNat) := by
  have masked : Packs (generation &&& 0xFFFF) generation.toNat 16 :=
    ⟨(toNat_and_mask _ _ 16 rfl).trans (Nat.mod_eq_of_lt gen), gen⟩
  have packed := Packs.cons (m := 8) ⟨rfl, core⟩ 24 (Packs.cons (m := 8) ⟨rfl, small⟩ 16 masked)
  rw [tlbReqidEncode, BitVec.or_assoc, packed.toNat]

/-- A pending slot of a core. -/
structure SlotId where
  core : Nat
  slot : Nat
  deriving DecidableEq, Repr

/-- The slot that a request id names. -/
def reqidSlot (reqid : BitVec 32) : SlotId :=
  ⟨(tlbReqidDecode reqid).1.toNat, (tlbReqidDecode reqid).2.1.toNat⟩

structure TlbPendingEntry where
  inUse : Bool
  targetMask : BitVec 64
  ackMask : BitVec 64
  requestId : BitVec 32
  deriving DecidableEq, Repr

/-- `g_tlb_pending` and `g_tlb_gen`. -/
structure TlbPending where
  entry : SlotId → TlbPendingEntry
  gen : SlotId → BitVec 32

namespace TlbPending

/-- `tlb_pending_init` -/
def init : TlbPending := ⟨fun _ => ⟨false, 0, 0, 0⟩, fun _ => 1⟩

def setEntry (p : TlbPending) (id : SlotId) (e : TlbPendingEntry) : TlbPending :=
  { p with entry := Function.update p.entry id e }

/-- The counter of a slot, once it was used; it skips 0. -/
def nextGen (gen : BitVec 32) : BitVec 32 :=
  if (gen + 1) &&& 0xFFFF = 0 then 1 else gen + 1

/-- `tlb_pending_alloc` on core `core`, with `count` cores active: the table, the slot, and the
request id. -/
def tlbPendingAlloc (p : TlbPending) (count core : Nat) (targetMask : BitVec 64) :
    Option (TlbPending × Nat × BitVec 32) :=
  if count ≤ core then none
  else if targetMask &&& ~~~(1#64 <<< count - 1) ≠ 0 then none
  else if targetMask &&& cpuBit core ≠ 0 then none
  else
    match (List.range tlbMaxPendingPerCore).find? fun slot => !(p.entry ⟨core, slot⟩).inUse with
    | none => none
    | some slot =>
      let reqid := tlbReqidEncode core slot (p.gen ⟨core, slot⟩)
      some ({ p.setEntry ⟨core, slot⟩ ⟨true, targetMask, 0, reqid⟩ with
        gen := Function.update p.gen ⟨core, slot⟩ (nextGen (p.gen ⟨core, slot⟩)) }, slot, reqid)

/-- `tlb_pending_ack` on core `core`. -/
def tlbPendingAck (p : TlbPending) (count core : Nat) (reqid : BitVec 32) (ackingCore : Nat) :
    TlbPending :=
  let id := reqidSlot reqid
  if count ≤ id.core ∨ tlbMaxPendingPerCore ≤ id.slot then p
  else if count ≤ ackingCore then p
  else if id.core ≠ core then p
  else if (p.entry id).inUse ∧ (p.entry id).requestId = reqid then
    if (p.entry id).targetMask &&& cpuBit ackingCore = 0 then p
    else p.setEntry id { p.entry id with ackMask := setCpu (p.entry id).ackMask ackingCore }
  else p

def tlbPendingIsComplete (p : TlbPending) (id : SlotId) : Bool :=
  (p.entry id).ackMask &&& (p.entry id).targetMask = (p.entry id).targetMask

def tlbPendingFree (p : TlbPending) (id : SlotId) : TlbPending :=
  p.setEntry id { p.entry id with inUse := false }

def tlbPendingGetMissingMask (p : TlbPending) (count : Nat) (id : SlotId) : BitVec 64 :=
  if count ≤ id.core ∨ tlbMaxPendingPerCore ≤ id.slot then 0
  else if (p.entry id).inUse = false then 0
  else (p.entry id).targetMask &&& ~~~(p.entry id).ackMask

end TlbPending

/-- The request id of the request of a slot that has `n` requests before it. -/
def slotReqid (id : SlotId) (n : Nat) : BitVec 32 :=
  tlbReqidEncode id.core id.slot (n % 65535 + 1 : Nat)

/-- A slot that there is. -/
def SlotId.Valid (id : SlotId) : Prop := id.core < maxCpus ∧ id.slot < tlbMaxPendingPerCore

theorem slotReqid_toNat {id : SlotId} (valid : id.Valid) (n : Nat) :
    (slotReqid id n).toNat = id.core * 2 ^ 24 + (id.slot * 2 ^ 16 + (n % 65535 + 1)) := by
  obtain ⟨core, slot⟩ := valid
  unfold maxCpus at core
  unfold tlbMaxPendingPerCore at slot
  have coreId : ((id.core : Nat) : BitVec 32).toNat = id.core := toNat_natCast_of_lt (by omega)
  have slotId : ((id.slot : Nat) : BitVec 32).toNat = id.slot := toNat_natCast_of_lt (by omega)
  have genId : ((n % 65535 + 1 : Nat) : BitVec 32).toNat = n % 65535 + 1 :=
    toNat_natCast_of_lt (by omega)
  rw [slotReqid, tlbReqidEncode_toNat (by omega) (by omega) (by omega), coreId, slotId, genId]

/-- Requests of one slot have the same id only if a full turn of the counter is between them. -/
theorem slotReqid_inj {id id' : SlotId} {n n' : Nat} (valid : id.Valid) (valid' : id'.Valid)
    (same : slotReqid id n = slotReqid id' n') : n % 65535 = n' % 65535 := by
  have values := congrArg BitVec.toNat same
  rw [slotReqid_toNat valid, slotReqid_toNat valid'] at values
  omega

theorem reqidSlot_slotReqid {id : SlotId} (valid : id.Valid) (n : Nat) :
    reqidSlot (slotReqid id n) = id := by
  have value := slotReqid_toNat valid n
  obtain ⟨core, slot⟩ := valid
  unfold tlbMaxPendingPerCore at slot
  have coreField : (slotReqid id n >>> 24 &&& 0xFF).toNat = id.core := by
    rw [toNat_field _ _ 24 8 rfl, value]
    omega
  have slotField : (slotReqid id n >>> 16 &&& 0xFF).toNat = id.slot := by
    rw [toNat_field _ _ 16 8 rfl, value]
    omega
  rw [reqidSlot, tlbReqidDecode, coreField, slotField]

theorem nextGen_turns (n : Nat) :
    TlbPending.nextGen ((n % 65535 + 1 : Nat) : BitVec 32) = ((n + 1) % 65535 + 1 : Nat) := by
  have next : (((n % 65535 + 1 : Nat) : BitVec 32) + 1).toNat = n % 65535 + 2 := by
    have one : (1 : BitVec 32).toNat = 1 := rfl
    rw [BitVec.toNat_add, toNat_natCast_of_lt (by omega), one]
    omega
  unfold TlbPending.nextGen
  have masked : ((((n % 65535 + 1 : Nat) : BitVec 32) + 1) &&& 0xFFFF).toNat =
      (n % 65535 + 2) % 2 ^ 16 := by
    rw [toNat_and_mask _ _ 16 rfl, next]
  by_cases last : n % 65535 = 65534
  · have zero : (((n % 65535 + 1 : Nat) : BitVec 32) + 1) &&& 0xFFFF = 0 := by
      apply BitVec.eq_of_toNat_eq
      rw [masked, last]
      rfl
    rw [if_pos zero]
    have around : (n + 1) % 65535 = 0 := by omega
    rw [around]
    rfl
  · have nonzero : ¬ (((n % 65535 + 1 : Nat) : BitVec 32) + 1) &&& 0xFFFF = 0 := by
      intro zero
      have value := congrArg BitVec.toNat zero
      have : (0 : BitVec 32).toNat = 0 := rfl
      omega
    rw [if_neg nonzero]
    apply BitVec.eq_of_toNat_eq
    rw [toNat_natCast_of_lt (by omega)]
    omega

end BharatOS
