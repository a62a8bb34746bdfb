import BharatOS.Cap.System

/-!
# Requests and acknowledgements on the wire

What each step of the system does to the transaction records and to the words on
their way between cores: who packs a request, who answers one, and when a record
gets a new generation.
-/

namespace BharatOS

open Option

namespace TxRequest

/-- The payload that carries the request. -/
def packed (req : TxRequest) : BitVec 64 :=
  capTxPackReq (BitVec.ofNat 8 req.origin) (BitVec.ofNat 8 req.slot) req.generation req.op

/-- The payload with which `responder` answers the request. -/
def packedAck (req : TxRequest) (responder : Core) (status : BitVec 8) : BitVec 64 :=
  capTxPackAck (BitVec.ofNat 8 req.origin) (BitVec.ofNat 8 req.slot) req.generation
    (BitVec.ofNat 8 responder) status

theorem toNat_core (core : Core) : (BitVec.ofNat 8 core).toNat = core := by
  rw [BitVec.toNat_ofNat]
  omega

theorem toNat_slot (slot : TxSlot) : (BitVec.ofNat 8 slot).toNat = slot := by
  rw [BitVec.toNat_ofNat]
  omega

theorem ofPayload_of_unpack {payload : BitVec 64} {req : TxRequest} (h : capTxUnpackReq payload =
      ⟨BitVec.ofNat 8 req.origin, BitVec.ofNat 8 req.slot, req.generation, req.op⟩) :
    ofPayload payload = some req := by
  simp only [ofPayload, h, toNat_core, toNat_slot, req.origin.isLt, req.slot.isLt, and_self,
    ↓reduceDIte]

variable (req : TxRequest) (responder : Core) (status : BitVec 8)

theorem ofPayload_packed : ofPayload req.packed = some req :=
  ofPayload_of_unpack (capTxUnpackReq_pack _ _ _ _ (by rw [toNat_slot]; omega))

theorem unpack_packedAck :
    capTxUnpackAck (req.packedAck responder status) =
      ⟨BitVec.ofNat 8 req.origin, BitVec.ofNat 8 req.slot, req.generation,
        BitVec.ofNat 8 responder, status⟩ :=
  capTxUnpackAck_pack (by rw [toNat_core]; exact req.origin.isLt)
    (by rw [toNat_slot]; exact req.slot.isLt) (by rw [toNat_core]; exact responder.isLt)

theorem packed_fits : req.packed.toNat < 2 ^ 56 := by
  have value := capTxPackReq_toNat (BitVec.ofNat 8 req.origin) (BitVec.ofNat 8 req.slot)
  rw [packed, value]
  omega

theorem packedAck_fits : (req.packedAck responder status).toNat < 2 ^ 56 := by
  have value := capTxPackAck_toNat (BitVec.ofNat 8 req.origin) (BitVec.ofNat 8 req.slot)
  rw [packedAck, value]
  omega

end TxRequest

/-- The word is the request, in a message of one of the two request types. -/
def Message.Asks (m : Message) (req : TxRequest) : Prop :=
  ∃ type : UrpcMsgType, (type = .capDelegateReq ∨ type = .capRevoke) ∧
    m.raw = urpcPackMsg type req.packed

/-- The word is `responder`'s answer to the request. -/
def Message.Answers (m : Message) (responder : Core) (req : TxRequest) : Prop :=
  ∃ (type : UrpcMsgType) (status : BitVec 8), (type = .capDelegateAck ∨ type = .capRevokeAck) ∧
    m.raw = urpcPackMsg type (req.packedAck responder status)

variable {m : Message} {req : TxRequest}

theorem Message.Asks.unpacked (h : m.Asks req) :
    ((urpcUnpackMsg m.raw).type = UrpcMsgType.capDelegateReq.code ∨
      (urpcUnpackMsg m.raw).type = UrpcMsgType.capRevoke.code) ∧
      (urpcUnpackMsg m.raw).payload = req.packed := by
  obtain ⟨type, kind, raw⟩ := h
  rw [raw, urpcUnpackMsg_pack req.packed_fits]
  rcases kind with rfl | rfl
  · exact ⟨.inl rfl, rfl⟩
  · exact ⟨.inr rfl, rfl⟩

theorem Message.Answers.unpacked {responder : Core} (h : m.Answers responder req) :
    ((urpcUnpackMsg m.raw).type = UrpcMsgType.capDelegateAck.code ∨
      (urpcUnpackMsg m.raw).type = UrpcMsgType.capRevokeAck.code) ∧
      ∃ status, (urpcUnpackMsg m.raw).payload = req.packedAck responder status := by
  obtain ⟨type, status, kind, raw⟩ := h
  rw [raw, urpcUnpackMsg_pack (req.packedAck_fits responder status)]
  rcases kind with rfl | rfl
  · exact ⟨.inl rfl, status, rfl⟩
  · exact ⟨.inr rfl, status, rfl⟩

/-! ## Who asks and who answers -/

/-- The request that the next section of a delegation sends. -/
def DelegateCall.requested (call : DelegateCall) (k : Kernel) : Option TxRequest :=
  let f := call.frame
  match call.pc with
  | .send => some ⟨f.core, f.tx, (k.txs f.core f.tx).generation, BhCapTxOp.delegate.code⟩
  | .sendRollback _ => some ⟨f.core, f.tx, (k.txs f.core f.tx).generation, BhCapTxOp.rollback.code⟩
  | _ => none

def RevokeCall.requested (call : RevokeCall) (k : Kernel) : Option TxRequest :=
  let f := call.frame
  match call.pc, f.tx with
  | .broadcast (_ :: _), some slot =>
    some ⟨f.core, slot, (k.txs f.core slot).generation, BhCapTxOp.revokePrepare.code⟩
  | _, _ => none

/-- The request that the next section of a handler answers, and the core that does. -/
def HandlerCall.answered (call : HandlerCall) : Option (Core × TxRequest) :=
  match call.pc with
  | .ack _ _ => some (call.core, call.reply.request)
  | _ => none

/-- A handler acknowledges with one of the two types that say so. -/
def HandlerCall.Acks (call : HandlerCall) : Prop :=
  ∀ type status, call.pc = .ack type status → type = .capDelegateAck ∨ type = .capRevokeAck

/-- One record before and after: it stays with its transaction, or is handed out again. -/
inductive RecordMove (tx tx' : BhCapTxEntry) : Prop
  | keeps (generation : tx'.generation = tx.generation)
      (acks : tx'.ackMask = tx.ackMask ∨ tx'.ackMask = 0)
  | reused (generation : tx'.generation = BhCapTxEntry.bumpGeneration tx.generation)
      (acks : tx'.ackMask = 0)

theorem RecordMove.refl (tx : BhCapTxEntry) : RecordMove tx tx := .keeps rfl (.inl rfl)

/-- What a step does to the records and the rings; the words it adds satisfy `new`. -/
structure Traffic (k k' : Kernel) (new : Message → Prop) : Prop where
  records : ∀ core slot, RecordMove (k.txs core slot) (k'.txs core slot)
  words : ∀ core, ∀ m ∈ k'.inbox core, m ∈ k.inbox core ∨ new m

namespace Traffic

variable {k k' : Kernel} {new : Message → Prop}

theorem quiet (txs : k'.txs = k.txs) (inbox : k'.inbox = k.inbox) : Traffic k k' new :=
  ⟨fun core slot => by rw [txs]; exact .refl _, fun core m here => .inl (by rwa [inbox] at here)⟩

theorem same : Traffic k k new := quiet rfl rfl

theorem writes {core : Core} {slot : TxSlot} {tx : BhCapTxEntry}
    (txs : k'.txs = k.txs.set core slot tx) (inbox : k'.inbox = k.inbox)
    (move : RecordMove (k.txs core slot) tx) : Traffic k k' new := by
  refine ⟨fun core' slot' => ?_, fun _ m here => .inl (by rwa [inbox] at here)⟩
  rw [txs]
  by_cases same : core' = core ∧ slot' = slot
  · obtain ⟨rfl, rfl⟩ := same
    rw [TxTable.set_self]
    exact move
  · rw [TxTable.set_other tx same]
    exact .refl _

theorem setTxState (core : Core) (slot : TxSlot) (state : BhCapTxState) :
    Traffic k (k.setTxState core slot state) new :=
  writes rfl rfl (.keeps rfl (.inl rfl))

theorem send {source target : Core} {raw : BitVec 64} (h : new ⟨source, raw⟩) :
    Traffic k (k.urpcBootstrapSend source target raw).1 new := by
  unfold Kernel.urpcBootstrapSend
  split
  · exact same
  split
  · exact same
  refine ⟨fun _ _ => .refl _, fun core m here => ?_⟩
  by_cases at' : core = target
  · subst at'
    simp only [Function.update_self, List.mem_append, List.mem_singleton] at here
    rcases here with old | rfl
    · exact .inl old
    · exact .inr h
  · simp only [Function.update_of_ne at'] at here
    exact .inl here

theorem sendReq (core target : Core) (slot : TxSlot) {type : UrpcMsgType} (op : BhCapTxOp)
    (kind : type = .capDelegateReq ∨ type = .capRevoke)
    (h : ∀ m : Message, m.Asks ⟨core, slot, (k.txs core slot).generation, op.code⟩ → new m) :
    Traffic k (k.sendReq core target slot type op).1 new :=
  send (h _ ⟨type, kind, rfl⟩)

end Traffic

namespace HandlerCall

open Kernel

variable {call : HandlerCall} {k : Kernel}

theorem step_acks {k' : Kernel} {call' : HandlerCall} (h : call.step k = (k', .inl call'))
    (acks : call.Acks) : call'.Acks ∧ call'.reply = call.reply := by
  obtain ⟨core, reply, pc⟩ := call
  cases pc with
  | read use copy remaining =>
    cases remaining with
    | nil =>
      simp only [step] at h
      split at h
      · cases h; exact ⟨acks, rfl⟩
      rename_i next
      cases h
      rcases useRead_next next with ⟨_, _, rfl, kind⟩ | ⟨_, _, rfl, -⟩
      · exact ⟨fun _ _ e => (by cases e; exact kind), rfl⟩
      · exact ⟨fun _ _ e => (by cases e), rfl⟩
    | cons => cases h; exact ⟨fun _ _ e => (by cases e), rfl⟩
  | scan phase notice remaining =>
    cases remaining with
    | nil => cases h; exact ⟨fun _ _ e => (by cases e; exact .inr rfl), rfl⟩
    | cons => cases h; exact ⟨fun _ _ e => (by cases e), rfl⟩
  | ack => cases h

theorem receiveReq_request {core source : Core} {payload : BitVec 64}
    (h : k.receiveReq core payload source = some call) :
    TxRequest.ofPayload payload = some call.reply.request ∧ call.Acks := by
  unfold Kernel.receiveReq at h
  cases found : TxRequest.ofPayload payload with
  | none => rw [found] at h; cases h
  | some req =>
    rw [found] at h
    simp only at h
    split at h
    · cases h
    split at h
    · split at h
      · cases h; exact ⟨rfl, fun _ _ e => (by cases e; exact .inl rfl)⟩
      obtain ⟨_, -, e⟩ := bind_eq_some_iff.mp h
      cases e; exact ⟨rfl, fun _ _ e => (by cases e)⟩
    split at h
    · cases h; exact ⟨rfl, fun _ _ e => (by cases e)⟩
    split at h
    · cases h; exact ⟨rfl, fun _ _ e => (by cases e)⟩
    split at h
    · cases h; exact ⟨rfl, fun _ _ e => (by cases e)⟩
    · cases h

end HandlerCall

namespace System

/-- The request that an action sends. -/
def requested (s : System) : Action → Option TxRequest
  | .resume thread _ =>
    match s.calls thread with
    | none => none
    | some (.delegate call) => call.requested s.kernel
    | some (.revoke call) => call.requested s.kernel
  | _ => none

/-- The request that an action answers, and the core that answers it. -/
def answered (s : System) : Action → Option (Core × TxRequest)
  | .handle core => (s.handlers core).bind HandlerCall.answered
  | _ => none

end System

end BharatOS
