import Mathlib.Data.List.Basic

/-!
# Remote calls from user space (`ipc.c` of the IPC library)

The answers of the transport are given, with the capabilities that each step installed. A step
that fails does not tell its caller of any.
-/

namespace BharatOS

/-- The fields of a header that a call reads or writes. -/
structure IpcHeader where
  headerVersion : BitVec 32
  flags : BitVec 32
  payloadSize : BitVec 32
  messageId : BitVec 64
  capabilityTransfer : BitVec 64
  replyEndpoint : BitVec 64
  deriving DecidableEq

/-- What `bharat_ipc_transport_receive_envelope` gives, and the capabilities it installed. -/
structure IpcDelivery where
  status : Int
  recvLen : Nat
  header : IpcHeader
  authorityCap : BitVec 32
  replySendCap : BitVec 32

structure RpcTransport where
  createStatus : Int
  sendCap : BitVec 32
  recvCap : BitVec 32
  sendStatus : Int
  delivery : IpcDelivery
  closeEndpoint : BitVec 32 → Int

/-- The arguments of a call; `payloadMax` is the room behind the header of a message. -/
structure RpcCall where
  payloadMax : Nat
  endpoint : BitVec 64
  reqHeader : IpcHeader
  hasReqPayload : Bool
  hasRepPayloadBuf : Bool
  repMaxSize : Nat

/-- `repHeader` is what was written to the caller's, `held` what the call got and did not close. -/
structure RpcOutcome where
  status : Int
  repHeader : Option IpcHeader
  held : List (BitVec 32)
  deriving DecidableEq

def ipcCheckHeader (payloadMax : Nat) (header : IpcHeader) : Int :=
  if header.headerVersion ≠ 1 then -2
  else if payloadMax < header.payloadSize.toNat then -9
  else if header.flags &&& ~~~7 ≠ 0 then -10
  else 0

def ipcStatusFromKernel (status : Int) : Int :=
  if status = 0 then 0
  else if status = -1 then -15
  else if status ∈ [-2, -3] then -6
  else if status ∈ [-4, -20, -21, -22, -23] then -4
  else if status ∈ [-6, -32] then -11
  else if status ∈ [-7, -31] then -12
  else if status = -9 then -14
  else if status = -11 then -9
  else if status ∈ [-30, -33] then -5
  else -7

/-- The envelope that the caller gets: zeroed by a receive that fails. -/
def IpcDelivery.envelope (d : IpcDelivery) : BitVec 32 × BitVec 32 :=
  if d.status = 0 then (d.authorityCap, d.replySendCap) else (0, 0)

/-- A step that fails has installed nothing. The exception is `bh_sys_endpoint_create` when it
cannot copy the handles out. -/
structure RpcTransport.FailsClean (t : RpcTransport) : Prop where
  create : t.createStatus ≠ 0 → t.sendCap = 0 ∧ t.recvCap = 0
  receive : t.delivery.status ≠ 0 → t.delivery.authorityCap = 0 ∧ t.delivery.replySendCap = 0

namespace RpcCall

/-- A handle that is not zero is kept. -/
def kept (cap : BitVec 32) : List (BitVec 32) := if cap = 0 then [] else [cap]

/-- What a failed receive has installed, and nobody knows of. -/
def strays (d : IpcDelivery) : List (BitVec 32) :=
  if d.status = 0 then [] else kept d.authorityCap ++ kept d.replySendCap

variable (c : RpcCall) (t : RpcTransport)

def bharatIpcRecvEnvelopeEx (d : IpcDelivery) : Int :=
  let checked := ipcCheckHeader c.payloadMax d.header
  if d.status ≠ 0 then ipcStatusFromKernel d.status
  else if d.recvLen < 56 then -1
  else if checked ≠ 0 then checked
  else if 56 + d.header.payloadSize.toNat ≠ d.recvLen then -9
  else if min c.repMaxSize c.payloadMax < d.header.payloadSize.toNat then -8
  else 0

/-- The checks before anything is asked of the transport. -/
def checks : Int :=
  let valid := ipcCheckHeader c.payloadMax c.reqHeader
  if 0 < c.repMaxSize ∧ !c.hasRepPayloadBuf then -1
  else if valid ≠ 0 then valid
  else if 0 < c.reqHeader.payloadSize ∧ !c.hasReqPayload then -1
  else if c.endpoint = 0 ∨ 0xFFFFFFFF < c.endpoint.toNat ∨
      0xFFFFFFFF < c.reqHeader.capabilityTransfer.toNat then -15
  else if c.reqHeader.replyEndpoint ≠ 0 then -6
  else 0

def mismatch (header : IpcHeader) : Bool :=
  c.reqHeader.messageId ≠ 0 && header.messageId ≠ c.reqHeader.messageId

/-- Closes a handle that is not zero. -/
def closed (cap : BitVec 32) : List (BitVec 32) :=
  if t.closeEndpoint cap = 0 then [] else kept cap

/-- The exits after the receive, with `own` of the reply endpoint's capabilities not closed. -/
def answered (own : List (BitVec 32)) : RpcOutcome :=
  let authorityCap := t.delivery.envelope.1
  let replySendCap := t.delivery.envelope.2
  let recvStatus := c.bharatIpcRecvEnvelopeEx t.delivery
  let returnedCap := if authorityCap ≠ 0 then authorityCap else replySendCap
  -- the reply capability, when the authority is the one to return
  let other := if authorityCap ≠ 0 then kept replySendCap else []
  if recvStatus ≠ 0 then
    ⟨recvStatus, none, own ++ strays t.delivery ++ kept replySendCap ++ closed t authorityCap⟩
  else if c.mismatch t.delivery.header then ⟨-1, none, own ++ other ++ closed t returnedCap⟩
  else
    let header := { t.delivery.header with
      capabilityTransfer := returnedCap.setWidth 64, replyEndpoint := 0 }
    ⟨0, some header, own ++ other ++ kept returnedCap⟩

def bharatIpcCallEx : RpcOutcome :=
  let own := closed t t.sendCap ++ closed t t.recvCap
  if c.checks ≠ 0 then ⟨c.checks, none, []⟩
  else if t.createStatus ≠ 0 then
    ⟨ipcStatusFromKernel t.createStatus, none, kept t.sendCap ++ kept t.recvCap⟩
  else if t.sendCap = 0 ∨ t.recvCap = 0 then
    ⟨ipcStatusFromKernel (-6), none, kept t.sendCap ++ kept t.recvCap⟩
  else if t.sendStatus ≠ 0 then ⟨ipcStatusFromKernel t.sendStatus, none, own⟩
  else c.answered t own

/-- The caller is left with nothing but the capability that the header it gets names. -/
abbrev NoLeak (o : RpcOutcome) : Prop :=
  o.held = match o.repHeader with
    | none => []
    | some header => kept (header.capabilityTransfer.setWidth 32)

/-- A delivery has one capability at most, and one that is not returned can be closed and is not
forgotten. -/
def Disposed : Prop :=
  let authorityCap := t.delivery.envelope.1
  let replySendCap := t.delivery.envelope.2
  (authorityCap = 0 ∨ replySendCap = 0) ∧
    (c.bharatIpcRecvEnvelopeEx t.delivery ≠ 0 → replySendCap = 0) ∧
    (c.bharatIpcRecvEnvelopeEx t.delivery ≠ 0 ∨ c.mismatch t.delivery.header →
      (t.closeEndpoint authorityCap = 0 ∨ authorityCap = 0) ∧
        (t.closeEndpoint replySendCap = 0 ∨ replySendCap = 0))

variable {t} {cap : BitVec 32}

theorem kept_eq_nil : kept cap = [] ↔ cap = 0 := by
  rw [kept, ite_eq_left_iff]
  simp only [reduceCtorEq, imp_false, not_not]

theorem closed_eq_nil : closed t cap = [] ↔ t.closeEndpoint cap = 0 ∨ cap = 0 := by
  rw [closed, ite_eq_left_iff, kept_eq_nil, or_iff_not_imp_left]

theorem strays_eq_nil (clean : t.FailsClean) : strays t.delivery = [] := by
  unfold strays
  split_ifs with done
  · rfl
  · rw [(clean.receive done).1, (clean.receive done).2]
    rfl

theorem narrow : (cap.setWidth 64).setWidth 32 = cap := by simp

theorem answered_noLeak_iff {c : RpcCall} {own : List (BitVec 32)} (clean : t.FailsClean) :
    NoLeak (c.answered t own) ↔ own = [] ∧ c.Disposed t := by
  unfold answered Disposed
  by_cases undecoded : c.bharatIpcRecvEnvelopeEx t.delivery ≠ 0
  · simp only [NoLeak, if_pos undecoded, strays_eq_nil clean, List.append_eq_nil_iff, closed_eq_nil,
      kept_eq_nil]
    tauto
  by_cases mismatch : c.mismatch t.delivery.header
  · by_cases authority : t.delivery.envelope.1 ≠ 0
    · simp only [NoLeak, if_neg undecoded, if_pos mismatch, if_pos authority,
        List.append_eq_nil_iff, closed_eq_nil, kept_eq_nil]
      tauto
    · simp only [NoLeak, if_neg undecoded, if_pos mismatch, if_neg authority,
        List.append_eq_nil_iff, closed_eq_nil]
      tauto
  · by_cases authority : t.delivery.envelope.1 ≠ 0
    · simp only [NoLeak, if_neg undecoded, if_neg mismatch, if_pos authority, narrow,
        List.append_left_eq_self, List.append_eq_nil_iff, kept_eq_nil]
      tauto
    · simp only [NoLeak, if_neg undecoded, if_neg mismatch, if_neg authority, narrow,
        List.append_left_eq_self, List.append_nil]
      tauto

theorem call_leaks_nothing_iff (c : RpcCall) (t : RpcTransport) (clean : t.FailsClean) :
    NoLeak (c.bharatIpcCallEx t) ↔ (c.checks = 0 → t.createStatus = 0 →
      (t.sendCap = 0 ∧ t.recvCap = 0) ∨
      (t.sendCap ≠ 0 ∧ t.recvCap ≠ 0 ∧ t.closeEndpoint t.sendCap = 0 ∧
        t.closeEndpoint t.recvCap = 0 ∧ (t.sendStatus = 0 → c.Disposed t))) := by
  unfold bharatIpcCallEx
  split_ifs with refused failed missing unsent
  · simp only [NoLeak, true_iff]
    exact fun accepted => absurd accepted refused
  · rw [(clean.create failed).1, (clean.create failed).2]
    simp only [NoLeak]
    exact ⟨fun _ _ created => absurd created failed, fun _ => rfl⟩
  · simp only [NoLeak, List.append_eq_nil_iff, kept_eq_nil]
    tauto
  · simp only [NoLeak, List.append_eq_nil_iff, closed_eq_nil]
    tauto
  · simp only [answered_noLeak_iff clean, List.append_eq_nil_iff, closed_eq_nil]
    tauto

def plain : IpcHeader := ⟨1, 0, 0, 0, 0, 0⟩

/-- A reply that brings one capability. -/
theorem call_leaks_nothing_iff_plain :
    let t : RpcTransport := ⟨0, 1, 2, 0, ⟨0, 56, plain, 3, 0⟩, fun _ => 0⟩
    t.FailsClean ∧ NoLeak (bharatIpcCallEx ⟨72, 9, plain, false, false, 0⟩ t) := by
  have clean : RpcTransport.FailsClean ⟨0, 1, 2, 0, ⟨0, 56, plain, 3, 0⟩, fun _ => 0⟩ :=
    ⟨fun failed => absurd rfl failed, fun failed => absurd rfl failed⟩
  refine ⟨clean, (call_leaks_nothing_iff _ _ clean).mpr fun _ _ => .inr ?_⟩
  refine ⟨by decide, by decide, rfl, rfl, fun _ => ⟨.inr rfl, fun _ => rfl, fun _ => ?_⟩⟩
  exact ⟨.inl rfl, .inl rfl⟩

/-- No step of the transport fails, and the reply has both capabilities. -/
theorem reply_capability_leaked :
    bharatIpcCallEx ⟨72, 9, plain, false, false, 0⟩ ⟨0, 1, 2, 0, ⟨0, 56, plain, 3, 4⟩, fun _ => 0⟩ =
      ⟨0, some { plain with capabilityTransfer := 3 }, [4, 3]⟩ ∧
    ¬ NoLeak ⟨0, some { plain with capabilityTransfer := 3 }, [4, 3]⟩ := by
  decide +kernel

end RpcCall

end BharatOS
