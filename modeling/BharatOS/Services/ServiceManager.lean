import BharatOS.Services.CapAuthz

namespace BharatOS

/-- `sm_opcode_t` -/
inductive SmOp
  | register | start | stop | query | healthUpdate | handoffBegin | handoffService | handoffCommit
  deriving DecidableEq

namespace SmOp

def decode : Nat → Option SmOp
  | 1 => some register
  | 2 => some start
  | 3 => some stop
  | 4 => some query
  | 7 => some healthUpdate
  | 10 => some handoffBegin
  | 11 => some handoffService
  | 12 => some handoffCommit
  | _ => none

/-- The size of the request. -/
def expected : SmOp → Nat
  | register => 44
  | start | stop | query => 4
  | healthUpdate | handoffBegin => 72
  | handoffService => 56
  | handoffCommit => 40

end SmOp

/-- A message as it is received: its header, what is read of its payload before it is handled,
and the capability of its envelope. -/
structure SmMessage where
  opcode : Nat
  payloadSize : Nat
  serviceId : Nat
  abiMajor : Nat
  abiMinor : Nat
  structSize : Nat
  authorityCap : Nat

/-- The service that the request names. -/
def SmMessage.target (m : SmMessage) : SmOp → Option Nat
  | .start | .stop | .query => some m.serviceId
  | _ => none

def servicemgrAuthzDescs : List (ServiceAuthzDesc SmOp) :=
  [⟨.register, .service, capRightWrite⟩, ⟨.start, .service, capRightExecute⟩,
    ⟨.stop, .service, capRightExecute⟩, ⟨.query, .service, capRightRead⟩,
    ⟨.handoffBegin, .service, capRightWrite ||| capRightGrant⟩,
    ⟨.handoffService, .service, capRightWrite ||| capRightGrant⟩,
    ⟨.handoffCommit, .service, capRightWrite ||| capRightGrant⟩]

/-- The resolver that `main` installs. -/
def servicemgrEnvelopeResolver : CapResolver := fun handle expectedObjectType _ _ =>
  handle ≠ 0 && expectedObjectType = .service

def servicemgrAuthorize (capValidate : CapResolver) (m : SmMessage) (op : SmOp) : IpcStatus :=
  if m.authorityCap = 0 then .errPerm
  else if op = .healthUpdate then .errOpcode
  else serviceDispatchAuthorize capValidate servicemgrAuthzDescs op m.authorityCap
    ((m.target op).getD 0)

/-- `servicemgr_poll_once`, after it has received a message: the operation whose handler it calls,
or the status of its refusal. -/
def servicemgrPollOnce (capValidate : CapResolver) (m : SmMessage) : Except IpcStatus SmOp :=
  match SmOp.decode m.opcode with
  | none => .error .errOpcode
  | some op =>
    if m.payloadSize ≠ op.expected then .error .errLength
    else if op = .handoffBegin ∧
        (m.abiMajor ≠ 1 ∨ m.abiMinor ≠ 0 ∨ m.structSize ≠ op.expected) then .error .errVersion
    else if op = .healthUpdate ∧ m.structSize ≠ op.expected then .error .errLength
    else if op = .healthUpdate then .ok op
    else match servicemgrAuthorize capValidate m op with
    | .ok => .ok op
    | refused => .error refused

/-- What the kernel has on record for a capability. -/
structure CapRecord where
  objectType : CapObjectType
  objectId : Nat
  rights : BitVec 64

/-- The capability designates a service, the one that is named if one is, and carries every right
listed for the operation. -/
def SmMessage.Authorised (m : SmMessage) (record : Nat → Option CapRecord) (op : SmOp) : Prop :=
  ∃ cap, record m.authorityCap = some cap ∧ cap.objectType = .service ∧
    (∀ id, m.target op = some id → cap.objectId = id) ∧
    ∀ desc ∈ servicemgrAuthzDescs, desc.opcode = op →
      cap.rights &&& desc.requiredRights = desc.requiredRights

/-- A request of an administrative operation, of the right size and version. -/
def SmMessage.Requests (m : SmMessage) (op : SmOp) : Prop :=
  SmOp.decode m.opcode = some op ∧ op ≠ .healthUpdate ∧ m.payloadSize = op.expected ∧
    (op = .handoffBegin → m.abiMajor = 1 ∧ m.abiMinor = 0 ∧ m.structSize = op.expected)

theorem authorize_envelopeResolver {m : SmMessage} {op : SmOp} (admin : op ≠ .healthUpdate) :
    servicemgrAuthorize servicemgrEnvelopeResolver m op = .ok ↔ m.authorityCap ≠ 0 := by
  unfold servicemgrAuthorize serviceDispatchAuthorize
  split_ifs with none
  · simp [none]
  cases op with
  | healthUpdate => exact absurd rfl admin
  | _ => simp [servicemgrAuthzDescs, servicemgrEnvelopeResolver, none]

theorem pollOnce_envelopeResolver {m : SmMessage} {op : SmOp} (admin : op ≠ .healthUpdate) :
    servicemgrPollOnce servicemgrEnvelopeResolver m = .ok op ↔
      m.authorityCap ≠ 0 ∧ m.Requests op := by
  rw [← authorize_envelopeResolver admin]
  unfold servicemgrPollOnce SmMessage.Requests
  constructor
  · intro h
    cases known : SmOp.decode m.opcode with
    | none => simp [known] at h
    | some asked =>
      simp only [known] at h
      split_ifs at h with size version _ health
      · cases h; exact absurd health admin
      split at h
      · cases h
        exact ⟨‹_›, rfl, admin, not_not.mp size, fun begins => by tauto⟩
      · cases h
  · rintro ⟨authorised, known, -, size, version⟩
    have current : ¬ (op = .handoffBegin ∧
        (m.abiMajor ≠ 1 ∨ m.abiMinor ≠ 0 ∨ m.structSize ≠ op.expected)) := by
      tauto
    simp [known, size, current, admin, authorised]

/-- The resolver looks at nothing but that there is a handle. So the operation is performed only
with authority, whatever the kernel has on record, if the message carries no capability or asks
for no administrative operation. -/
theorem administration_authorised_iff (m : SmMessage) :
    (∀ record op, op ≠ .healthUpdate → servicemgrPollOnce servicemgrEnvelopeResolver m = .ok op →
      m.Authorised record op) ↔ (m.authorityCap = 0 ∨ ∀ op, ¬ m.Requests op) := by
  constructor
  · intro authorised
    by_contra performed
    obtain ⟨carries, op, requests⟩ := by simpa using performed
    have accepted := (pollOnce_envelopeResolver requests.2.1).mpr ⟨carries, requests⟩
    obtain ⟨cap, held, -⟩ := authorised (fun _ => none) op requests.2.1 accepted
    cases held
  · intro harmless record op admin accepted
    obtain ⟨carries, requests⟩ := (pollOnce_envelopeResolver admin).mp accepted
    exact harmless.elim (absurd · carries) fun none => absurd requests (none op)

/-- A service is stopped with a capability for a process. -/
theorem stop_without_authority :
    let m : SmMessage := ⟨3, 4, 9, 0, 0, 0, 5⟩
    let record := fun _ => some (⟨.process, 1, capRightRead⟩ : CapRecord)
    servicemgrPollOnce servicemgrEnvelopeResolver m = .ok .stop ∧ ¬ m.Authorised record .stop :=
  ⟨rfl, fun ⟨_, held, service, _⟩ => by cases held; cases service⟩

end BharatOS
