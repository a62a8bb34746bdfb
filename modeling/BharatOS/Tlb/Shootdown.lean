import BharatOS.Tlb.Pending

/-!
# TLB shootdown (`tlb_shootdown.c`)

The transport may delay, lose, duplicate and reorder; where it does not take a request, a mailbox
of the target can stand in.
-/

namespace BharatOS

open Function

structure TlbInvalidateReq where
  aspaceId : BitVec 64
  vaStart : BitVec 64
  length : BitVec 64
  type : BitVec 32
  generation : BitVec 32
  deriving DecidableEq, Repr

/-- Which request of a slot a message belongs to. No code reads it. -/
structure Ticket where
  id : SlotId
  number : Nat
  deriving DecidableEq, Repr

/-- A message of the transport. -/
inductive TlbMsg where
  | request (dst src : Nat) (reqid : BitVec 32) (req : TlbInvalidateReq) (ticket : Ticket)
  | response (dst src : Nat) (reqid : BitVec 32) (ticket : Ticket)
  deriving DecidableEq, Repr

def TlbMsg.ticket : TlbMsg → Ticket
  | .request _ _ _ _ ticket | .response _ _ _ ticket => ticket

def TlbMsg.reqid : TlbMsg → BitVec 32
  | .request _ _ reqid _ _ | .response _ _ reqid _ => reqid

inductive TlbScope where
  | page | range | aspace
  deriving DecidableEq, Repr

def TlbScope.ofType (type : BitVec 32) : TlbScope :=
  if type = 0 then .page else if type = 1 then .range else .aspace

def TlbScope.type : TlbScope → BitVec 32
  | .page => 0
  | .range => 1
  | .aspace => 2

/-- `mm_mailbox_slot_t` -/
structure MmMailbox where
  valid : Bool
  scope : TlbScope
  senderCore : Nat
  asId : BitVec 64
  va : BitVec 64
  len : BitVec 64
  seq : BitVec 32
  ticket : Ticket

structure TlbLegacyResp where
  valid : Bool
  requestId : BitVec 32
  ackingCore : Nat

/-- Where a core is in its mailbox. It reads the fields of the message one by one, without
the lock, and writes its answer field by field. -/
inductive MailReader where
  | idle
  | reading (copied : Nat) (req : TlbInvalidateReq)
  | answering (reqid : BitVec 32)
  | writing (written : Nat) (reqid : BitVec 32) (origin : Nat)
  | closing

/-- Where a core is with the answers of one of its slots. -/
inductive RespReader where
  | idle
  | read (requestId : BitVec 32)
  | clearing

/-- The results of `vmm_send_tlb_invalidate_ex`. -/
inductive TlbStatus where
  | ok | invalidArg | noResources | notFound | unsupported | timeout
  deriving DecidableEq, Repr

/-- Where a call is: at core `next` of the dispatch loop, or in the wait loop. -/
inductive CallPhase where
  | sending (next : Nat) (anySent : Bool) (failed : BitVec 64)
  | waiting

/-- What a call asks for. `since` is the number of requests that had been handled by all cores
when its slot was allocated. -/
structure TlbRequest where
  reqid : BitVec 32
  req : TlbInvalidateReq
  since : Nat
  deriving DecidableEq, Repr

/-- A call of `vmm_send_tlb_invalidate_ex` that has a slot. `entryMask` is the mask of the
address space when it began, and `targets` are the cores of this attempt. -/
structure TlbCall where
  entryMask : BitVec 64
  request : TlbRequest
  targets : BitVec 64
  retryCount : Nat
  phase : CallPhase

/-- A request that a core handled. -/
structure Handled where
  core : Nat
  reqid : BitVec 32
  req : TlbInvalidateReq
  deriving DecidableEq, Repr

/-- A call that returned. It has no request if it returned before it had a slot. -/
structure Returned where
  core : Nat
  entryMask : BitVec 64
  status : TlbStatus
  request : Option TlbRequest
  deriving DecidableEq, Repr

/-- `fallback` is `BHARAT_TLB_LEGACY_MAILBOX_FALLBACK`, `count` is `g_active_core_count`. -/
structure TlbConfig where
  fallback : Bool
  count : Nat
  count_le : count ≤ maxCpus

/-- `handled`, `returned` and `requests` (how often each slot was allocated) are a record of
what happened. -/
structure TlbSystem where
  pending : TlbPending
  call : SlotId → Option TlbCall
  network : List TlbMsg
  mailbox : Nat → MmMailbox
  mailReader : Nat → MailReader
  resp : SlotId → TlbLegacyResp
  respReader : SlotId → RespReader
  handled : List Handled
  returned : List Returned
  requests : SlotId → Nat

/-- What the transport does with a message that it is given. -/
inductive Route where
  | transport | refused
  deriving DecidableEq, Repr

inductive TlbAction where
  | call (core : Nat) (state : AspaceState) (mask : BitVec 64) (req : TlbInvalidateReq)
  | send (id : SlotId) (route : Route)
  | dispatched (id : SlotId)
  | complete (id : SlotId)
  | expire (id : SlotId)
  | deliver (index : Nat) (again : Bool) (answer : Route)
  | lose (index : Nat)
  | readMail (core : Nat) (answer : Route)
  | readResp (id : SlotId)

namespace TlbSystem

def boot : TlbSystem where
  pending := .init
  call _ := none
  network := []
  mailbox _ := ⟨false, .page, 0, 0, 0, 0, 0, ⟨⟨0, 0⟩, 0⟩⟩
  mailReader _ := .idle
  resp _ := ⟨false, 0, 0⟩
  respReader _ := .idle
  handled := []
  returned := []
  requests _ := 0

def setCall (s : TlbSystem) (id : SlotId) (k : Option TlbCall) : TlbSystem :=
  { s with call := update s.call id k }

def setMailReader (s : TlbSystem) (core : Nat) (r : MailReader) : TlbSystem :=
  { s with mailReader := update s.mailReader core r }

def setRespReader (s : TlbSystem) (id : SlotId) (r : RespReader) : TlbSystem :=
  { s with respReader := update s.respReader id r }

def setResp (s : TlbSystem) (id : SlotId) (r : TlbLegacyResp) : TlbSystem :=
  { s with resp := update s.resp id r }

/-- A call gives its slot back and returns. -/
def finish (s : TlbSystem) (id : SlotId) (k : TlbCall) (status : TlbStatus) : TlbSystem :=
  { s.setCall id none with
    pending := s.pending.tlbPendingFree id
    returned := s.returned ++ [⟨id.core, k.entryMask, status, some k.request⟩] }

/-- A call returns before it has a slot. -/
def refuse (s : TlbSystem) (core : Nat) (mask : BitVec 64) (status : TlbStatus) : TlbSystem :=
  { s with returned := s.returned ++ [⟨core, mask, status, none⟩] }

/-- The cores that a call waits for. -/
def targetMask (count core : Nat) (mask : BitVec 64) : BitVec 64 :=
  let others := clearCpu mask core
  if 0 < count ∧ count < 64 then others &&& (1#64 <<< count - 1) else others

/-- `vmm_send_tlb_invalidate_ex` up to the retry loop. `state` and `mask` are the state and the
active mask of the address space. Interrupts are off: the core processes no answer while
`tlb_pending_alloc` fills its slot. -/
def begin (cfg : TlbConfig) (s : TlbSystem) (core : Nat) (state : AspaceState) (mask : BitVec 64)
    (req : TlbInvalidateReq) : TlbSystem :=
  let targets := targetMask cfg.count core mask
  if state.validForTlb = false then s.refuse core mask .invalidArg
  else if targets = 0 then s.refuse core mask .ok
  else
    match s.pending.tlbPendingAlloc cfg.count core targets with
    | none => s.refuse core mask .noResources
    | some (pending, slot, reqid) =>
      let id : SlotId := ⟨core, slot⟩
      { s.setCall id (some ⟨mask, ⟨reqid, req, s.handled.length⟩, targets, 0,
          .sending 0 false 0⟩) with
        pending
        requests := update s.requests id (s.requests id + 1) }

/-- The ticket of the request that a slot holds. -/
def ticket (s : TlbSystem) (id : SlotId) : Ticket := ⟨id, s.requests id - 1⟩

def tlbSendViaMailboxLegacy (s : TlbSystem) (core : Nat) (id : SlotId) (q : TlbRequest) :
    TlbSystem :=
  { s with mailbox := update s.mailbox core ⟨true, .ofType q.req.type, id.core,
      q.req.aspaceId, q.req.vaStart, q.req.length, q.reqid, s.ticket id⟩ }

/-- One turn of the dispatch loop. -/
def sendNext (cfg : TlbConfig) (s : TlbSystem) (id : SlotId) (k : TlbCall) (route : Route) :
    Option TlbSystem :=
  match k.phase with
  | .waiting => none
  | .sending core anySent failed =>
    if maxCpus ≤ core then none
    else if core = id.core ∨ k.targets.getLsbD core = false then
      some (s.setCall id (some { k with phase := .sending (core + 1) anySent failed }))
    else
      let sent := s.setCall id (some { k with phase := .sending (core + 1) true failed })
      match route with
      | .transport => some { sent with
          network := s.network ++
            [.request core id.core k.request.reqid k.request.req (s.ticket id)] }
      | .refused =>
        if cfg.fallback then some (sent.tlbSendViaMailboxLegacy core id k.request)
        else some (s.setCall id
          (some { k with phase := .sending (core + 1) anySent (setCpu failed core) }))

/-- After the dispatch loop. -/
def afterDispatch (cfg : TlbConfig) (s : TlbSystem) (id : SlotId) (k : TlbCall) :
    Option TlbSystem :=
  match k.phase with
  | .waiting => none
  | .sending core anySent failed =>
    if core < maxCpus then none
    else if cfg.fallback = false ∧ failed ≠ 0 then some (s.finish id k .unsupported)
    else if anySent = false ∧ k.retryCount = 0 then some (s.finish id k .notFound)
    else some (s.setCall id (some { k with phase := .waiting }))

def maxRetries : Nat := 3

/-- The deadline of an attempt passes. The next one is for the cores that are missing. -/
def afterDeadline (cfg : TlbConfig) (s : TlbSystem) (id : SlotId) (k : TlbCall) :
    Option TlbSystem :=
  match k.phase with
  | .sending .. => none
  | .waiting =>
    if k.retryCount + 1 < maxRetries then
      some (s.setCall id (some { k with
        targets := s.pending.tlbPendingGetMissingMask cfg.count id
        retryCount := k.retryCount + 1
        phase := .sending 0 false 0 }))
    else some (s.finish id k .timeout)

/-- The wait loop finds every acknowledgement. -/
def afterComplete (s : TlbSystem) (id : SlotId) (k : TlbCall) : Option TlbSystem :=
  match k.phase with
  | .sending .. => none
  | .waiting => if s.pending.tlbPendingIsComplete id then some (s.finish id k .ok) else none

/-- `monitor_handle_tlb_invalidate`, which core `core` calls for a request. -/
def monitorHandle (s : TlbSystem) (core : Nat) (reqid : BitVec 32) (req : TlbInvalidateReq) :
    TlbSystem :=
  { s with handled := s.handled ++ [⟨core, reqid, req⟩] }

/-- An answer is handed to the transport. -/
def respond (s : TlbSystem) (dst src : Nat) (reqid : BitVec 32) (ticket : Ticket) :
    Route → TlbSystem
  | .transport => { s with network := s.network ++ [.response dst src reqid ticket] }
  | .refused => s

/-- The transport part of `vmm_process_urpc_messages`, for one message. -/
def receive (cfg : TlbConfig) (s : TlbSystem) (answer : Route) : TlbMsg → TlbSystem
  | .request dst src reqid req ticket =>
    (s.monitorHandle dst reqid req).respond src dst reqid ticket answer
  | .response dst src reqid _ =>
    { s with pending := s.pending.tlbPendingAck cfg.count dst reqid src }

/-- A core reads the next field of the message in its mailbox, or handles the message once it
has them all, or writes the next field of the answer. -/
def mailStep (s : TlbSystem) (core : Nat) (answer : Route) : Option TlbSystem :=
  let mail := s.mailbox core
  match s.mailReader core with
  | .idle => if mail.valid then some (s.setMailReader core (.reading 0 ⟨0, 0, 0, 0, 0⟩)) else none
  | .reading 0 req => some (s.setMailReader core (.reading 1 { req with aspaceId := mail.asId }))
  | .reading 1 req => some (s.setMailReader core (.reading 2 { req with vaStart := mail.va }))
  | .reading 2 req => some (s.setMailReader core (.reading 3 { req with length := mail.len }))
  | .reading 3 req => some (s.setMailReader core (.reading 4 { req with type := mail.scope.type }))
  | .reading _ req =>
    some ((s.monitorHandle core mail.seq { req with generation := mail.seq }).setMailReader core
      (.answering mail.seq))
  | .answering reqid =>
    -- `tlb_send_completion`: over the transport of the sender, if it has one
    if maxCpus ≤ (reqidSlot reqid).core ∨ tlbMaxPendingPerCore ≤ (reqidSlot reqid).slot then
      some (s.setMailReader core .closing)
    else match answer with
      | .transport => some ((s.respond mail.senderCore core reqid mail.ticket
          .transport).setMailReader core .closing)
      | .refused => some (s.setMailReader core (.writing 0 reqid mail.senderCore))
  | .writing 0 reqid origin =>
    let id : SlotId := ⟨origin, (reqidSlot reqid).slot⟩
    some ((s.setResp id { s.resp id with requestId := reqid }).setMailReader core
      (.writing 1 reqid origin))
  | .writing 1 reqid origin =>
    let id : SlotId := ⟨origin, (reqidSlot reqid).slot⟩
    some ((s.setResp id { s.resp id with ackingCore := core }).setMailReader core
      (.writing 2 reqid origin))
  | .writing _ reqid origin =>
    let id : SlotId := ⟨origin, (reqidSlot reqid).slot⟩
    some ((s.setResp id { s.resp id with valid := true }).setMailReader core .closing)
  | .closing =>
    some { s.setMailReader core .idle with
      mailbox := update s.mailbox core { mail with valid := false } }

/-- A core looks at the answer record of one of its slots, field by field. -/
def respStep (cfg : TlbConfig) (s : TlbSystem) (id : SlotId) : Option TlbSystem :=
  match s.respReader id with
  | .idle => if (s.resp id).valid then some (s.setRespReader id (.read (s.resp id).requestId))
      else none
  | .read requestId => some { s.setRespReader id .clearing with
      pending := s.pending.tlbPendingAck cfg.count id.core requestId (s.resp id).ackingCore }
  | .clearing => some ((s.setResp id { s.resp id with valid := false }).setRespReader id .idle)

def step (cfg : TlbConfig) (s : TlbSystem) : TlbAction → Option TlbSystem
  | .call core state mask req => some (s.begin cfg core state mask req)
  | .send id route => (s.call id).bind fun k => s.sendNext cfg id k route
  | .dispatched id => (s.call id).bind fun k => s.afterDispatch cfg id k
  | .complete id => (s.call id).bind fun k => s.afterComplete id k
  | .expire id => (s.call id).bind fun k => s.afterDeadline cfg id k
  | .deliver index again answer => s.network[index]?.map fun msg =>
      ({ s with network := if again then s.network else s.network.eraseIdx index }).receive cfg
        answer msg
  | .lose index => some { s with network := s.network.eraseIdx index }
  | .readMail core answer => s.mailStep core answer
  | .readResp id => s.respStep cfg id

def Steps (cfg : TlbConfig) (s : TlbSystem) (a : TlbAction) (s' : TlbSystem) : Prop :=
  s.step cfg a = some s'

end TlbSystem

end BharatOS
