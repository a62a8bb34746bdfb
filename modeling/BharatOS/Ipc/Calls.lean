import BharatOS.Ipc.EndpointOps
import BharatOS.Cap.Effects

/-!
# Sending, receiving and creating as lock sections (`endpoint_ipc.c`)

A lookup of a capability is one section, the work under an endpoint's lock is another, and the
wake-up of the thread that was dequeued there comes after both.
-/

namespace BharatOS

/-! ## Threads that wait -/

/-- What the scheduler keeps of a thread: whether it is blocked, why it was woken
(`ipc_wakeup_reason`), whether it has a deadline (`ipc_deadline_ticks`), and whether
a wake-up is on the way to its core. `turn` is not in the code: the thread was
dequeued to look at its endpoint again, and has not done so yet. -/
structure Sleeper where
  blocked : Bool
  wakeupReason : Int
  armed : Bool
  waking : Bool
  turn : Bool
  deriving DecidableEq, Repr

def Sleeper.awake : Sleeper := ⟨false, 0, false, false, false⟩

/-- Where an endpoint is in the pool. -/
abbrev Place := Core × EndpointSlot

structure IpcState where
  kernel : Kernel
  sched : Nat → Sleeper

namespace IpcState

def endpoint (s : IpcState) (p : Place) : IpcEndpoint := s.kernel.endpoints p.1 p.2

def setKernel (s : IpcState) (k : Kernel) : IpcState := { s with kernel := k }

def setEndpoint (s : IpcState) (p : Place) (ep : IpcEndpoint) : IpcState :=
  s.setKernel (s.kernel.setEndpoint p.1 p.2 ep)

def setSleeper (s : IpcState) (thread : Nat) (sleeper : Sleeper) : IpcState :=
  { s with sched := Function.update s.sched thread sleeper }

end IpcState

/-- `sched_wait_queue_dequeue`: the first thread that is blocked. The ones before it
fall out of the queue. -/
def dequeue (sched : Nat → Sleeper) (queue : List Nat) : Option Nat × List Nat :=
  match queue.dropWhile fun t => !(sched t).blocked with
  | [] => (none, [])
  | t :: rest => (some t, rest)

/-- The two wait queues of an endpoint. -/
inductive Side where
  | send | receive
  deriving DecidableEq, Repr

namespace IpcEndpoint

def queue (ep : IpcEndpoint) : Side → List Nat
  | .send => ep.senders
  | .receive => ep.receivers

def setQueue (ep : IpcEndpoint) (side : Side) (queue : List Nat) : IpcEndpoint :=
  match side with
  | .send => { ep with senders := queue }
  | .receive => { ep with receivers := queue }

def setQueues (ep : IpcEndpoint) (senders receivers : List Nat) : IpcEndpoint :=
  { ep with senders := senders, receivers := receivers }

def countQueued (ep : IpcEndpoint) : IpcEndpoint := { ep with queuedMsgs := ep.queuedMsgs + 1 }

def uncountQueued (ep : IpcEndpoint) : IpcEndpoint :=
  { ep with queuedMsgs := if 0 < ep.queuedMsgs then ep.queuedMsgs - 1 else ep.queuedMsgs }

def countDropped (ep : IpcEndpoint) : IpcEndpoint := { ep with droppedMsgs := ep.droppedMsgs + 1 }

def countTimeout (ep : IpcEndpoint) : IpcEndpoint := { ep with timeouts := ep.timeouts + 1 }

/-- What a thread counts that was woken by a timeout. -/
def countTimedOut (ep : IpcEndpoint) (wasQueued : Bool) : IpcEndpoint :=
  { ep.countTimeout with
    queuedMsgs := if wasQueued ∨ 0 < ep.queuedMsgs then ep.queuedMsgs - 1 else ep.queuedMsgs }

end IpcEndpoint

namespace IpcState

/-- Leave the endpoint as `ep` with the next thread of the queue taken out. -/
def dequeueAt (s : IpcState) (p : Place) (ep : IpcEndpoint) (side : Side) :
    IpcState × Option Nat :=
  let out := dequeue s.sched (ep.queue side)
  let s := s.setEndpoint p (ep.setQueue side out.2)
  match out.1 with
  | none => (s, none)
  | some t => (s.setSleeper t { s.sched t with turn := true }, some t)

/-- The thread goes to the end of the queue. -/
def enqueueAt (s : IpcState) (p : Place) (side : Side) (thread : Nat) (armed : Bool) : IpcState :=
  let ep := s.endpoint p
  (s.setEndpoint p (ep.setQueue side (ep.queue side ++ [thread])).countQueued).setSleeper thread
    { s.sched thread with wakeupReason := 0, armed := armed, turn := false }

/-- `sched_block`. -/
def block (s : IpcState) (thread : Nat) : IpcState :=
  s.setSleeper thread { s.sched thread with blocked := true }

/-- The waker's writes to a dequeued thread and its call of `sched_wakeup`. -/
def wake (s : IpcState) (thread : Nat) : IpcState :=
  s.setSleeper thread { s.sched thread with wakeupReason := 0, armed := false, waking := true }

/-- The thread has looked at its endpoint, or has left it. -/
def endTurn (s : IpcState) (thread : Nat) : IpcState :=
  s.setSleeper thread { s.sched thread with turn := false }

/-- What a thread does that was woken for another reason than its turn. -/
def leaveQueue (s : IpcState) (p : Place) (side : Side) (thread : Nat) : IpcState :=
  let ep := s.endpoint p
  let left := ep.setQueue side ((ep.queue side).erase thread)
  let left := if (s.sched thread).wakeupReason = -8 then
      left.countTimedOut (thread ∈ ep.queue side)
    else left
  (s.setEndpoint p left.tryReclaimLocked).endTurn thread

/-- What a thread does that was woken for its turn. -/
def countTurn (s : IpcState) (p : Place) : IpcState :=
  s.setEndpoint p (s.endpoint p).uncountQueued

end IpcState

/-- How long a call may wait: not at all, until a deadline, or for ever. -/
inductive IpcTimeout where
  | poll | deadline | forever
  deriving DecidableEq, Repr

/-! ## What the calls leave for others to see -/

/-- A capability that `bh_cap_transfer_install` made: its handle, and what the handle named
in the receiver's table at that time. -/
structure Installation where
  capId : BitVec 32
  named : Option CapabilityEntry
  deriving DecidableEq, Repr

/-- The capabilities that a receive call installed. -/
structure Installed where
  cap : Option Installation
  reply : Option Installation
  deriving DecidableEq, Repr

/-- `newly_installed_cap_id` and its companion: 0 if there is none. -/
def installedId : Option Installation → BitVec 32
  | none => 0
  | some made => made.capId

structure BhIpcReceiveEnvelope where
  version : BitVec 32
  structSize : BitVec 32
  validFields : BitVec 64
  senderPid : BitVec 64
  senderProcessObjectId : BitVec 64
  bootSessionId : BitVec 64
  serviceIncarnationId : BitVec 64
  senderCspaceId : BitVec 32
  senderOwnerCore : BitVec 32
  authorityCap : BitVec 32
  replySendCap : BitVec 32
  authorityObjectType : CapType
  authorityRights : CapRightsMask
  messageId : BitVec 64
  deliveryGeneration : BitVec 64
  deriving DecidableEq, Repr

/-- The bit of a field that is valid when its value is not zero. -/
def validBit (bit : Nat) (valid : Bool) : BitVec 64 := if valid then 1#64 <<< bit else 0

/-- A lone capability that can only be sent to is a reply capability. -/
def isReplyCap (prov : IpcProvenance) : Bool :=
  prov.capType == .endpoint && prov.capRights &&& capRightEndpointSend != 0 &&
    prov.capRights &&& capRightEndpointReceive == 0

/-- The envelope that a receive call fills in from what it claimed and installed. -/
def fillEnvelope (e : Enclosure) (made : Installed) : BhIpcReceiveEnvelope :=
  let prov := e.provenance
  let cap := installedId made.cap
  let reply := installedId made.reply
  let twoSlots := e.replyCapTransferId != 0
  let single := !twoSlots && cap != 0
  let asReply := single && isReplyCap prov
  let hasAuthority := if twoSlots then cap != 0 else single && !isReplyCap prov
  let hasReply := if twoSlots then reply != 0 else asReply
  { version := 1
    structSize := 96
    validFields := validBit 0 (prov.senderPid != 0) |||
      validBit 1 (prov.senderProcessObjectId != 0) ||| validBit 2 (prov.senderCspaceId != 0) |||
      validBit 3 true ||| validBit 4 (prov.bootSessionId != 0) |||
      validBit 5 (prov.serviceIncarnationId != 0) ||| validBit 6 hasAuthority |||
      validBit 7 hasReply ||| validBit 9 true
    senderPid := prov.senderPid
    senderProcessObjectId := prov.senderProcessObjectId
    bootSessionId := prov.bootSessionId
    serviceIncarnationId := prov.serviceIncarnationId
    senderCspaceId := prov.senderCspaceId
    senderOwnerCore := prov.senderOwnerCore
    authorityCap := if hasAuthority then cap else 0
    replySendCap := if twoSlots then reply else if asReply then cap else 0
    authorityObjectType := if hasAuthority then prov.capType else .none
    authorityRights := if hasAuthority then e.capTransferRights else 0
    messageId := 0
    deliveryGeneration := prov.deliveryGeneration }

/-- The two receive calls; the plain one may come without a place for a capability. -/
inductive ReceiveKind where
  | plain (wantsCap : Bool)
  | envelope
  deriving DecidableEq, Repr

/-- What a successful receive call has written for its caller, with the enclosure it
claimed. -/
structure Receipt where
  kind : ReceiveKind
  payload : List (BitVec 8)
  msgLen : BitVec 32
  installed : Installed
  envelope : Option BhIpcReceiveEnvelope
  deriving DecidableEq, Repr

inductive IpcEvent where
  | silent
  | opened (place : Place)
  | stored (place : Place) (objectRef : BitVec 64) (parcel : Parcel)
  | claimed (place : Place) (objectRef : BitVec 64)
  | taken (place : Place) (receipt : Receipt)

/-- One section of a call: the state it leaves, what others see of it, and the rest of
the call or the value it returns. -/
structure IpcStep (φ : Type) where
  state : IpcState
  event : IpcEvent
  next : φ ⊕ Int

/-- The end of a section that dequeued: wake the thread, if there is one, and return. -/
def wakeAndReturn {φ : Type} (waking : Nat → φ) (event : IpcEvent) (code : Int)
    (out : IpcState × Option Nat) : IpcStep φ :=
  ⟨out.1, event,
    match out.2 with
    | none => .inr code
    | some thread => .inl (waking thread)⟩

/-! ## `ipc_endpoint_send_ex` -/

/-- `BHARAT_IPC_ENDPOINT_PAYLOAD_MAX` of the default profile. -/
def ipcEndpointPayloadMax : Nat := 128

structure SendArgs where
  core : Core
  table : TableRef
  sendCap : BitVec 32
  payload : List (BitVec 8)
  timeout : IpcTimeout
  capToSend : BitVec 32
  capSendRights : CapRightsMask
  provenance : Option IpcProvenance

/-- The locals of a send call that has found its endpoint. The message fits. -/
structure SendFrame where
  args : SendArgs
  objectRef : BitVec 64
  place : Place
  rights : CapRightsMask
  type : CapType
  source : BhCapLocator
  replyRights : CapRightsMask
  replySource : BhCapLocator
  fits : args.payload.length ≤ ipcEndpointPayloadMax

namespace SendFrame

def replyCapToSend (f : SendFrame) : BitVec 32 :=
  match f.args.provenance with
  | none => 0
  | some prov => prov.replyCapToSend

/-- Rights that a reply capability may be sent with. -/
def replyAllowed (rights : CapRightsMask) : Bool :=
  rights &&& capRightEndpointSend != 0 &&
    rights &&& (capRightEndpointReceive ||| capRightDelegate) == 0

/-- What is stored with the bytes. -/
def enclosure (f : SendFrame) (generation : BitVec 32) : Enclosure where
  capTransferId := f.args.capToSend
  capTransferRights := if f.args.capToSend ≠ 0 then f.rights else 0
  capTransferSource := if f.args.capToSend ≠ 0 then f.source else capLocatorZero
  replyCapTransferId := f.replyCapToSend
  replyCapTransferRights := if f.replyCapToSend ≠ 0 then f.replyRights else 0
  replyCapTransferSource := if f.replyCapToSend ≠ 0 then f.replySource else capLocatorZero
  provenance :=
    let bound : IpcProvenance := match f.args.provenance with
      | none => .zero
      | some prov => if prov.hasProvenance then prov else .zero
    { bound with
      deliveryGeneration := generation.setWidth 64, capType := f.type, capRights := f.rights }

end SendFrame

/-- The writes that put a message into an endpoint. -/
def IpcEndpoint.store (ep : IpcEndpoint) (payload : List (BitVec 8)) (e : Enclosure) :
    IpcEndpoint :=
  { ep with
    msg := ⟨BitVec.ofNat 32 payload.length, payload ++ ep.msg.payload.drop payload.length,
      e.capTransferId, e.capTransferRights⟩
    capTransferSource := e.capTransferSource
    replyCapTransferId := e.replyCapTransferId
    replyCapTransferRights := e.replyCapTransferRights
    replyCapTransferSource := e.replyCapTransferSource
    provenance := e.provenance
    hasMsg := .queued }

/-- Where a send call is. From `recheck` on it is in the loop. -/
inductive SendPc where
  | describe | capture | checkReply | captureReply
  | recheck | recapture | recaptureReply
  | enter
  | block
  | asleep
  | wake (receiver : Nat)
  deriving DecidableEq, Repr

/-- Whether the caller's capability still names the endpoint the call started with. -/
def stillNames (k : Kernel) (table : TableRef) (capId : BitVec 32) (right : CapRightsMask)
    (objectRef : BitVec 64) : Bool :=
  match k.registry.capTableLookup table capId .endpoint right with
  | .error _ => false
  | .ok e => e.objectRef == objectRef

namespace SendArgs

/-- The checks before the endpoint is known, up to the end of the first lookup. -/
def start (k : Kernel) (args : SendArgs) : Except Int (BitVec 64) :=
  if (k.registry.table args.table).isNone ∨ args.payload = [] then .error (-1)
  else
    match k.registry.capTableLookup args.table args.sendCap .endpoint capRightEndpointSend with
    | .error _ => .error (-4)
    | .ok e => .ok e.objectRef

/-- The endpoint that the looked up reference names, and the length check. -/
def resolve (k : Kernel) (args : SendArgs) (objectRef : BitVec 64) : Except Int SendFrame :=
  match k.endpoints.endpointByRef objectRef with
  | none => .error (-1)
  | some place =>
    if fits : args.payload.length ≤ ipcEndpointPayloadMax then
      .ok ⟨args, objectRef, place, args.capSendRights, .none, capLocatorZero,
        match args.provenance with
        | none => 0
        | some prov => prov.replyCapSendRights, capLocatorZero, fits⟩
    else .error (-1)

end SendArgs

structure SendCall where
  frame : SendFrame
  pc : SendPc

namespace SendCall

/-- The section under the endpoint's lock. -/
def enter (thread : Nat) (expired : Bool) (s : IpcState) (f : SendFrame) : IpcStep SendCall :=
  let ep := s.endpoint f.place
  let looked := s.endTurn thread
  if ep.state ≠ .ready then ⟨looked, .silent, .inr (-7)⟩
  else if ep.hasMsg = .empty then
    let e := f.enclosure ep.generation
    wakeAndReturn (⟨f, .wake ·⟩)
      (.stored f.place f.objectRef ⟨f.args.payload, BitVec.ofNat 32 f.args.payload.length, e⟩) 0
      (looked.dequeueAt f.place (ep.store f.args.payload e) .receive)
  else if f.args.timeout = .poll then
    ⟨looked.setEndpoint f.place ep.countDropped, .silent, .inr (-3)⟩
  else if f.args.timeout = .deadline ∧ expired then
    ⟨looked.setEndpoint f.place ep.countTimeout, .silent, .inr (-8)⟩
  else
    ⟨looked.enqueueAt f.place .send thread (f.args.timeout = .deadline), .silent,
      .inl ⟨f, .block⟩⟩

/-- The capability to send, captured with the rights it is sent with. -/
def captured (k : Kernel) (f : SendFrame) : Except Int BhCapLocator :=
  k.registry.bhCapTransferCapture f.args.core f.args.table f.args.capToSend f.rights

def capturedReply (k : Kernel) (f : SendFrame) : Except Int BhCapLocator :=
  k.registry.bhCapTransferCapture f.args.core f.args.table f.replyCapToSend f.replyRights

/-- The type of the capability to send, and its rights where the caller named none. A
failed lookup is left for the capture to report. -/
def described (k : Kernel) (f : SendFrame) : SendFrame :=
  match k.registry.capTableLookup f.args.table f.args.capToSend .none f.rights with
  | .error _ => f
  | .ok e => { f with type := e.type, rights := if f.rights = 0 then e.rights else f.rights }

/-- The rights of the reply capability where the caller named none. -/
def withReplyRights (f : SendFrame) : SendFrame :=
  { f with replyRights := if f.replyRights = 0 then capRightEndpointSend else f.replyRights }

/-- The reply capability may be sent with these rights. -/
def replyChecked (k : Kernel) (f : SendFrame) : Bool :=
  SendFrame.replyAllowed f.replyRights &&
    (k.registry.capTableLookup f.args.table f.replyCapToSend .endpoint
      capRightEndpointSend).toOption.isSome

/-- One section of a send call; `expired` is what the deadline check answers. -/
def step (thread : Nat) (expired : Bool) (s : IpcState) (call : SendCall) : IpcStep SendCall :=
  let f := call.frame
  let goto : SendFrame → SendPc → IpcStep SendCall := fun f pc => ⟨s, .silent, .inl ⟨f, pc⟩⟩
  let fail : Int → IpcStep SendCall := fun code => ⟨s.endTurn thread, .silent, .inr code⟩
  match call.pc with
  | .describe =>
    if f.args.capToSend = 0 then goto f .checkReply else goto (described s.kernel f) .capture
  | .capture =>
    match captured s.kernel f with
    | .error _ => fail (-5)
    | .ok source => goto { f with source := source } .checkReply
  | .checkReply =>
    if f.replyCapToSend = 0 then goto f .recheck
    else
      let f := withReplyRights f
      if replyChecked s.kernel f then goto f .captureReply else fail (-5)
  | .captureReply =>
    match capturedReply s.kernel f with
    | .error _ => fail (-5)
    | .ok source => goto { f with replySource := source } .recheck
  | .recheck =>
    if stillNames s.kernel f.args.table f.args.sendCap capRightEndpointSend f.objectRef then
      goto f .recapture
    else fail (-4)
  | .recapture =>
    if f.args.capToSend = 0 then goto f .recaptureReply
    else
      match captured s.kernel f with
      | .error _ => fail (-5)
      | .ok source => goto { f with source := source } .recaptureReply
  | .recaptureReply =>
    if f.replyCapToSend = 0 then goto f .enter
    else
      match capturedReply s.kernel f with
      | .error _ => fail (-5)
      | .ok source => goto { f with replySource := source } .enter
  | .enter => enter thread expired s f
  | .block => ⟨s.block thread, .silent, .inl ⟨f, .asleep⟩⟩
  | .asleep =>
    if (s.sched thread).wakeupReason ≠ 0 then
      ⟨s.leaveQueue f.place .send thread, .silent, .inr (s.sched thread).wakeupReason⟩
    else ⟨s.countTurn f.place, .silent, .inl ⟨f, .recheck⟩⟩
  | .wake receiver => ⟨s.wake receiver, .silent, .inr 0⟩

end SendCall

/-! ## `ipc_endpoint_receive` and `ipc_endpoint_receive_envelope` -/

structure ReceiveArgs where
  core : Core
  table : TableRef
  recvCap : BitVec 32
  capacity : BitVec 32
  timeout : IpcTimeout
  kind : ReceiveKind
  deriving DecidableEq, Repr

structure ReceiveFrame where
  args : ReceiveArgs
  objectRef : BitVec 64
  place : Place
  deriving DecidableEq, Repr

/-- Where a receive call is. From `install` to `commit` it holds a claim on the
message, with a copy of the enclosure. -/
inductive ReceivePc where
  | recheck
  | enter
  | block
  | asleep
  | install (claim : Enclosure)
  | installReply (claim : Enclosure) (cap : Option Installation)
  | rollback (claim : Enclosure) (code : Int) (capId : BitVec 32) (revoking : Option RevokeCall)
  | commit (claim : Enclosure) (outcome : Except Int Installed)
  | undo (pending : List (BitVec 32)) (revoking : Option RevokeCall)
  | wake (thread : Nat) (code : Int)

namespace ReceiveArgs

/-- The checks before the endpoint is known, up to the end of the first lookup. -/
def start (k : Kernel) (args : ReceiveArgs) : Except Int (BitVec 64) :=
  if (k.registry.table args.table).isNone ∨ args.capacity = 0 then .error (-1)
  else
    match k.registry.capTableLookup args.table args.recvCap .endpoint capRightEndpointReceive with
    | .error _ => .error (-4)
    | .ok e => .ok e.objectRef

def resolve (k : Kernel) (args : ReceiveArgs) (objectRef : BitVec 64) : Except Int ReceiveFrame :=
  match k.endpoints.endpointByRef objectRef with
  | none => .error (-1)
  | some place => .ok ⟨args, objectRef, place⟩

end ReceiveArgs

structure ReceiveCall where
  frame : ReceiveFrame
  pc : ReceivePc

/-- The writes that claim a message. -/
def IpcEndpoint.claim (ep : IpcEndpoint) : IpcEndpoint :=
  { ep with hasMsg := .claimed, activeClaims := ep.activeClaims + 1 }

/-- A claim is given back first of all, whatever becomes of the message. -/
def IpcEndpoint.unclaim (ep : IpcEndpoint) : IpcEndpoint :=
  { ep with activeClaims := if 0 < ep.activeClaims then ep.activeClaims - 1 else ep.activeClaims }

namespace ReceiveCall

/-- The section under the endpoint's lock that claims a message. -/
def enter (thread : Nat) (expired : Bool) (s : IpcState) (f : ReceiveFrame) :
    IpcStep ReceiveCall :=
  let ep := s.endpoint f.place
  let looked := s.endTurn thread
  if ep.state ≠ .ready then ⟨looked, .silent, .inr (-7)⟩
  else if ep.hasMsg = .queued then
    if f.args.capacity < ep.msg.msgLen then ⟨looked, .silent, .inr (-2)⟩
    else
      ⟨looked.setEndpoint f.place ep.claim, .claimed f.place f.objectRef,
        .inl ⟨f, .install ep.enclosure⟩⟩
  else if f.args.timeout = .poll then ⟨looked, .silent, .inr (-3)⟩
  else if f.args.timeout = .deadline ∧ expired then
    ⟨looked.setEndpoint f.place ep.countTimeout, .silent, .inr (-8)⟩
  else
    ⟨looked.enqueueAt f.place .receive thread (f.args.timeout = .deadline), .silent,
      .inl ⟨f, .block⟩⟩

/-- `bh_cap_transfer_install` into the receiver's table. -/
def installCap (k : Kernel) (args : ReceiveArgs) (source : BhCapLocator)
    (rights : CapRightsMask) : Kernel × Except Int Installation :=
  match k.bhCapTransferInstall args.core source args.table rights with
  | (k, .ok capId) =>
    (k, .ok ⟨capId, (k.registry.findIndex args.table capId).map k.registry.entry⟩)
  | (k, .error code) => (k, .error code)

/-- Whether the call installs the message's first capability. -/
def wantsCap : ReceiveKind → Bool
  | .plain wants => wants
  | .envelope => true

/-- The capabilities to take back when the endpoint closed under a claim. -/
def newlyInstalled : Except Int Installed → List (BitVec 32)
  | .error _ => []
  | .ok made => [installedId made.cap, installedId made.reply].filter (· ≠ 0)

/-- What the call writes for its caller. -/
def receipt (f : ReceiveFrame) (ep : IpcEndpoint) (claim : Enclosure) (made : Installed) :
    Receipt where
  kind := f.args.kind
  payload := ep.msg.payload.take ep.msg.msgLen.toNat
  msgLen := ep.msg.msgLen
  installed := made
  envelope := if f.args.kind = .envelope then some (fillEnvelope claim made) else none

/-- The section under the endpoint's lock that ends a claim. -/
def commit (s : IpcState) (f : ReceiveFrame) (claim : Enclosure)
    (outcome : Except Int Installed) : IpcStep ReceiveCall :=
  let ep := (s.endpoint f.place).unclaim
  if ep.state ≠ .ready then
    ⟨s.setEndpoint f.place ep.clearMsgLocked.tryReclaimLocked, .silent,
      .inl ⟨f, .undo (newlyInstalled outcome) none⟩⟩
  else
    match outcome with
    | .error code =>
      if code = -19 then
        wakeAndReturn (⟨f, .wake · (-6)⟩) .silent (-6)
          (s.dequeueAt f.place { ep with hasMsg := .queued } .receive)
      else
        wakeAndReturn (⟨f, .wake · (-6)⟩) .silent (-6)
          (s.dequeueAt f.place ep.clearMsgLocked .send)
    | .ok made =>
      wakeAndReturn (⟨f, .wake · 0⟩) (.taken f.place (receipt f ep claim made)) 0
        (s.dequeueAt f.place ep.clearMsgLocked .send)

/-- Only the envelope brings a reply capability. -/
def afterInstall (kind : ReceiveKind) (claim : Enclosure) (cap : Option Installation) :
    ReceivePc :=
  match kind with
  | .plain _ => .commit claim (.ok ⟨cap, none⟩)
  | .envelope => .installReply claim cap

/-- The capability installed first is taken back before the claim ends. -/
def afterReply (claim : Enclosure) (cap : Option Installation) (code : Int) : ReceivePc :=
  if installedId cap = 0 then .commit claim (.error code)
  else .rollback claim code (installedId cap) none

/-- One section of a receive call; `expired` is what a deadline check answers. -/
def step (thread : Nat) (expired : Bool) (s : IpcState) (call : ReceiveCall) :
    IpcStep ReceiveCall :=
  let f := call.frame
  let goto : Kernel → ReceivePc → IpcStep ReceiveCall :=
    fun k pc => ⟨s.setKernel k, .silent, .inl ⟨f, pc⟩⟩
  match call.pc with
  | .recheck =>
    if stillNames s.kernel f.args.table f.args.recvCap capRightEndpointReceive f.objectRef then
      goto s.kernel .enter
    else ⟨s.endTurn thread, .silent, .inr (-4)⟩
  | .enter => enter thread expired s f
  | .block => ⟨s.block thread, .silent, .inl ⟨f, .asleep⟩⟩
  | .asleep =>
    if (s.sched thread).wakeupReason ≠ 0 then
      ⟨s.leaveQueue f.place .receive thread, .silent, .inr (s.sched thread).wakeupReason⟩
    else ⟨s.countTurn f.place, .silent, .inl ⟨f, .recheck⟩⟩
  | .install claim =>
    if claim.capTransferId ≠ 0 ∧ wantsCap f.args.kind then
      match installCap s.kernel f.args claim.capTransferSource claim.capTransferRights with
      | (k, .ok made) => goto k (afterInstall f.args.kind claim (some made))
      | (k, .error code) => goto k (.commit claim (.error code))
    else goto s.kernel (afterInstall f.args.kind claim none)
  | .installReply claim cap =>
    if claim.replyCapTransferId ≠ 0 then
      match installCap s.kernel f.args claim.replyCapTransferSource
          claim.replyCapTransferRights with
      | (k, .ok made) => goto k (.commit claim (.ok ⟨cap, some made⟩))
      | (k, .error code) => goto k (afterReply claim cap code)
    else goto s.kernel (.commit claim (.ok ⟨cap, none⟩))
  | .rollback claim code capId none =>
    match s.kernel.capTableRevoke f.args.core f.args.table capId with
    | (k, .inl revoking) => goto k (.rollback claim code capId (some revoking))
    | (k, .inr _) => goto k (.commit claim (.error code))
  | .rollback claim code capId (some revoking) =>
    match revoking.step expired s.kernel with
    | (k, .inl revoking) => goto k (.rollback claim code capId (some revoking))
    | (k, .inr _) => goto k (.commit claim (.error code))
  | .commit claim outcome => commit s f claim outcome
  | .undo [] none => ⟨s, .silent, .inr (-7)⟩
  | .undo (capId :: rest) none =>
    match s.kernel.capTableRevoke f.args.core f.args.table capId with
    | (k, .inl revoking) => goto k (.undo rest (some revoking))
    | (k, .inr _) => goto k (.undo rest none)
  | .undo pending (some revoking) =>
    match revoking.step expired s.kernel with
    | (k, .inl revoking) => goto k (.undo pending (some revoking))
    | (k, .inr _) => goto k (.undo pending none)
  | .wake woken code => ⟨s.wake woken, .silent, .inr code⟩

end ReceiveCall

/-! ## `ipc_endpoint_create` -/

structure EndpointCreateFrame where
  core : Core
  table : TableRef
  slot : EndpointSlot
  objectRef : BitVec 64
  deriving DecidableEq, Repr

inductive EndpointCreatePc where
  | grantSend
  | grantRecv (sendCap : BitVec 32)
  | undo (sendCap : BitVec 32) (revoking : Option RevokeCall)
  | discard
  deriving DecidableEq, Repr

structure EndpointCreateCall where
  frame : EndpointCreateFrame
  pc : EndpointCreatePc
  deriving DecidableEq, Repr

namespace EndpointCreateCall

/-- Up to the slot that is opened. -/
def start (s : IpcState) (core : Core) (table : TableRef) : IpcStep EndpointCreateCall :=
  match s.kernel.registry.table table with
  | none => ⟨s, .silent, .inr (-1)⟩
  | some t =>
    if t.ownerCore ≠ core then ⟨s, .silent, .inr (-4)⟩
    else
      match s.kernel.endpoints.freeSlot core with
      | none => ⟨s, .silent, .inr (-2)⟩
      | some i =>
        let ep := (s.endpoint (core, i)).opened core
        ⟨s.setEndpoint (core, i) ep, .opened (core, i),
          .inl ⟨⟨core, table, i, endpointMakeRef core i ep.generation⟩, .grantSend⟩⟩

/-- One section of a create call. -/
def step (expired : Bool) (s : IpcState) (call : EndpointCreateCall) : IpcStep EndpointCreateCall :=
  let f := call.frame
  let goto : Kernel → EndpointCreatePc → IpcStep EndpointCreateCall :=
    fun k pc => ⟨s.setKernel k, .silent, .inl ⟨f, pc⟩⟩
  match call.pc with
  | .grantSend =>
    match s.kernel.capTableGrant f.core f.table .endpoint f.objectRef
        (capRightEndpointSend ||| capRightDelegate) with
    | (k, .ok sendCap) => goto k (.grantRecv sendCap)
    | (k, .error _) => goto k .discard
  | .grantRecv sendCap =>
    match s.kernel.capTableGrant f.core f.table .endpoint f.objectRef
        (capRightEndpointReceive ||| capRightDelegate) with
    | (k, .ok _) => ⟨s.setKernel k, .silent, .inr 0⟩
    | (k, .error _) => goto k (.undo sendCap none)
  | .undo sendCap none =>
    match s.kernel.capTableRevoke f.core f.table sendCap with
    | (k, .inl revoking) => goto k (.undo sendCap (some revoking))
    | (k, .inr _) => goto k .discard
  | .undo sendCap (some revoking) =>
    match revoking.step expired s.kernel with
    | (k, .inl revoking) => goto k (.undo sendCap (some revoking))
    | (k, .inr _) => goto k .discard
  | .discard =>
    ⟨s.setEndpoint (f.core, f.slot) (s.endpoint (f.core, f.slot)).discarded, .silent, .inr (-2)⟩

end EndpointCreateCall

end BharatOS
