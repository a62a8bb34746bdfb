import BharatOS.Fabric.Wire

/-!
# Sending and dispatching (`mk_fabric.c`, `mk_transaction.c`, `mk_endpoint.c`, `mk_replay.c`)

Each core has three ingress lanes, a table of transactions, a table of bound endpoints and a cache
of the messages it saw. A complete call of core `core` is one step.
-/

namespace BharatOS

open Function RingSystem

structure BhMkTxHandle where
  slot : BitVec 32
  generation : BitVec 32
  deriving DecidableEq, Repr

inductive BhMkTxnState where
  | free | reserved | published | sent | waiting | acked | nacked | timedOut | cancelled | reaped
  deriving DecidableEq, Repr

/-- The state that a result leads to. -/
def BhMkTxnState.ofResult (result : Int) : BhMkTxnState :=
  if result = 0 then .acked else if result = -7 then .timedOut else .cancelled

structure BhMkTxEntry where
  generation : BitVec 32
  state : BhMkTxnState
  deadlineTicks : BitVec 64
  result : Int
  dstCore : BitVec 32
  dstEndpoint : BitVec 64
  msgClass : BitVec 16
  opcode : BitVec 16
  legacyTxnId : BitVec 64
  inUse : Bool
  deriving DecidableEq, Repr

/-- What the cache remembers of a message. -/
structure BhMkReplayKey where
  srcCore : BitVec 32
  srcEndpoint : BitVec 64
  srcEndpointGen : BitVec 32
  txnSlot : BitVec 32
  txnGen : BitVec 32
  msgClass : BitVec 16
  opcode : BitVec 16
  sequence : BitVec 64
  deriving DecidableEq, Repr

structure BhMkReplayCache where
  entries : Fin 64 → BhMkReplayKey
  head : Fin 64

structure BhMkEndpointEntry where
  messageClass : BitVec 32
  opcode : BitVec 32
  generation : BitVec 32
  bound : Bool
  deriving DecidableEq, Repr

structure BhMkCoreFabric where
  lanes : BhMkLane → Lane BhMkWireMessage
  txns : Fin 128 → BhMkTxEntry
  replay : BhMkReplayCache
  endpoints : Fin 64 → BhMkEndpointEntry
  txSequence : BitVec 32
  ready : Bool
  generation : BitVec 32

/-- The fabric of all cores, their pending bits and the time. -/
structure Fabric where
  cores : FabricCore → BhMkCoreFabric
  pendingLanes : FabricCore → BitVec 32
  ticks : BitVec 64

def BhMkTxEntry.zero : BhMkTxEntry :=
  ⟨1, .free, 0, 0, 0, 0, 0, 0, 0, false⟩

def bhMkFabricInit (profile : BharatProfile) : Fabric where
  cores := fun _ =>
    { lanes := fun lane => .empty (bhMkLaneCap profile lane)
      txns := fun _ => .zero
      replay := ⟨fun _ => ⟨0xFFFFFFFF, 0xFFFFFFFF, 0, 0, 0, 0, 0, 0⟩, 0⟩
      endpoints := fun _ => ⟨0, 0, 1, false⟩
      txSequence := 1
      ready := true
      generation := 1 }
  pendingLanes := fun _ => 0
  ticks := 0

namespace Fabric

def setCore (F : Fabric) (core : FabricCore) (f : BhMkCoreFabric) : Fabric :=
  { F with cores := update F.cores core f }

def lane (F : Fabric) (core : FabricCore) (lane : BhMkLane) : Lane BhMkWireMessage :=
  (F.cores core).lanes lane

def setLane (F : Fabric) (core : FabricCore) (lane : BhMkLane) (l : Lane BhMkWireMessage) : Fabric :=
  F.setCore core
    { F.cores core with lanes := update (F.cores core).lanes lane l }

def setTxn (F : Fabric) (core : FabricCore) (slot : Fin 128) (entry : BhMkTxEntry) : Fabric :=
  F.setCore core { F.cores core with txns := update (F.cores core).txns slot entry }

def txn (F : Fabric) (core : FabricCore) (slot : Fin 128) : BhMkTxEntry := (F.cores core).txns slot

variable (F : Fabric) (core : FabricCore)

theorem lane_setLane (k : BhMkLane) (l : Lane BhMkWireMessage) (c : FabricCore) (k' : BhMkLane) :
    (F.setLane core k l).lane c k' = if c = core ∧ k' = k then l else F.lane c k' := by
  unfold lane setLane setCore
  by_cases is : c = core
  · subst is
    by_cases same : k' = k
    · subst same
      simp
    · simp [same]
  · simp [is]

theorem txn_setTxn (slot : Fin 128) (entry : BhMkTxEntry) (c : FabricCore) (i : Fin 128) :
    (F.setTxn core slot entry).txn c i = if c = core ∧ i = slot then entry else F.txn c i := by
  unfold txn setTxn setCore
  by_cases is : c = core
  · subst is
    by_cases same : i = slot
    · subst same
      simp
    · simp [same]
  · simp [is]

/-! ## Transactions -/

def bhMkTxAlloc (F : Fabric) (core : FabricCore) (dstCore : BitVec 32) (dstEndpoint : BitVec 64)
    (msgClass opcode : BitVec 16) (deadlineTicks : BitVec 64) : Option (Fabric × BhMkTxHandle) :=
  match (List.finRange 128).find? fun slot => !(F.txn core slot).inUse with
  | none => none
  | some slot =>
    let entry := F.txn core slot
    some (F.setTxn core slot
      { entry with
        inUse := true
        state := .reserved
        dstCore := dstCore
        dstEndpoint := dstEndpoint
        msgClass := msgClass
        opcode := opcode
        deadlineTicks := deadlineTicks
        result := 0
        legacyTxnId := 0 }, ⟨BitVec.ofNat 32 slot, entry.generation⟩)

/-- The record that a handle names, if the transaction is still the same. -/
def txnOf (F : Fabric) (core : FabricCore) (handle : BhMkTxHandle) : Except Int (Fin 128) :=
  if h : handle.slot.toNat < 128 then
    let entry := F.txn core ⟨handle.slot.toNat, h⟩
    if entry.inUse = false ∨ entry.generation ≠ handle.generation then .error (-775)
    else .ok ⟨handle.slot.toNat, h⟩
  else .error (-1)

def bhMkTxComplete (F : Fabric) (core : FabricCore) (handle : BhMkTxHandle)
    (expectedSourceCore : BitVec 32) (expectedSourceEndpoint : BitVec 64) (result : Int) :
    Fabric × Int :=
  match F.txnOf core handle with
  | .error code => (F, code)
  | .ok slot =>
    let entry := F.txn core slot
    if entry.dstCore ≠ expectedSourceCore then (F, -16)
    else if entry.dstEndpoint ≠ expectedSourceEndpoint then (F, -16)
    else
      (F.setTxn core slot { entry with state := BhMkTxnState.ofResult result, result := result }, 0)

/-- `bh_mk_tx_reap`, with the result it reports. -/
def bhMkTxReap (F : Fabric) (core : FabricCore) (handle : BhMkTxHandle) : Fabric × Except Int Int :=
  match F.txnOf core handle with
  | .error code => (F, .error code)
  | .ok slot =>
    let entry := F.txn core slot
    (F.setTxn core slot
      { entry with state := .free, generation := entry.generation + 1, inUse := false },
      .ok entry.result)

/-! ## Endpoints -/

/-- `bh_mk_endpoint_bind`; the handler and its context are not looked at. -/
def bhMkEndpointBind (F : Fabric) (core : FabricCore) (messageClass opcode : BitVec 32) :
    Fabric × Except Int (BitVec 64) :=
  let f := F.cores core
  match (List.finRange 64).find? fun slot => !(f.endpoints slot).bound with
  | none => (F, .error (-19))
  | some slot =>
    let generation := (f.endpoints slot).generation + 1
    let write (bound : Bool) : Fabric :=
      F.setCore core
        { f with
          endpoints := update f.endpoints slot ⟨messageClass, opcode, generation, bound⟩ }
    match bhMkHandlePack (BitVec.ofNat 32 core) f.generation generation (BitVec.ofNat 32 slot) with
    | none => (write false, .error (-1))
    | some handle => (write true, .ok handle)

def bhMkEndpointUnbind (F : Fabric) (core : FabricCore) (handle : BitVec 64) : Fabric × Int :=
  match bhMkHandleUnpack handle with
  | .error code => (F, code)
  | .ok h =>
    let f := F.cores core
    let entry := f.endpoints h.slot
    if h.coreId ≠ core then (F, -516)
    else if entry.bound = false ∨ entry.generation ≠ h.epGen then (F, -775)
    else
      (F.setCore core
        { f with endpoints := update f.endpoints h.slot { entry with bound := false } }, 0)

/-- `bh_mk_endpoint_resolve` reads the table of the core that the handle names, whoever
calls it. -/
def bhMkEndpointResolve (F : Fabric) (handle : BitVec 64) : Except Int BhMkEndpointEntry :=
  match bhMkHandleUnpack handle with
  | .error code => .error code
  | .ok h =>
    let entry := (F.cores h.coreId).endpoints h.slot
    if entry.bound = false ∨ entry.generation ≠ h.epGen then .error (-775) else .ok entry

/-! ## Sending -/

/-- `bh_mk_notify_destination`; the doorbell rings if no bit was set. -/
def bhMkNotifyDestination (F : Fabric) (dstCore : FabricCore) (lane : BhMkLane) : Fabric :=
  { F with
    pendingLanes := update F.pendingLanes dstCore
      (F.pendingLanes dstCore ||| 1#32 <<< lane.code) }

/-- Where a destination handle leads. -/
structure Route where
  dstCore : FabricCore
  expectedCoreGen : BitVec 32
  dstEpGen : BitVec 32
  deriving DecidableEq, Repr

def routeOf (destination : BitVec 64) : Except Int Route :=
  if destination = bhMkEndpointLegacy then .ok ⟨0, 0, 0⟩
  else if destination &&& 0xFFFFFFFFFFFFFF#64 = bhMkEndpointLegacy then
    .ok ⟨Fin.ofNat 256 (destination >>> 24 &&& 0xFF).toNat, 0, 0⟩
  else (bhMkHandleUnpack destination).map fun h => ⟨h.coreId, h.coreGen, h.epGen⟩

/-- The arguments of `bh_mk_send`; a NULL payload is `none`. -/
structure SendArgs where
  source : BitVec 64
  destination : BitVec 64
  messageClass : BitVec 16
  opcode : BitVec 16
  lane : BhMkLane
  payload : Option (List (BitVec 8))
  payloadSize : BitVec 32
  wantsTransaction : Bool
  deriving DecidableEq, Repr

/-- The generation of the source endpoint, which a legacy source does not have. -/
def sourceGeneration (F : Fabric) (source : BitVec 64) : Except Int (BitVec 32) :=
  if source = bhMkEndpointLegacy then .ok 0 else (F.bhMkEndpointResolve source).map (·.generation)

/-- The checks of `bh_mk_send` before it changes anything. -/
def sendRoute (F : Fabric) (args : SendArgs) : Except Int (Route × BitVec 32) :=
  if 0 < args.payloadSize ∧ args.payload = none then .error (-1)
  else if 128 < args.payloadSize then .error (-11)
  else
    match F.sourceGeneration args.source with
    | .error code => .error code
    | .ok srcEpGen =>
      match routeOf args.destination with
      | .error code => .error code
      | .ok route =>
        let dst := F.cores route.dstCore
        if dst.ready = false then .error (-1538)
        else if isLegacy args.destination = false ∧ route.expectedCoreGen ≠ dst.generation &&& 0xFF then
          .error (-775)
        else .ok (route, srcEpGen)

def sendMessage (F : Fabric) (core : FabricCore) (args : SendArgs) (route : Route)
    (srcEpGen : BitVec 32) (handle : Option BhMkTxHandle) : BhMkWireMessage where
  header :=
    { abiVersion := 1
      headerSize := 96
      messageClass := args.messageClass
      opcode := args.opcode
      flags := 0
      payloadSize := args.payloadSize
      srcCore := BitVec.ofNat 32 core
      dstCore := BitVec.ofNat 32 route.dstCore
      srcEndpoint := args.source
      srcEndpointGeneration := srcEpGen
      dstEndpoint := args.destination
      dstEndpointGeneration := route.dstEpGen
      txnSlot := (handle.map (·.slot)).getD noTransaction
      txnGeneration := (handle.map (·.generation)).getD 0xFFFFFFFF
      sequence := BitVec.ofNat 64 core <<< 32 ||| (F.cores core).txSequence.setWidth 64
      deadlineTicks := F.ticks + 1000
      reserved := 0 }
  payload := (args.payload.getD []).take args.payloadSize.toNat

/-- The transaction that the caller asked for. -/
def sendTransaction (F : Fabric) (core : FabricCore) (args : SendArgs) (route : Route) :
    Option (Fabric × Option BhMkTxHandle) :=
  if args.wantsTransaction then
    (F.bhMkTxAlloc core (BitVec.ofNat 32 route.dstCore) args.destination args.messageClass args.opcode
      (F.ticks + 1000)).map fun (G, handle) => (G, some handle)
  else some (F, none)

def bumpSequence (F : Fabric) (core : FabricCore) : Fabric :=
  F.setCore core { F.cores core with txSequence := (F.cores core).txSequence + 1 }

def giveUpTransaction (F : Fabric) (core : FabricCore) : Option BhMkTxHandle → Fabric
  | none => F
  | some handle => (F.bhMkTxReap core handle).1

/-- `bh_mk_send`. Nothing changes the destination's generation during the call, so the
second look at it finds what the first one found. -/
def bhMkSend (F : Fabric) (core : FabricCore) (args : SendArgs) :
    Fabric × Except Int (Option BhMkTxHandle) :=
  match F.sendRoute args with
  | .error code => (F, .error code)
  | .ok (route, srcEpGen) =>
    match F.sendTransaction core args route with
    | none => (F, .error (-19))
    | some (G, handle) =>
      let msg := F.sendMessage core args route srcEpGen handle
      let H := G.bumpSequence core
      match (H.lane route.dstCore args.lane).enqueue msg with
      | none => (H.giveUpTransaction core handle, .error (-6))
      | some l =>
        ((H.setLane route.dstCore args.lane l).bhMkNotifyDestination route.dstCore args.lane,
          .ok handle)

/-! ## Dispatching -/

/-- `bh_mk_send_error_reply`. The error code is not part of the reply. -/
def bhMkSendErrorReply (F : Fabric) (core : FabricCore) (orig : BhMkWireMessage) : Fabric :=
  let reply : BhMkWireMessage :=
    { header :=
        { abiVersion := 1
          headerSize := 96
          messageClass := orig.header.messageClass
          opcode := orig.header.opcode
          flags := mkMsgFlagIsReply ||| mkMsgFlagError
          payloadSize := 0
          srcCore := BitVec.ofNat 32 core
          dstCore := orig.header.srcCore
          srcEndpoint := orig.header.dstEndpoint
          srcEndpointGeneration := 0
          dstEndpoint := orig.header.srcEndpoint
          dstEndpointGeneration := 0
          txnSlot := orig.header.txnSlot
          txnGeneration := orig.header.txnGeneration
          sequence := 0
          deadlineTicks := F.ticks + 1000
          reserved := 0 }
      payload := [] }
  if h : orig.header.srcCore.toNat < 256 then
    let dst : FabricCore := ⟨orig.header.srcCore.toNat, h⟩
    match (F.lane dst .control).enqueue reply with
    | none => F.bhMkNotifyDestination dst .control
    | some l => (F.setLane dst .control l).bhMkNotifyDestination dst .control
  else F

def replayKey (msg : BhMkWireMessage) : BhMkReplayKey :=
  let h := msg.header
  ⟨h.srcCore, h.srcEndpoint, h.srcEndpointGeneration, h.txnSlot, h.txnGeneration, h.messageClass,
    h.opcode, h.sequence⟩

/-- `bh_mk_replay_check_and_add`; `none` is a duplicate. -/
def bhMkReplayCheckAndAdd (F : Fabric) (core : FabricCore) (msg : BhMkWireMessage) : Option Fabric :=
  let f := F.cores core
  if ∃ i, f.replay.entries i = replayKey msg then none
  else some (F.setCore core
    { f with
      replay := ⟨update f.replay.entries f.replay.head (replayKey msg), f.replay.head + 1⟩ })

/-- What the dispatcher does with a message that is valid and new. -/
def dispatchNew (F : Fabric) (core : FabricCore) (msg : BhMkWireMessage) : Fabric :=
  let h := msg.header
  if h.flags &&& mkMsgFlagIsReply ≠ 0 then
    (F.bhMkTxComplete core ⟨h.txnSlot, h.txnGeneration⟩ h.srcCore h.srcEndpoint 0).1
  else if isLegacy h.dstEndpoint then F
  else
    match F.bhMkEndpointResolve h.dstEndpoint with
    | .error _ => if h.txnSlot ≠ noTransaction then F.bhMkSendErrorReply core msg else F
    | .ok _ => F

/-- `bh_mk_dispatch_internal`. What a handler sends is a step of its own. -/
def bhMkDispatchInternal (F : Fabric) (core : FabricCore) (msg : BhMkWireMessage) : Fabric :=
  if bhMkWireValidate F.ticks msg ≠ 0 then F
  else
    match F.bhMkReplayCheckAndAdd core msg with
    | none => F
    | some G => G.dispatchNew core msg

/-- A lane is such a ring: between calls it holds a queue, and the next call does to it what it does
to the queue. -/
theorem lane_shown (profile : BharatProfile) (core : FabricCore) (k : BhMkLane) (n : Nat)
    (zero : BhMkWireMessage) :
    let size := BitVec.ofNat 32 (bhMkLaneCap profile k)
    ∃ ring, bhMkMpscRingInit zero size = some ring ∧
      Shows size (start (n + 1) ring) ((bhMkFabricInit profile).lane core k) ∧
      ∀ s, Run Steps (fun _ _ => True) (start (n + 1) ring) s → (∀ i, s.producers i = none) →
        s.consumer = none → ∃ lane, Shows size s lane ∧
          (∀ message, EnqueueShown size s lane message) ∧ DequeueShown size s lane := by
  intro size
  have value : size.toNat = bhMkLaneCap profile k := by cases profile <;> cases k <;> rfl
  have power : ∃ j < 31, size.toNat = 2 ^ j := value ▸ laneCap_powerOfTwo
  obtain ⟨ring, made⟩ := Option.isSome_iff_exists.mp ((@init_isSome_iff _ zero _).mpr power)
  have shown := shows_start (n := n + 1) made
  rw [value] at shown
  refine ⟨ring, made, shown, fun s run producers consumer => ?_⟩
  have coherent := run.invariant _ shown.coherent fun _ _ _ h _ steps => h.step power steps
  obtain ⟨lane, shows⟩ := shows_quiet coherent producers consumer
  exact ⟨lane, shows, fun _ => shows.enqueue_shown power 0, shows.dequeue_shown power⟩

end Fabric

end BharatOS
