import BharatOS.Sched.RunQueue

/-!
# Scheduler calls that may concern another core (`sched_core.c`, `sched_migrate.c`, ...)

A call for a thread that another core owns puts a command into the ring of that core. Each call is
made by the core that is its first argument, and returns the status of the source.
-/

namespace BharatOS

def kErrBadState : Int := -2

def kErrNoResources : Int := -19

def kErrInProgress : Int := -20

def kErrBadThread : Int := -513

def kErrIsolated : Int := -519

def kErrInvalidCpu : Int := -520

namespace SchedSystem

variable (cfg : SchedConfig)

/-! ## Sending a command -/

/-- `sched_allocate_outbound_cmd` finds a free command. -/
def hasOutboundCmd (s : SchedSystem) (core : Nat) : Bool :=
  (s.mail.cmds.filter (·.envelope.originCpu = core)).length < schedRemoteCmdCapacity

/-- `sched_remote_submit`, and its status. -/
def schedRemoteSubmit (s : SchedSystem) (core dst : Nat) (cmd : SchedEnvelope) :
    SchedSystem × Int :=
  if cfg.count ≤ dst then (s, kErrInvalidCpu)
  else if dst = core then (s, -1)
  else if schedRemoteCmdCapacity ≤ (s.mail.inbox dst).length then (s, kErrNoResources)
  else
    let envelope := { cmd with handle := s.mail.nextHandle, originCpu := core }
    ({ s with mail := {
        cmds := s.mail.cmds ++ [{ envelope := envelope }]
        inbox := Function.update s.mail.inbox dst (s.mail.inbox dst ++ [envelope])
        nextHandle := s.mail.nextHandle + 1 } }, 0)

/-- Allocate a command, submit it, and release it if that fails. -/
def sendCommand (s : SchedSystem) (core dst : Nat) (cmd : SchedEnvelope) : SchedSystem × Int :=
  if s.hasOutboundCmd core then s.schedRemoteSubmit cfg core dst cmd else (s, kErrNoResources)

/-- A command that is not released when it cannot be submitted. -/
def sendAndForget (s : SchedSystem) (core dst : Nat) (cmd : SchedEnvelope) : SchedSystem :=
  let sent := s.schedRemoteSubmit cfg core dst cmd
  if sent.2 = 0 then sent.1
  else
    let envelope := { cmd with handle := s.mail.nextHandle, originCpu := core }
    { s with mail := { s.mail with
        cmds := s.mail.cmds ++ [{ envelope := envelope, pending := false }]
        nextHandle := s.mail.nextHandle + 1 } }

/-- `sched_completion_publish`, into a cell that still waits. -/
def respond (s : SchedSystem) (handle : Nat) (ack : Bool) (result : Int) : SchedSystem :=
  { s with mail := { s.mail with cmds := s.mail.cmds.map fun c =>
      if c.envelope.handle = handle ∧ c.completion = none then
        { c with completion := some (ack, result) }
      else c } }

/-! ## Enqueue and wake -/

def schedInvariantCheckRemoteEnqueuePath (s : SchedSystem) (core : Nat) (t : ThreadRef) :
    Option SchedSystem :=
  if (s.thread t).ownerState ≠ .remotePending ∧ (s.thread t).ownerState ≠ .none then
    s.schedQuarantineThread cfg core t
  else some s

def schedEnqueue (s : SchedSystem) (core : Nat) (t : ThreadRef) (coreId : Nat) :
    Option (SchedSystem × Int) :=
  if schedMaxPriority < (s.thread t).priority ∨ cfg.count ≤ coreId then some (s, -1)
  else if s.schedIsCoreAdmissible cfg t coreId = false then some (s, -1)
  else if coreId = core then s.enqueueLocal cfg core t
  else if (s.rq coreId).schedIsolated then some (s, kErrIsolated)
  else (s.schedInvariantCheckRemoteEnqueuePath cfg core t).map fun s =>
    s.sendCommand cfg core coreId {
      type := .enqueue
      sourceCpu := core
      targetCpu := coreId
      threadId := (s.thread t).threadId
      priority := (s.thread t).priority }

/-- `list_del` of the wait node of a slot, from whatever list it is in. -/
def waitDel (s : SchedSystem) (t : ThreadRef) : SchedSystem :=
  { s with rq := fun c => { s.rq c with
      sleepingList := (s.rq c).sleepingList.erase t
      blockedList := (s.rq c).blockedList.erase t } }

def schedSleepDequeue (s : SchedSystem) (t : ThreadRef) : SchedSystem :=
  if (s.slot t).isSleeping then (s.waitDel t).modifySlot t ({ · with isSleeping := false }) else s

def schedBlockDequeue (s : SchedSystem) (t : ThreadRef) : SchedSystem :=
  if (s.slot t).isBlocked then (s.waitDel t).modifySlot t ({ · with isBlocked := false }) else s

def raisePriority (s : SchedSystem) (t : ThreadRef) (priority : Nat) : SchedSystem :=
  if priority ≤ schedMaxPriority ∧ (s.thread t).priority < priority then
    s.modifyThread t ({ · with priority := priority })
  else s

/-- A thread of the core that sleeps or waits is made ready. -/
def wakeLocal (s : SchedSystem) (core : Nat) (t : ThreadRef) : Option SchedSystem :=
  if (s.thread t).state = .sleeping ∨ (s.thread t).state = .blocked then
    let s := s.modifyThread t ({ · with state := .ready, wakeDeadlineMs := 0 })
    let s := (s.schedSleepDequeue t).schedBlockDequeue t
    (s.schedEnqueue cfg core t (s.thread t).boundCoreId).map (·.1)
  else some s

def schedWakeTidWithPriority (s : SchedSystem) (core : Nat) (tid : Tid) (priority : Nat) :
    Option (SchedSystem × Int) :=
  match s.findThread cfg tid with
  | none => some (s, -1)
  | some t =>
    if (s.thread t).ownerCpu ≠ core then
      some (s.sendCommand cfg core (s.thread t).ownerCpu {
        type := .wake
        sourceCpu := core
        targetCpu := (s.thread t).ownerCpu
        threadId := (s.thread t).threadId
        priority := priority })
    else ((s.raisePriority t priority).wakeLocal cfg core t).map (·, 0)

def schedWakeTid (s : SchedSystem) (core : Nat) (tid : Tid) : Option (SchedSystem × Int) :=
  s.schedWakeTidWithPriority cfg core tid (schedMaxPriority + 1)

/-! ## Migration -/

def schedMigrationTransition (s : SchedSystem) (core : Nat) (t : ThreadRef)
    (expected next : SchedMig) : Option SchedSystem :=
  if (s.thread t).migrationState = expected then
    some (s.modifyThread t ({ · with migrationState := next }))
  else if cfg.ndebug = false then none
  else if expected = .rollbackSent ∨ next = .failed then s.schedQuarantineThread cfg core t
  else some s

/-- A new epoch of the thread, and the target. -/
def beginMigration (s : SchedSystem) (t : ThreadRef) (newNode : Nat) : SchedSystem :=
  s.modifyThread t fun thread =>
    { thread with migrationEpoch := thread.migrationEpoch + 1, migrationTargetCpu := newNode }

def reserveCommand (s : SchedSystem) (core : Nat) (t : ThreadRef) (e : EntityRef)
    (newNode : Nat) : SchedEnvelope where
  type := .migrateReserve
  sourceCpu := core
  targetCpu := newNode
  threadId := (s.thread t).threadId
  migrationEpoch := (s.thread t).migrationEpoch
  priority := (s.thread t).priority
  vruntime := (s.ent e).vruntime
  absoluteDeadline := (s.ent e).absoluteDeadline
  rtAttr := (s.ent e).rtAttr
  context := s.machine.context (.entity e)

/-- The owner asks the target to reserve an entity. -/
def migrateAsOwner (s : SchedSystem) (core : Nat) (t : ThreadRef) (newNode : Nat) :
    Option (SchedSystem × Int) :=
  match s.findEntity cfg t with
  | none => some (s, -1)
  | some e =>
    if s.hasOutboundCmd core = false then some (s, kErrNoResources)
    else
      let cmd := s.reserveCommand core t e newNode
      (s.schedMigrationTransition cfg core t .none .reserveSent).bind fun s =>
      let s := s.modifyEntity e ({ · with
        migrationState := .reserveSent, migrationEpoch := (s.thread t).migrationEpoch })
      let sent := s.schedRemoteSubmit cfg core newNode cmd
      if sent.2 = 0 then some (sent.1, kErrInProgress)
      else (s.schedMigrationTransition cfg core t .reserveSent .none).map fun s =>
        (s.modifyEntity e ({ · with migrationState := .none }), sent.2)

/-- Another core asks the owner, and names the owner as the target. -/
def migrateAsOther (s : SchedSystem) (core : Nat) (t : ThreadRef) : Option (SchedSystem × Int) :=
  if s.hasOutboundCmd core = false then some (s, kErrNoResources)
  else
    (s.schedMigrationTransition cfg core t .none .reserveSent).bind fun s =>
    let sent := s.schedRemoteSubmit cfg core (s.thread t).ownerCpu {
      type := .migratePrepare
      sourceCpu := core
      targetCpu := (s.thread t).ownerCpu
      threadId := (s.thread t).threadId
      migrationEpoch := (s.thread t).migrationEpoch }
    if sent.2 = 0 then some (sent.1, kErrInProgress)
    else (s.schedMigrationTransition cfg core t .reserveSent .none).map (·, sent.2)

def schedMigrateTask (s : SchedSystem) (core : Nat) (t : ThreadRef) (newNode : Nat) :
    Option (SchedSystem × Int) :=
  if cfg.count ≤ newNode then some (s, -1)
  else if (s.thread t).affinityMask.getLsbD newNode = false then some (s, -2)
  else if (s.thread t).state = .quarantined ∨ (s.thread t).ownerState = .quarantined then
    some (s, kErrBadState)
  else if (s.thread t).migrationState ≠ .none then some (s, kErrInProgress)
  else if (s.thread t).ownerCpu = newNode then some (s, 0)
  else if (s.thread t).ownerCpu = core then
    (s.beginMigration t newNode).migrateAsOwner cfg core t newNode
  else (s.beginMigration t newNode).migrateAsOther cfg core t

def schedMigrateTid (s : SchedSystem) (core : Nat) (tid : Tid) (target : Nat) :
    Option (SchedSystem × Int) :=
  match s.findThread cfg tid with
  | none => some (s, -1)
  | some t => s.schedMigrateTask cfg core t target

/-! ## Attributes -/

/-- The part of `sched_adjust_priority_local` for a slot whose flag says that it is queued. Unlike
its siblings it takes the slot of an EDF core for one in a list. -/
def dequeueAdjusted (s : SchedSystem) (core : Nat) (t : ThreadRef) : Option SchedSystem :=
  match s.findThread cfg (s.thread t).threadId with
  | none => some s
  | some r =>
    if (s.slot r).isOnRunqueue then
      (if (s.rq core).policy = .cloudFair then s.schedCfsDequeue cfg core t
        else some (s.schedReadyBitmapClearIfEmpty core (s.thread t).priority)).map
      fun s : SchedSystem =>
        (s.modifySlot r ({ · with isOnRunqueue := false })).modifyLists
          core fun l => { l with runnableCount := l.runnableCount - 1 }
    else some s

def schedAdjustPriorityLocal (s : SchedSystem) (core : Nat) (t : ThreadRef) (priority : Nat) :
    Option SchedSystem :=
  (s.dequeueAdjusted cfg core t).bind fun s =>
  let s := s.modifyThread t ({ · with priority := min priority schedMaxPriority })
  if (s.thread t).state = .ready then (s.schedEnqueue cfg core t core).map (·.1) else some s

def schedSetPriority (s : SchedSystem) (core : Nat) (tid : Tid) (priority : Nat) :
    Option (SchedSystem × Int) :=
  match s.findThread cfg tid with
  | none => some (s, -1)
  | some t =>
    if (s.thread t).ownerCpu ≠ core then
      some (s.sendCommand cfg core (s.thread t).ownerCpu {
        type := .setPriority
        sourceCpu := core
        targetCpu := (s.thread t).ownerCpu
        threadId := (s.thread t).threadId
        priority := min priority schedMaxPriority })
    else (s.schedAdjustPriorityLocal cfg core t priority).map (·, 0)

/-- The local part of `sched_set_affinity`. A bound core outside the mask makes the thread
migrate to the first core in it. -/
def setAffinityLocal (s : SchedSystem) (core : Nat) (t : ThreadRef) (mask : BitVec 32) :
    Option (SchedSystem × Int) :=
  let s := s.modifyThread t ({ · with affinityMask := mask })
  if mask.getLsbD (s.thread t).boundCoreId then some (s, 0)
  else match (List.range cfg.count).find? (mask.getLsbD ·) with
    | none => some (s, -1)
    | some first => s.schedMigrateTid cfg core (s.thread t).threadId first

def schedSetAffinity (s : SchedSystem) (core : Nat) (tid : Tid) (mask : BitVec 32) :
    Option (SchedSystem × Int) :=
  match s.findThread cfg tid with
  | none => some (s, -1)
  | some t =>
    if mask = 0 then some (s, -1)
    else if (s.thread t).ownerCpu ≠ core then
      some (s.sendCommand cfg core (s.thread t).ownerCpu {
        type := .setAffinity
        sourceCpu := core
        targetCpu := (s.thread t).ownerCpu
        threadId := (s.thread t).threadId
        flags := mask })
    else s.setAffinityLocal cfg core t mask

def schedSetConstraints (s : SchedSystem) (core : Nat) (tid : Tid)
    (constraints : ExecConstraints) : Option (SchedSystem × Int) :=
  match s.findThread cfg tid with
  | none => some (s, -1)
  | some t =>
    if (s.thread t).ownerCpu ≠ core then
      some (s.sendCommand cfg core (s.thread t).ownerCpu {
        type := .setConstraints
        sourceCpu := core
        targetCpu := (s.thread t).ownerCpu
        threadId := (s.thread t).threadId
        constraints := constraints })
    else some (s.modifyThread t ({ · with constraints := constraints }), 0)

def schedQuarantineTid (s : SchedSystem) (core : Nat) (tid : Tid) (reason : BitVec 32) :
    Option (SchedSystem × Int) :=
  match s.findThread cfg tid with
  | none => some (s, -1)
  | some t =>
    if (s.thread t).ownerCpu ≠ core then
      some (s.sendCommand cfg core (s.thread t).ownerCpu {
        type := .quarantine
        sourceCpu := core
        targetCpu := (s.thread t).ownerCpu
        threadId := (s.thread t).threadId
        flags := reason })
    else (s.schedQuarantineThread cfg core t).map (·, 0)

/-- The part of `sched_request_handoff_tid` for a thread that another core owns. The command goes
to the owner, but names the new core as its target. -/
def requestHandoffRemote (s : SchedSystem) (core : Nat) (tid : Tid) (target : Nat)
    (authToken : BitVec 32) : Option (SchedSystem × Int) :=
  match s.findThread cfg tid with
  | none => some (s, -1)
  | some t =>
    if cfg.count ≤ target then some (s, -1)
    else if (s.thread t).ownerCpu = core then none
    else some (s.sendCommand cfg core (s.thread t).ownerCpu {
      type := .handoff
      sourceCpu := core
      targetCpu := target
      threadId := (s.thread t).threadId
      flags := authToken })

/-! ## Balancing -/

/-- The core with the largest load and the core with the smallest, the first ones of each. -/
def busiestAndIdlest (s : SchedSystem) : Nat × Nat :=
  (List.range cfg.count).foldl (fun found core =>
    (if (s.rq found.1).loadSnapshot < (s.rq core).loadSnapshot then core else found.1,
      if (s.rq core).loadSnapshot < (s.rq found.2).loadSnapshot then core else found.2)) (0, 0)

/-- `sched_balance_once`. The command to the busiest core names that core as its source. -/
def schedBalanceOnce (s : SchedSystem) (core : Nat) : SchedSystem :=
  let (busiest, idlest) := s.busiestAndIdlest cfg
  if (s.rq busiest).loadSnapshot ≤ (s.rq idlest).loadSnapshot + 1 ∨ busiest = idlest then s
  else if s.hasOutboundCmd core then
    s.sendAndForget cfg core busiest
      { type := .stealReq, sourceCpu := busiest, targetCpu := idlest }
  else s

/-! ## Termination -/

def schedDetachThreadFromQueues (s : SchedSystem) (core : Nat) (t : ThreadRef) :
    Option SchedSystem :=
  if (s.thread t).ownerCpu ≠ core ∧ (s.thread t).ownerState ≠ .remotePending then none
  else
    (if (s.slot t).isOnRunqueue then
      (s.dequeueSlot cfg core t).bind (schedValidateRq cfg · core) else some s).map fun s =>
    (s.schedSleepDequeue t).schedBlockDequeue t

def schedEnqueueReap (s : SchedSystem) (t : ThreadRef) : SchedSystem × Int :=
  let tid := (s.thread t).threadId
  if (s.slot t).isBootstrap ∨ cfg.count ≤ tid.core ∨ schedMaxThreads ≤ tid.slot ∨ tid.ref ≠ t then
    (s, -1)
  else if (s.slot t).reapPending then (s, 0)
  else
    ((s.modifySlot t ({ · with reapPending := true })).modifyRq tid.core fun rq =>
      { rq with reapQueue := rq.reapQueue ++ [tid.slot] }, 0)

/-- The terminated thread goes into the reap queue of its home core, or that core is told. Without
a free command nobody is told. -/
def handToReaper (s : SchedSystem) (core : Nat) (t : ThreadRef) : SchedSystem × Int :=
  if (s.thread t).homeCoreId = core then s.schedEnqueueReap cfg t
  else if s.hasOutboundCmd core then
    s.schedRemoteSubmit cfg core (s.thread t).homeCoreId {
      type := .reap
      sourceCpu := core
      targetCpu := (s.thread t).homeCoreId
      threadId := (s.thread t).threadId }
  else (s, 0)

/-- A thread that is not the current one is taken out of the queues. -/
def detachOther (s : SchedSystem) (core : Nat) (t : ThreadRef) : Option SchedSystem :=
  if (s.rq core).currentThread = some t then some s
  else s.schedDetachThreadFromQueues cfg core t

def schedMarkThreadTerminated (s : SchedSystem) (core : Nat) (t : ThreadRef) :
    Option (SchedSystem × Int) :=
  if (s.thread t).ownerCpu ≠ core then none
  else if s.findThread cfg (s.thread t).threadId ≠ some t then some (s, -1)
  else if (s.thread t).state = .terminated then
    some (if (s.thread t).homeCoreId = core then s.schedEnqueueReap cfg t else (s, 0))
  else
    ((s.modifyThread t ({ · with state := .terminated, ownerState := .none })).detachOther
      cfg core t).map fun s => s.handToReaper cfg core t

def schedTerminateTid (s : SchedSystem) (core : Nat) (tid : Tid) :
    Option (SchedSystem × Int) :=
  match s.findThread cfg tid with
  | none => some (s, kErrBadThread)
  | some t =>
    if (s.thread t).ownerCpu ≠ core then
      some (s.sendCommand cfg core (s.thread t).ownerCpu {
        type := .terminate
        sourceCpu := core
        targetCpu := (s.thread t).ownerCpu
        threadId := (s.thread t).threadId })
    else s.schedMarkThreadTerminated cfg core t

end SchedSystem

end BharatOS
