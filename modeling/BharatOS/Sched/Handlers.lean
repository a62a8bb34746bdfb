import BharatOS.Sched.Commands

/-!
# Commands from other cores, and their completions (`sched_core.c`)

What a core does with the envelopes in its ring, and what the core that sent a command does
when the command is complete or its time is over.
-/

namespace BharatOS

namespace SchedSystem

variable (cfg : SchedConfig)

/-! ## Handlers

Each handler returns whether it acknowledges the command, and the result. -/

/-- `sched_handle_migrate_reserve`. The result is the slot of the entity. -/
def schedHandleMigrateReserve (s : SchedSystem) (core : Nat) (env : SchedEnvelope) :
    SchedSystem × Bool × Int :=
  match s.findEntityLocal core env.threadId with
  | some e =>
    if (s.ent e).migrationEpoch = env.migrationEpoch then (s, true, e.slot) else (s, false, -5)
  | none =>
    match s.schedAllocateEntity cfg core with
    | none => (s, false, -19)
    | some (s, e) =>
      let s := s.modifyEntity e fun _ => {
        tid := env.threadId
        priority := env.priority
        vruntime := env.vruntime
        absoluteDeadline := env.absoluteDeadline
        rtAttr := env.rtAttr
        migrationState := .targetReserved
        migrationEpoch := env.migrationEpoch }
      ({ s with machine := { s.machine with
        context := Function.update s.machine.context (.entity e) env.context } }, true, e.slot)

def schedHandleMigrateStage (s : SchedSystem) (core : Nat) (env : SchedEnvelope) :
    SchedSystem × Bool × Int :=
  match s.findEntityLocal core env.threadId with
  | none => (s, false, -3)
  | some e =>
    if (s.ent e).migrationEpoch ≠ env.migrationEpoch then (s, false, -3)
    else if (s.ent e).migrationState = .targetReserved then
      let s := s.modifyEntity e ({ · with
        vruntime := env.vruntime
        absoluteDeadline := env.absoluteDeadline
        rtAttr := env.rtAttr
        migrationState := .targetPrepared })
      ({ s with machine := { s.machine with
        context := Function.update s.machine.context (.entity e) env.context } }, true, 0)
    else (s, true, 0)

def schedHandleMigrateCommitIdentity (s : SchedSystem) (env : SchedEnvelope) :
    SchedSystem × Bool × Int :=
  match s.findThread cfg env.threadId with
  | none => (s, false, -1)
  | some t =>
    if (s.thread t).migrationEpoch < env.migrationEpoch then
      (s.modifyThread t ({ · with
        ownerCpu := env.targetCpu
        locatorSlot := env.targetEntitySlot
        migrationEpoch := env.migrationEpoch }), true, 0)
    else if (s.thread t).migrationEpoch = env.migrationEpoch ∧
        (s.thread t).ownerCpu = env.targetCpu then (s, true, 0)
    else (s, false, -2)

def schedHandleMigrateActivate (s : SchedSystem) (core : Nat) (env : SchedEnvelope) :
    Option (SchedSystem × Bool × Int) :=
  match s.findEntityLocal core env.threadId with
  | none => some (s, false, -3)
  | some e =>
    if (s.ent e).migrationState = .targetReserved then
      let s := s.modifyEntity e ({ · with migrationState := .none, runnable := true })
      match s.findThread cfg env.threadId with
      | none => some (s, true, 0)
      | some t => (s.putOn cfg core t e).map (·, true, 0)
    else some (s, true, 0)

def schedHandleQueryState (s : SchedSystem) (core : Nat) (env : SchedEnvelope) :
    SchedSystem × Bool × Int :=
  match s.findEntityLocal core env.threadId with
  | none => (s, true, 0)
  | some e => (s, true, if (s.ent e).runnable then 1 else 2)

/-- The priority of a wake-up command, if it is higher, becomes that of the entity. -/
def raiseEntityPriority (s : SchedSystem) (e : EntityRef) (priority : Nat) : SchedSystem :=
  if priority ≤ schedMaxPriority ∧ (s.ent e).priority < priority then
    s.modifyEntity e ({ · with priority := priority })
  else s

/-- A thread whose entity is asleep is made ready. -/
def wakeEntity (s : SchedSystem) (core : Nat) (t : ThreadRef) (e : EntityRef) :
    Option SchedSystem :=
  if (s.ent e).state = .sleeping ∨ (s.ent e).state = .blocked then
    let s := s.modifyEntity e ({ · with state := .ready, runnable := true })
    ((s.schedSleepDequeue t).schedBlockDequeue t).putOn cfg core t e
  else some s

/-- `sched_handle_remote_wake`. It is the entity whose state says whether to wake the thread. -/
def schedHandleRemoteWake (s : SchedSystem) (core : Nat) (env : SchedEnvelope) :
    Option (SchedSystem × Bool × Int) :=
  match s.findThread cfg env.threadId with
  | none => some (s, false, -1)
  | some t =>
    match s.findEntity cfg t with
    | none => some (s, false, -4)
    | some e => ((s.raiseEntityPriority e env.priority).wakeEntity cfg core t e).map (·, true, 0)

def schedHandleSetPriority (s : SchedSystem) (core : Nat) (env : SchedEnvelope) :
    Option (SchedSystem × Bool × Int) :=
  match s.findThread cfg env.threadId with
  | none => some (s, false, -1)
  | some t =>
    match s.findEntity cfg t with
    | none => some (s, true, 0)
    | some e =>
      (s.takeOff cfg core t e).bind fun s =>
      let s := s.modifyEntity e ({ · with priority := env.priority })
      if (s.ent e).state = .ready then (s.putOn cfg core t e).map (·, true, 0)
      else some (s, true, 0)

/-- Change the entity of the thread that a command names, if there is one. -/
def modifyNamedEntity (s : SchedSystem) (env : SchedEnvelope)
    (change : SchedEntity → SchedEntity) : SchedSystem :=
  match s.findThread cfg env.threadId with
  | none => s
  | some t =>
    match s.findEntity cfg t with
    | none => s
    | some e => s.modifyEntity e change

def schedHandleSetAffinity (s : SchedSystem) (env : SchedEnvelope) : SchedSystem × Bool × Int :=
  (s.modifyNamedEntity cfg env ({ · with affinityMask := env.flags }), true, 0)

def schedHandleSetConstraints (s : SchedSystem) (env : SchedEnvelope) :
    SchedSystem × Bool × Int :=
  (s.modifyNamedEntity cfg env ({ · with constraints := env.constraints }), true, 0)

def schedHandleQuarantine (s : SchedSystem) (core : Nat) (env : SchedEnvelope) :
    Option (SchedSystem × Bool × Int) :=
  match s.findThread cfg env.threadId with
  | none => some (s, true, 0)
  | some t => (s.schedQuarantineThread cfg core t).map (·, true, 0)

def schedHandleTerminate (s : SchedSystem) (core : Nat) (env : SchedEnvelope) :
    Option (SchedSystem × Bool × Int) :=
  match s.findThread cfg env.threadId with
  | none => some (s, true, 0)
  | some t => (s.schedMarkThreadTerminated cfg core t).map fun out => (out.1, true, 0)

def schedHandleReap (s : SchedSystem) (env : SchedEnvelope) : SchedSystem × Bool × Int :=
  match s.findThread cfg env.threadId with
  | none => (s, true, 0)
  | some t => ((s.schedEnqueueReap cfg t).1, true, 0)

/-- The branch of `sched_reschedule` for `SCHED_REMOTE_MIGRATE_PREPARE`. -/
def handleMigratePrepare (s : SchedSystem) (core : Nat) (env : SchedEnvelope) :
    Option (SchedSystem × Bool × Int) :=
  match s.findThread cfg env.threadId with
  | none => some (s, true, 0)
  | some t => (s.schedMigrateTask cfg core t env.targetCpu).map fun out => (out.1, true, 0)

/-- The branch for `SCHED_REMOTE_STEAL_REQ`. `sched_find_steal_candidate` takes the run nodes of
entities for those of slots, so that only its walk over empty queues is defined. -/
def handleStealReq (s : SchedSystem) (core : Nat) : Option (SchedSystem × Bool × Int) :=
  if ∀ prio < schedMaxPriority + 1, (s.lists core).readyQueue prio = [] then some (s, true, 0)
  else none

def schedValidateRemoteEnvelope (core : Nat) (env : SchedEnvelope) : Bool :=
  env.targetCpu = core ∧ env.originCpu < cfg.count ∧ env.sourceCpu = env.originCpu

/-- The dispatch of `sched_reschedule` on the type of a command. A command that has no branch of
its own is acknowledged. -/
def handleCommand (s : SchedSystem) (core : Nat) (env : SchedEnvelope) :
    Option (SchedSystem × Bool × Int) :=
  match env.type with
  | .migrateReserve => some (s.schedHandleMigrateReserve cfg core env)
  | .migrateStage => some (s.schedHandleMigrateStage core env)
  | .migrateCommitIdentity => some (s.schedHandleMigrateCommitIdentity cfg env)
  | .migrateActivate => s.schedHandleMigrateActivate cfg core env
  | .queryState => some (s.schedHandleQueryState core env)
  | .wake => s.schedHandleRemoteWake cfg core env
  | .setPriority => s.schedHandleSetPriority cfg core env
  | .setAffinity => some (s.schedHandleSetAffinity cfg env)
  | .setConstraints => some (s.schedHandleSetConstraints cfg env)
  | .quarantine => s.schedHandleQuarantine cfg core env
  | .terminate => s.schedHandleTerminate cfg core env
  | .reap => some (s.schedHandleReap cfg env)
  | .migratePrepare => s.handleMigratePrepare cfg core env
  | .stealReq => s.handleStealReq core
  | .enqueue | .handoff => some (s, true, 0)

/-- An envelope is handled, or dropped if it is not valid. -/
def receive (s : SchedSystem) (core : Nat) (env : SchedEnvelope) : Option SchedSystem :=
  if schedValidateRemoteEnvelope cfg core env then
    (s.handleCommand cfg core env).map fun (s, ack, result) => s.respond env.handle ack result
  else some s

/-- The loop of `sched_reschedule` that empties the ring, for at most `budget` envelopes. -/
def drain (core : Nat) : Nat → SchedSystem → Option SchedSystem
  | 0, s => some s
  | budget + 1, s =>
    match s.mail.inbox core with
    | [] => some s
    | env :: rest =>
      let s := { s with mail := { s.mail with inbox := Function.update s.mail.inbox core rest } }
      (s.receive cfg core env).bind (drain core budget)

/-! ## Completions -/

/-- The source of a migration goes on with the thread. -/
def resumeSource (s : SchedSystem) (core : Nat) (t : ThreadRef) : Option SchedSystem :=
  match s.findEntity cfg t with
  | none => some s
  | some e =>
    let s := s.modifyEntity e ({ · with migrationState := .none, runnable := true })
    (s.schedEnqueue cfg core t core).map (·.1)

/-- The source goes on with the thread, and the migration ends. -/
def giveUp (s : SchedSystem) (core : Nat) (t : ThreadRef) (expected next : SchedMig) :
    Option SchedSystem :=
  (s.resumeSource cfg core t).bind fun s => s.schedMigrationTransition cfg core t expected next

/-- The thread is quarantined, and the migration has failed. -/
def quarantineMigrating (s : SchedSystem) (core : Nat) (t : ThreadRef) (expected : SchedMig) :
    Option SchedSystem :=
  (s.schedQuarantineThread cfg core t).bind fun s =>
    s.schedMigrationTransition cfg core t expected .failed

/-- Change the entity of a thread, if it has one. -/
def modifyEntityOf (s : SchedSystem) (t : ThreadRef) (change : SchedEntity → SchedEntity) :
    SchedSystem :=
  match s.findEntity cfg t with
  | none => s
  | some e => s.modifyEntity e change

/-- The entity of a thread is taken out of its list. The flag and the count stay. -/
def freezeEntity (s : SchedSystem) (t : ThreadRef) : SchedSystem :=
  match s.findEntity cfg t with
  | none => s
  | some e =>
    (s.modifyEntity e ({ · with migrationState := .sourceFrozen, runnable := false })).listDel e

/-- The command of the next phase of a migration. -/
def phaseCommand (s : SchedSystem) (core : Nat) (t : ThreadRef) (type : SchedCmdType)
    (entitySlot : Nat) : SchedEnvelope :=
  { type := type
    sourceCpu := core
    targetCpu := (s.thread t).migrationTargetCpu
    threadId := (s.thread t).threadId
    migrationEpoch := (s.thread t).migrationEpoch
    targetEntitySlot := entitySlot }

/-- The command of the second phase has the scheduling data of the entity. -/
def stageCommand (s : SchedSystem) (core : Nat) (t : ThreadRef) (entitySlot : Nat) :
    SchedEnvelope :=
  match s.findEntity cfg t with
  | none => s.phaseCommand core t .migrateStage entitySlot
  | some e => { s.phaseCommand core t .migrateStage entitySlot with
      vruntime := (s.ent e).vruntime
      absoluteDeadline := (s.ent e).absoluteDeadline
      rtAttr := (s.ent e).rtAttr
      context := s.machine.context (.entity e) }

/-- Go from phase `expected` to phase `next` and send its command; `failed` is what to do if that
is not possible. -/
def nextPhase (s : SchedSystem) (core : Nat) (t : ThreadRef) (expected next : SchedMig)
    (dst : Nat) (cmd : SchedEnvelope) (failed : SchedSystem → Option SchedSystem) :
    Option SchedSystem :=
  (s.schedMigrationTransition cfg core t expected next).bind fun s =>
    let s := s.modifyEntityOf cfg t ({ · with migrationState := next })
    let sent := s.schedRemoteSubmit cfg core dst cmd
    if sent.2 = 0 then some sent.1 else failed s

/-! The parts of `sched_remote_cmd_poll_timeouts` for a command that is acknowledged, or not. -/

def reserveDone (s : SchedSystem) (core : Nat) (t : ThreadRef) (acked : Bool) (result : Int) :
    Option SchedSystem :=
  if acked then
    ((s.freezeEntity cfg t).schedMigrationTransition cfg core t .reserveSent .sourceFrozen).bind
    fun s =>
      if s.hasOutboundCmd core then
        s.nextPhase cfg core t .sourceFrozen .targetPrepared (s.thread t).migrationTargetCpu
          (s.stageCommand cfg core t result.toNat) (·.giveUp cfg core t .targetPrepared .failed)
      else s.giveUp cfg core t .sourceFrozen .failed
  else
    (s.modifyEntityOf cfg t ({ · with migrationState := .none })).schedMigrationTransition
      cfg core t .reserveSent .none

/-- The command goes to the home core of the thread, and names the new owner as its target. -/
def stageDone (s : SchedSystem) (core : Nat) (t : ThreadRef) (acked : Bool) (entitySlot : Nat) :
    Option SchedSystem :=
  if acked then
    if s.hasOutboundCmd core then
      s.nextPhase cfg core t .targetPrepared .ownerCommitSent (s.thread t).threadId.core
        (s.phaseCommand core t .migrateCommitIdentity entitySlot)
        (·.giveUp cfg core t .ownerCommitSent .failed)
    else s.giveUp cfg core t .targetPrepared .failed
  else s.giveUp cfg core t .targetPrepared .none

def commitDone (s : SchedSystem) (core : Nat) (t : ThreadRef) (acked : Bool) :
    Option SchedSystem :=
  if acked then
    if s.hasOutboundCmd core then
      s.nextPhase cfg core t .ownerCommitSent .activateSent (s.thread t).migrationTargetCpu
        (s.phaseCommand core t .migrateActivate 0) (·.quarantineMigrating cfg core t .activateSent)
    else s.quarantineMigrating cfg core t .ownerCommitSent
  else s.giveUp cfg core t .ownerCommitSent .none

/-- The entity of a thread is freed: the source's, when the target is active. -/
def freeEntityOf (s : SchedSystem) (core : Nat) (t : ThreadRef) : SchedSystem :=
  match s.findEntity cfg t with
  | none => s
  | some e => s.schedFreeEntity cfg core e

def activateDone (s : SchedSystem) (core : Nat) (t : ThreadRef) (acked : Bool) :
    Option SchedSystem :=
  if acked then
    (s.freeEntityOf cfg core t).schedMigrationTransition cfg core t .activateSent .none
  else if s.hasOutboundCmd core then
    (s.schedMigrationTransition cfg core t .activateSent .reconciling).map fun s =>
      s.sendAndForget cfg core (s.thread t).migrationTargetCpu
        (s.phaseCommand core t .queryState 0)
  else s.quarantineMigrating cfg core t .activateSent

def queryDone (s : SchedSystem) (core : Nat) (t : ThreadRef) (active : Bool) :
    Option SchedSystem :=
  if active then
    (s.freeEntityOf cfg core t).schedMigrationTransition cfg core t .reconciling .none
  else s.quarantineMigrating cfg core t .reconciling

/-- What the origin of a command does when it is complete, or when its time is over. -/
def afterCommand (s : SchedSystem) (core : Nat) (env : SchedEnvelope) (acked : Bool)
    (result : Int) : Option SchedSystem :=
  match s.findThread cfg env.threadId with
  | none => some s
  | some t =>
    if (s.thread t).migrationEpoch ≠ env.migrationEpoch then some s
    else match env.type with
      | .migrateReserve => s.reserveDone cfg core t acked result
      | .migrateStage => s.stageDone cfg core t acked env.targetEntitySlot
      | .migrateCommitIdentity => s.commitDone cfg core t acked
      | .migrateActivate => s.activateDone cfg core t acked
      | .queryState => s.queryDone cfg core t (acked ∧ result = 1)
      | _ => some s

def schedRemoteCmdRelease (s : SchedSystem) (handle : Nat) : SchedSystem :=
  { s with mail := { s.mail with cmds := s.mail.cmds.filter (·.envelope.handle ≠ handle) } }

/-- The work of `sched_remote_cmd_poll_timeouts` for one command of the core, which is complete
or else, if `late`, timed out. -/
def finishCommand (s : SchedSystem) (core handle : Nat) (late : Bool) : Option SchedSystem :=
  match s.mail.cmds.find? fun c =>
      c.envelope.handle = handle ∧ c.envelope.originCpu = core ∧ c.pending with
  | none => some s
  | some c =>
    match c.completion with
    | some (acked, result) =>
      (s.afterCommand cfg core c.envelope acked result).map (·.schedRemoteCmdRelease handle)
    | none =>
      if late then
        (s.afterCommand cfg core c.envelope false 0).map (·.schedRemoteCmdRelease handle)
      else some s

/-- `sched_remote_cmd_poll_timeouts`. `polled` gives the commands that it looks at, and whether
the time of each is over. -/
def schedRemoteCmdPollTimeouts (core : Nat) :
    List (Nat × Bool) → SchedSystem → Option SchedSystem
  | [], s => some s
  | (handle, late) :: rest, s =>
    (s.finishCommand cfg core handle late).bind (schedRemoteCmdPollTimeouts core rest)

end SchedSystem

end BharatOS
