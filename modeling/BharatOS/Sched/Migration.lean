import BharatOS.Lib.Runs
import Mathlib.Logic.Function.Basic

/-!
# Migration of a thread (`sched_migrate.c`, `sched_core.c`)

The target reserves an entity, the source stages the thread there, the home core commits the new
owner, and the target activates its entity.
-/

namespace BharatOS

open Function

/-- `sched_migration_state_t` -/
inductive SchedMig where
  | none | reserveSent | targetReserved | sourceFrozen | targetPrepared | ownerCommitSent
  | ownerCommitted | activateSent | targetActive | sourceRetired | rollbackSent | rolledBack
  | reconciling | failed
  deriving DecidableEq, Repr

/-- The part of `bh_thread_t` that the migration uses. -/
structure MigThread where
  ownerCpu : Nat
  migrationState : SchedMig
  migrationEpoch : BitVec 32
  migrationTargetCpu : Nat
  affinityMask : BitVec 32
  stateQuarantined : Bool
  ownerQuarantined : Bool
  deriving DecidableEq, Repr

/-- The part of `sched_entity_t` that the migration uses. -/
structure MigEntity where
  migrationState : SchedMig
  migrationEpoch : BitVec 32
  runnable : Bool
  deriving DecidableEq, Repr

inductive MigCmdType where
  | reserve | stage | commitIdentity | activate | queryState | prepare
  deriving DecidableEq, Repr

/-- `sched_remote_cmd_envelope_t`; `handle` stands for the origin, the slot and the generation
of the command. -/
structure MigEnvelope where
  handle : Nat
  type : MigCmdType
  sourceCpu : Nat
  targetCpu : Nat
  migrationEpoch : BitVec 32
  deriving DecidableEq, Repr

/-- A pending `sched_remote_cmd_t` with its completion cell: whether it was acknowledged, and
the result. -/
structure MigCmd where
  envelope : MigEnvelope
  completion : Option (Bool × Int)
  deriving DecidableEq, Repr

/-- `home` is the core in the id of the thread, and `ndebug` whether failed transitions do not
panic. -/
structure MigConfig where
  count : Nat
  home : Nat
  ndebug : Bool

/-- `entity` is the entity in use that each core has for the thread. -/
structure MigSystem where
  thread : MigThread
  entity : Nat → Option MigEntity
  cmds : List MigCmd
  inbox : Nat → List MigEnvelope
  nextHandle : Nat

/-- What a call finds: a free outbound command, room in the ring of the target, a free entity,
and whether the core is admissible for the thread. -/
structure MigRoom where
  cmd : Bool
  ring : Bool
  entity : Bool
  admissible : Bool

/-- The results of `sched_migrate_task`. -/
inductive MigResult where
  | done | invalid | affinity | badState | inProgress | noResources | submitFailed
  deriving DecidableEq, Repr

namespace MigSystem

def boot (owner : Nat) (affinityMask : BitVec 32) : MigSystem where
  thread := ⟨owner, .none, 0, 0, affinityMask, false, false⟩
  entity := update (fun _ => none) owner (some ⟨.none, 0, true⟩)
  cmds := []
  inbox _ := []
  nextHandle := 0

def setEntity (s : MigSystem) (core : Nat) (e : Option MigEntity) : MigSystem :=
  { s with entity := update s.entity core e }

variable (cfg : MigConfig)

/-- `sched_find_entity_by_thread` -/
def findEntity (s : MigSystem) : Option MigEntity :=
  if s.thread.ownerCpu < cfg.count then s.entity s.thread.ownerCpu else none

/-- Change the entity that the owner has, if any. -/
def modifyEntity (s : MigSystem) (change : MigEntity → MigEntity) : MigSystem :=
  match s.findEntity cfg with
  | none => s
  | some e => s.setEntity s.thread.ownerCpu (some (change e))

/-- `sched_quarantine_thread`; `none` if it panics. -/
def quarantine (s : MigSystem) (core : Nat) : Option MigSystem :=
  if s.thread.ownerCpu ≠ core then none
  else some { s with
    thread := { s.thread with stateQuarantined := true, ownerQuarantined := true } }

/-- `sched_migration_transition`; `none` if it panics. -/
def transition (s : MigSystem) (core : Nat) (expected next : SchedMig) : Option MigSystem :=
  if s.thread.migrationState = expected then
    some { s with thread := { s.thread with migrationState := next } }
  else if cfg.ndebug = false then none
  else if expected = .rollbackSent ∨ next = .failed then s.quarantine core
  else some s

/-- `sched_remote_submit` of a new command from core `core` to core `dst`; `none` if it fails.
The command names `target` as its target. -/
def submit (s : MigSystem) (core dst : Nat) (type : MigCmdType) (target : Nat) (ring : Bool) :
    Option MigSystem :=
  if cfg.count ≤ dst ∨ dst = core ∨ ring = false then none
  else
    let envelope : MigEnvelope := ⟨s.nextHandle, type, core, target, s.thread.migrationEpoch⟩
    some { s with
      cmds := s.cmds ++ [⟨envelope, none⟩]
      inbox := update s.inbox dst (s.inbox dst ++ [envelope])
      nextHandle := s.nextHandle + 1 }

/-- The checks of `sched_migrate_task`: what it returns if it does not go on to the epoch. -/
def migrateRefused (s : MigSystem) (newNode : Nat) : Option MigResult :=
  let t := s.thread
  if cfg.count ≤ newNode then some .invalid
  else if t.affinityMask &&& 1#32 <<< newNode = 0 then some .affinity
  else if t.stateQuarantined ∨ t.ownerQuarantined then some .badState
  else if t.migrationState ≠ .none then some .inProgress
  else if t.ownerCpu = newNode then some .done
  else none

/-- A new epoch, and the target. -/
def nextEpoch (s : MigSystem) (newNode : Nat) : MigSystem :=
  { s with thread := { s.thread with
      migrationEpoch := s.thread.migrationEpoch + 1, migrationTargetCpu := newNode } }

/-- The owner asks the target to reserve an entity. -/
def migrateAsOwner (s : MigSystem) (core newNode : Nat) (room : MigRoom) :
    Option (MigSystem × MigResult) :=
  match s.findEntity cfg with
  | none => some (s, .invalid)
  | some _ =>
    if room.cmd = false then some (s, .noResources)
    else
      (s.transition cfg core .none .reserveSent).bind fun s =>
        let s := s.modifyEntity cfg ({ · with
          migrationState := .reserveSent, migrationEpoch := s.thread.migrationEpoch })
        match s.submit cfg core newNode .reserve newNode room.ring with
        | some s => some (s, .inProgress)
        | none => (s.transition cfg core .reserveSent .none).map fun s =>
            (s.modifyEntity cfg ({ · with migrationState := .none }), .submitFailed)

/-- Another core asks the owner, to migrate the thread to itself. -/
def migrateAsOther (s : MigSystem) (core : Nat) (room : MigRoom) : Option (MigSystem × MigResult) :=
  if room.cmd = false then some (s, .noResources)
  else
    (s.transition cfg core .none .reserveSent).bind fun s =>
      match s.submit cfg core s.thread.ownerCpu .prepare s.thread.ownerCpu room.ring with
      | some s => some (s, .inProgress)
      | none => (s.transition cfg core .reserveSent .none).map (·, .submitFailed)

/-- `sched_migrate_task` on core `core`; `none` if it panics. It takes no lock, but it is one step
here, so that the calls of two cores do not overlap. -/
def schedMigrateTask (s : MigSystem) (core newNode : Nat) (room : MigRoom) :
    Option (MigSystem × MigResult) :=
  match s.migrateRefused cfg newNode with
  | some result => some (s, result)
  | none =>
    let s := s.nextEpoch newNode
    if s.thread.ownerCpu = core then s.migrateAsOwner cfg core newNode room
    else s.migrateAsOther cfg core room

/-- `sched_completion_publish`: only into a cell that still waits. -/
def respond (s : MigSystem) (handle : Nat) (ack : Bool) (result : Int) : MigSystem :=
  { s with cmds := s.cmds.map fun c =>
      if c.envelope.handle = handle ∧ c.completion = none then
        { c with completion := some (ack, result) }
      else c }

/-- `sched_handle_migrate_reserve`. The result stands for the slot of the entity. -/
def handleMigrateReserve (s : MigSystem) (core : Nat) (env : MigEnvelope) (room : MigRoom) :
    MigSystem :=
  match s.entity core with
  | some e =>
    if e.migrationEpoch = env.migrationEpoch then s.respond env.handle true 0
    else s.respond env.handle false (-5)
  | none =>
    if room.entity then
      (s.setEntity core (some ⟨.targetReserved, env.migrationEpoch, false⟩)).respond env.handle
        true 0
    else s.respond env.handle false (-19)

def handleMigrateStage (s : MigSystem) (core : Nat) (env : MigEnvelope) : MigSystem :=
  match s.entity core with
  | none => s.respond env.handle false (-3)
  | some e =>
    if e.migrationEpoch ≠ env.migrationEpoch then s.respond env.handle false (-3)
    else if e.migrationState = .targetReserved then
      (s.setEntity core (some { e with migrationState := .targetPrepared })).respond env.handle
        true 0
    else s.respond env.handle true 0

def handleMigrateCommitIdentity (s : MigSystem) (env : MigEnvelope) : MigSystem :=
  if s.thread.migrationEpoch < env.migrationEpoch then
    { s with
      thread := { s.thread with
        ownerCpu := env.targetCpu, migrationEpoch := env.migrationEpoch } }.respond env.handle
      true 0
  else if s.thread.migrationEpoch = env.migrationEpoch ∧ s.thread.ownerCpu = env.targetCpu then
    s.respond env.handle true 0
  else s.respond env.handle false (-2)

/-- `sched_handle_migrate_activate`. It activates an entity that is reserved, not one that is
prepared. -/
def handleMigrateActivate (s : MigSystem) (core : Nat) (env : MigEnvelope) : MigSystem :=
  match s.entity core with
  | none => s.respond env.handle false (-3)
  | some e =>
    if e.migrationState = .targetReserved then
      { s.setEntity core (some { e with migrationState := .none, runnable := true }) with
        thread := { s.thread with ownerCpu := core, ownerQuarantined := false } }.respond
          env.handle true 0
    else s.respond env.handle true 0

def handleQueryState (s : MigSystem) (core : Nat) (env : MigEnvelope) : MigSystem :=
  s.respond env.handle true <|
    match s.entity core with
    | none => 0
    | some e => if e.runnable then 1 else 2

/-- A core takes the next command from its ring, as `sched_reschedule` does. A command that
names another target is dropped. -/
def handle (s : MigSystem) (core : Nat) (room : MigRoom) : Option MigSystem :=
  match s.inbox core with
  | [] => none
  | env :: rest =>
    let s := { s with inbox := update s.inbox core rest }
    if env.targetCpu ≠ core then some s
    else match env.type with
      | .reserve => some (s.handleMigrateReserve core env room)
      | .stage => some (s.handleMigrateStage core env)
      | .commitIdentity => some (s.handleMigrateCommitIdentity env)
      | .activate => some (s.handleMigrateActivate core env)
      | .queryState => some (s.handleQueryState core env)
      | .prepare => (s.schedMigrateTask cfg core env.targetCpu room).map fun out =>
          out.1.respond env.handle true 0

/-- `sched_enqueue` of the thread on the core that runs. -/
def schedEnqueue (s : MigSystem) (core : Nat) (room : MigRoom) : MigSystem :=
  if room.admissible = false then s
  else match s.findEntity cfg with
    | some e => { s.setEntity s.thread.ownerCpu (some { e with runnable := true }) with
        thread := { s.thread with
          ownerCpu := core, stateQuarantined := false, ownerQuarantined := false } }
    | none =>
      if room.entity then
        { s.setEntity core (some ⟨.none, 0, true⟩) with
          thread := { s.thread with
            ownerCpu := core, stateQuarantined := false, ownerQuarantined := false } }
      else s

/-- The source goes on with the thread. -/
def resumeSource (s : MigSystem) (core : Nat) (room : MigRoom) : MigSystem :=
  match s.findEntity cfg with
  | none => s
  | some _ => (s.modifyEntity cfg
      ({ · with migrationState := .none, runnable := true })).schedEnqueue cfg core room

/-- `sched_free_entity` of the entity of the owner, which does nothing to another core's. -/
def freeEntity (s : MigSystem) (core : Nat) : MigSystem :=
  if s.thread.ownerCpu = core then s.setEntity core none else s

/-! The parts of `sched_remote_cmd_poll_timeouts` for a command that is acknowledged, or not. -/

def reserveDone (s : MigSystem) (core : Nat) (acked : Bool) (room : MigRoom) : Option MigSystem :=
  if acked then
    ((s.modifyEntity cfg ({ · with migrationState := .sourceFrozen, runnable := false })).transition
      cfg core .reserveSent .sourceFrozen).bind fun s =>
    if room.cmd then
      (s.transition cfg core .sourceFrozen .targetPrepared).bind fun s =>
        let s := s.modifyEntity cfg ({ · with migrationState := .targetPrepared })
        let target := s.thread.migrationTargetCpu
        match s.submit cfg core target .stage target room.ring with
        | some s => some s
        | none => (s.resumeSource cfg core room).transition cfg core .targetPrepared .failed
    else (s.resumeSource cfg core room).transition cfg core .sourceFrozen .failed
  else
    (s.modifyEntity cfg ({ · with migrationState := .none })).transition cfg core .reserveSent .none

/-- The command goes to the home core of the thread, and names the new owner as its target. -/
def stageDone (s : MigSystem) (core : Nat) (acked : Bool) (room : MigRoom) : Option MigSystem :=
  if acked then
    if room.cmd then
      (s.transition cfg core .targetPrepared .ownerCommitSent).bind fun s =>
        let s := s.modifyEntity cfg ({ · with migrationState := .ownerCommitSent })
        match s.submit cfg core cfg.home .commitIdentity s.thread.migrationTargetCpu room.ring with
        | some s => some s
        | none => (s.resumeSource cfg core room).transition cfg core .ownerCommitSent .failed
    else (s.resumeSource cfg core room).transition cfg core .targetPrepared .failed
  else (s.resumeSource cfg core room).transition cfg core .targetPrepared .none

def commitDone (s : MigSystem) (core : Nat) (acked : Bool) (room : MigRoom) : Option MigSystem :=
  if acked then
    if room.cmd then
      (s.transition cfg core .ownerCommitSent .activateSent).bind fun s =>
        let s := s.modifyEntity cfg ({ · with migrationState := .activateSent })
        let target := s.thread.migrationTargetCpu
        match s.submit cfg core target .activate target room.ring with
        | some s => some s
        | none => (s.quarantine core).bind (·.transition cfg core .activateSent .failed)
    else (s.quarantine core).bind (·.transition cfg core .ownerCommitSent .failed)
  else (s.resumeSource cfg core room).transition cfg core .ownerCommitSent .none

def activateDone (s : MigSystem) (core : Nat) (acked : Bool) (room : MigRoom) : Option MigSystem :=
  if acked then (s.freeEntity core).transition cfg core .activateSent .none
  else if room.cmd then
    (s.transition cfg core .activateSent .reconciling).map fun s =>
      let target := s.thread.migrationTargetCpu
      (s.submit cfg core target .queryState target room.ring).getD s
  else (s.quarantine core).bind (·.transition cfg core .activateSent .failed)

def queryDone (s : MigSystem) (core : Nat) (active : Bool) : Option MigSystem :=
  if active then (s.freeEntity core).transition cfg core .reconciling .none
  else (s.quarantine core).bind (·.transition cfg core .reconciling .failed)

/-- The command is released. -/
def release (s : MigSystem) (handle : Nat) : MigSystem :=
  { s with cmds := s.cmds.filter (·.envelope.handle ≠ handle) }

/-- What the origin of a command does when it is complete, or when its time is over. -/
def after (s : MigSystem) (env : MigEnvelope) (acked : Bool) (result : Int) (room : MigRoom) :
    Option MigSystem :=
  if s.thread.migrationEpoch ≠ env.migrationEpoch then some s
  else match env.type with
    | .reserve => s.reserveDone cfg env.sourceCpu acked room
    | .stage => s.stageDone cfg env.sourceCpu acked room
    | .commitIdentity => s.commitDone cfg env.sourceCpu acked room
    | .activate => s.activateDone cfg env.sourceCpu acked room
    | .queryState => s.queryDone cfg env.sourceCpu (acked ∧ result = 1)
    | .prepare => some s

/-- `sched_remote_cmd_poll_timeouts` for one command. -/
def finish (s : MigSystem) (handle : Nat) (timedOut : Bool) (room : MigRoom) : Option MigSystem :=
  (s.cmds.find? (·.envelope.handle = handle)).bind fun c =>
    (if timedOut then some (false, 0) else c.completion).bind fun outcome =>
      (s.after cfg c.envelope outcome.1 outcome.2 room).map fun t => t.release handle

end MigSystem

inductive MigAction where
  | migrate (core newNode : Nat) (room : MigRoom)
  | handle (core : Nat) (room : MigRoom)
  | finish (handle : Nat) (timedOut : Bool) (room : MigRoom)

namespace MigSystem

def step (cfg : MigConfig) (s : MigSystem) : MigAction → Option MigSystem
  | .migrate core newNode room => (s.schedMigrateTask cfg core newNode room).map (·.1)
  | .handle core room => s.handle cfg core room
  | .finish handle timedOut room => s.finish cfg handle timedOut room

end MigSystem

end BharatOS
