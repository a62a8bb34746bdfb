import BharatOS.Sched.Migration
import Mathlib.Algebra.Group.Nat.Defs
import Mathlib.Data.List.Basic

/-!
# State of the scheduler (`sched.h`, `sched_internal.h`, `sched.c`)

A thread has two records: the `bh_thread_t` in its slot, and on the core that owns it an entity
with copies of some of its fields. Lists and trees that link entities are lists here, a tree in
order. `machine` is what the hardware holds.
-/

namespace BharatOS

open Function

inductive ThreadState where
  | ready | running | blocked | sleeping | terminated | degPending | remoteHandoffPending
  | quarantined
  deriving DecidableEq, Repr

/-- `thread_sched_owner_state_t` -/
inductive ThreadOwnerState where
  | none | runqueue | running | blocked | remotePending | quarantined
  deriving DecidableEq, Repr

inductive SchedPolicy where
  | roundRobin | cloudFair | priority | edf | rms
  deriving DecidableEq, Repr

/-- The classes that `sched_class_mask_from_thread` tells apart. -/
inductive SchedClass where
  | idle | deadlineRt | system | fifoRt | fair
  deriving DecidableEq, Repr

/-- `bh_exec_constraints_k_t` -/
structure ExecConstraints where
  cpuMask : BitVec 32
  flags : Nat
  latencyTargetUs : Nat
  energyBudgetUw : Nat
  deriving DecidableEq, Repr

structure ThreadAttr where
  wcetMs : Nat
  periodMs : Nat
  deadlineMs : Nat
  deriving DecidableEq, Repr

/-- A thread id, with the three numbers that it packs. -/
structure Tid where
  generation : BitVec 32
  core : Nat
  slot : Nat
  deriving DecidableEq, Repr

/-- Thread ids are compared as 64-bit numbers. -/
def Tid.before (a b : Tid) : Bool :=
  a.generation < b.generation ∨ a.generation = b.generation ∧
    (a.core < b.core ∨ a.core = b.core ∧ a.slot < b.slot)

/-- A thread slot of a core. The bootstrap threads follow the ordinary ones. -/
structure ThreadRef where
  core : Nat
  slot : Nat
  deriving DecidableEq, Repr

structure EntityRef where
  core : Nat
  slot : Nat
  deriving DecidableEq, Repr

def Tid.ref (tid : Tid) : ThreadRef := ⟨tid.core, tid.slot⟩

/-- What a `cpu_context` pointer points to. -/
inductive ContextRef where
  | slot (t : ThreadRef)
  | entity (e : EntityRef)
  deriving DecidableEq, Repr

/-- `bh_thread_t`; `locatorSlot` is the slot of `owner_locator`, and `kernelStack` whether there
is a stack. -/
structure BhThread where
  threadId : Tid := ⟨0, 0, 0⟩
  homeCoreId : Nat := 0
  isIdle : Bool := false
  constraints : ExecConstraints := ⟨0, 0, 0, 0⟩
  cpuContext : ContextRef
  kernelStack : Bool := false
  state : ThreadState := .ready
  priority : Nat := 0
  basePriority : Nat := 0
  timeSliceMs : Nat := 0
  cpuTimeConsumed : Nat := 0
  vruntime : Int := 0
  weight : Nat := 0
  absoluteDeadlineMs : Nat := 0
  rtAttr : ThreadAttr := ⟨0, 0, 0⟩
  wakeDeadlineMs : Nat := 0
  ipcDeadlineTicks : Nat := 0
  boundCoreId : Nat := 0
  affinityMask : BitVec 32 := 0
  ownerCpu : Nat := 0
  ownerState : ThreadOwnerState := .none
  enqueued : Bool := false
  locatorSlot : Nat := 0
  migrationTargetCpu : Nat := 0
  migrationState : SchedMig := .none
  migrationEpoch : BitVec 32 := 0
  deriving DecidableEq, Repr

structure ThreadSlot where
  inUse : Bool := false
  isBootstrap : Bool := false
  generation : BitVec 32 := 0
  thread : BhThread
  reapPending : Bool := false
  isOnRunqueue : Bool := false
  isSleeping : Bool := false
  isBlocked : Bool := false
  deriving DecidableEq, Repr

/-- `sched_entity_t`, as `memset` leaves it. -/
structure SchedEntity where
  tid : Tid := ⟨0, 0, 0⟩
  state : ThreadState := .ready
  priority : Nat := 0
  basePriority : Nat := 0
  affinityMask : BitVec 32 := 0
  constraints : ExecConstraints := ⟨0, 0, 0, 0⟩
  vruntime : Int := 0
  absoluteDeadline : Nat := 0
  rtAttr : ThreadAttr := ⟨0, 0, 0⟩
  migrationEpoch : BitVec 32 := 0
  migrationState : SchedMig := .none
  runnable : Bool := false
  isOnRunqueue : Bool := false
  deriving DecidableEq, Repr

structure EntitySlot where
  inUse : Bool := false
  entity : SchedEntity := {}
  deriving DecidableEq, Repr

/-- The part of `sched_rq_t` that links entities, and what counts them. -/
structure RunLists where
  readyQueue : Nat → List EntityRef := fun _ => []
  readyBitmap : BitVec 32 := 0
  cfsRunqueue : List EntityRef := []
  minVruntime : Int := 0
  edfRunqueue : List EntityRef := []
  runnableCount : Nat := 0

/-- The rest of `sched_rq_t`. -/
structure SchedRq where
  policy : SchedPolicy
  currentThread : Option ThreadRef
  idleThread : Option ThreadRef
  sleepingList : List ThreadRef := []
  blockedList : List ThreadRef := []
  totalTicks : Nat := 0
  throttled : Bool := false
  schedIsolated : Bool := false
  reapQueue : List Nat := []
  freeThreads : List Nat
  freeEntities : List Nat
  loadSnapshot : Nat := 0

/-- The commands of `sched_remote_cmd_type_t` that are ever sent. -/
inductive SchedCmdType where
  | wake | enqueue | setPriority | setAffinity | setConstraints | quarantine | terminate | reap
  | handoff | stealReq | migrateReserve | migrateStage | migrateCommitIdentity | migrateActivate
  | queryState | migratePrepare
  deriving DecidableEq, Repr

/-- `sched_remote_cmd_envelope_t`. `handle` stands for the slot and the generation of the
command at core `originCpu`. -/
structure SchedEnvelope where
  handle : Nat := 0
  originCpu : Nat := 0
  type : SchedCmdType
  sourceCpu : Nat
  targetCpu : Nat
  threadId : Tid := ⟨0, 0, 0⟩
  migrationEpoch : BitVec 32 := 0
  flags : BitVec 32 := 0
  priority : Nat := 0
  constraints : ExecConstraints := ⟨0, 0, 0, 0⟩
  context : Nat := 0
  vruntime : Int := 0
  absoluteDeadline : Nat := 0
  rtAttr : ThreadAttr := ⟨0, 0, 0⟩
  targetEntitySlot : Nat := 0
  deriving DecidableEq, Repr

/-- An allocated `sched_remote_cmd_t` with its completion cell: whether it was acknowledged and
the result. A command that is not `pending` was never sent and is never released. -/
structure SchedCmd where
  envelope : SchedEnvelope
  completion : Option (Bool × Int) := none
  pending : Bool := true
  deriving DecidableEq, Repr

/-- The outbound commands of all cores, and the command ring of each core. A handle is not given
out twice: in the source it comes again after 2^32 - 1 allocations of its slot. So no receiver
finds one among its recent transactions, and that log is left out. -/
structure SchedMail where
  cmds : List SchedCmd := []
  inbox : Nat → List SchedEnvelope := fun _ => []
  nextHandle : Nat := 0

/-- A release of a kernel stack, and whether a core executed on it. -/
structure StackFree where
  thread : ThreadRef
  executed : Bool
  deriving DecidableEq, Repr

/-- The extended registers of the cores, the memory of the threads for them, and `g_fp_owner`. -/
structure ExtState where
  regs : Nat → Nat := fun _ => 0
  saved : ThreadRef → Nat := fun _ => 0
  fpOwner : Option ThreadRef := none

structure Machine where
  executing : Nat → ThreadRef
  regs : Nat → Nat := fun _ => 0
  context : ContextRef → Nat := fun _ => 0
  ext : ExtState := {}
  stackFrees : List StackFree := []

structure SchedSystem where
  slot : ThreadRef → ThreadSlot
  entity : EntityRef → EntitySlot
  rq : Nat → SchedRq
  lists : Nat → RunLists
  mail : SchedMail
  machine : Machine
  timerTicks : Nat

/-- What an architecture does with the extended state of a thread when a core switches away from
it (`arch_ext_state_save`, and the switch itself) and when it switches to it. -/
structure ArchExt where
  save : Nat → ThreadRef → ExtState → ExtState
  restore : Nat → ThreadRef → ExtState → ExtState

namespace ArchExt

/-- On x86_64 it is `arch_context_switch` that saves and restores. -/
def x8664 : ArchExt where
  save core t ext := { ext with saved := update ext.saved t (ext.regs core) }
  restore core t ext := { ext with regs := update ext.regs core (ext.saved t) }

/-- Only the owner's state is saved, and the fault that would make a thread the owner is never
taken, since access to the registers stays enabled. -/
def arm64 : ArchExt where
  save core t ext :=
    if ext.fpOwner = some t then
      { ext with saved := update ext.saved t (ext.regs core), fpOwner := none }
    else ext
  restore _ _ ext := ext

/-- A switch away from a thread records its state, and a switch to one keeps what is recorded. -/
structure Records (arch : ArchExt) : Prop where
  save : ∀ core t ext, (arch.save core t ext).saved t = ext.regs core
  restore : ∀ core t ext, (arch.restore core t ext).saved = ext.saved

theorem x8664_records : x8664.Records := ⟨fun _ _ _ => by simp [x8664], fun _ _ _ => rfl⟩

theorem arm64_not_records : ¬ arm64.Records := fun records =>
  absurd (records.save 0 ⟨0, 0⟩ { regs := fun _ => 1 }) (by simp [arm64])

end ArchExt

/-- `count` is `g_active_core_count`, `allowsClass` is `cpu_partition_allows_class`, and `ndebug`
says whether the checks of a debug build are left out. -/
structure SchedConfig where
  count : Nat
  allowsClass : Nat → SchedClass → Bool
  ndebug : Bool
  arch : ArchExt

def schedMaxThreads : Nat := 128

def schedMaxLocalEntities : Nat := 256

def schedRemoteCmdCapacity : Nat := 256

def schedMaxPriority : Nat := 31

def schedAffinityAny : BitVec 32 := 0xFFFFFFFF

def schedDefaultSliceMs : Nat := 10

namespace SchedSystem

/-! ## Reading and changing one record -/

def thread (s : SchedSystem) (t : ThreadRef) : BhThread := (s.slot t).thread

def ent (s : SchedSystem) (e : EntityRef) : SchedEntity := (s.entity e).entity

def modifySlot (s : SchedSystem) (t : ThreadRef) (change : ThreadSlot → ThreadSlot) :
    SchedSystem :=
  { s with slot := update s.slot t (change (s.slot t)) }

def modifyThread (s : SchedSystem) (t : ThreadRef) (change : BhThread → BhThread) : SchedSystem :=
  s.modifySlot t fun slot => { slot with thread := change slot.thread }

def modifyEntity (s : SchedSystem) (e : EntityRef) (change : SchedEntity → SchedEntity) :
    SchedSystem :=
  let changed : EntitySlot := { s.entity e with entity := change (s.ent e) }
  { s with entity := update s.entity e changed }

def modifyRq (s : SchedSystem) (core : Nat) (change : SchedRq → SchedRq) : SchedSystem :=
  { s with rq := update s.rq core (change (s.rq core)) }

def modifyLists (s : SchedSystem) (core : Nat) (change : RunLists → RunLists) : SchedSystem :=
  { s with lists := update s.lists core (change (s.lists core)) }

def setCurrent (s : SchedSystem) (core : Nat) (current : Option ThreadRef) : SchedSystem :=
  s.modifyRq core fun rq => { rq with currentThread := current }

section Updates

variable (s : SchedSystem) (t r : ThreadRef) (e f : EntityRef) (core c : Nat)
  (onSlot : ThreadSlot → ThreadSlot) (onThread : BhThread → BhThread)
  (onEntity : SchedEntity → SchedEntity) (onRq : SchedRq → SchedRq)
  (onLists : RunLists → RunLists)

@[simp] theorem modifySlot_slot :
    (s.modifySlot t onSlot).slot r = if r = t then onSlot (s.slot t) else s.slot r := by
  by_cases h : r = t
  · subst h; simp [modifySlot]
  · simp [modifySlot, h]

@[simp] theorem modifySlot_thread : (s.modifySlot t onSlot).thread r =
    if r = t then (onSlot (s.slot t)).thread else s.thread r := by
  unfold thread
  rw [modifySlot_slot]
  split <;> rfl

@[simp] theorem modifySlot_rq : (s.modifySlot t onSlot).rq = s.rq := rfl
@[simp] theorem modifySlot_machine : (s.modifySlot t onSlot).machine = s.machine := rfl

@[simp] theorem modifyThread_slot : (s.modifyThread t onThread).slot r =
    if r = t then { s.slot t with thread := onThread (s.thread t) } else s.slot r :=
  modifySlot_slot s t r _

@[simp] theorem modifyThread_thread : (s.modifyThread t onThread).thread r =
    if r = t then onThread (s.thread t) else s.thread r :=
  modifySlot_thread s t r _

@[simp] theorem modifyThread_rq : (s.modifyThread t onThread).rq = s.rq := rfl
@[simp] theorem modifyThread_machine : (s.modifyThread t onThread).machine = s.machine := rfl

@[simp] theorem modifyEntity_entity : (s.modifyEntity e onEntity).entity f =
    if f = e then { s.entity e with entity := onEntity (s.ent e) } else s.entity f := by
  by_cases h : f = e
  · subst h; simp [modifyEntity]
  · simp [modifyEntity, h]

@[simp] theorem modifyEntity_ent : (s.modifyEntity e onEntity).ent f =
    if f = e then onEntity (s.ent e) else s.ent f := by
  unfold ent
  rw [modifyEntity_entity]
  split <;> rfl


@[simp] theorem modifyRq_rq : (s.modifyRq core onRq).rq c =
    if c = core then onRq (s.rq core) else s.rq c := by
  by_cases h : c = core
  · subst h; simp [modifyRq]
  · simp [modifyRq, h]

@[simp] theorem modifyRq_slot : (s.modifyRq core onRq).slot = s.slot := rfl
@[simp] theorem modifyRq_thread : (s.modifyRq core onRq).thread t = s.thread t := rfl
@[simp] theorem modifyRq_machine : (s.modifyRq core onRq).machine = s.machine := rfl


end Updates

/-! ## Finding threads and entities -/

variable (cfg : SchedConfig)

/-- `sched_find_thread_slot_by_tid` -/
def findThread (s : SchedSystem) (tid : Tid) : Option ThreadRef :=
  if tid.core < cfg.count ∧ tid.slot < schedMaxThreads + 2 ∧ (s.slot tid.ref).inUse ∧
      (s.thread tid.ref).threadId = tid then some tid.ref
  else none

/-- `sched_find_thread_slot_by_tid_local` -/
def findThreadLocal (s : SchedSystem) (core : Nat) (tid : Tid) : Option ThreadRef :=
  if tid.core = core then s.findThread cfg tid else none

variable {s : SchedSystem} {t : ThreadRef} {tid : Tid} {core : Nat}

variable {cfg} in
theorem findThread_ref (found : s.findThread cfg tid = some t) :
    t = tid.ref ∧ (s.thread t).threadId = tid ∧ (s.slot t).inUse = true := by
  unfold findThread at found
  split_ifs at found with known
  cases found
  exact ⟨rfl, known.2.2.2, known.2.2.1⟩

variable {cfg} in
theorem findThreadLocal_ref (found : s.findThreadLocal cfg core tid = some t) :
    tid.core = core ∧ t = tid.ref ∧ (s.thread t).threadId = tid ∧ (s.slot t).inUse = true := by
  unfold findThreadLocal at found
  split_ifs at found with own
  exact ⟨own, findThread_ref found⟩

def holdsEntity (s : SchedSystem) (tid : Tid) (e : EntityRef) : Bool :=
  (s.entity e).inUse ∧ (s.ent e).tid = tid

/-- `sched_find_entity_by_tid_local` -/
def findEntityLocal (s : SchedSystem) (core : Nat) (tid : Tid) : Option EntityRef :=
  ((List.range schedMaxLocalEntities).map (EntityRef.mk core)).find? (s.holdsEntity tid)

theorem mem_findEntityLocal {e : EntityRef} (found : s.findEntityLocal core tid = some e) :
    e.core = core ∧ s.holdsEntity tid e = true := by
  obtain ⟨idx, -, rfl⟩ := List.mem_map.mp (List.mem_of_find?_eq_some found)
  exact ⟨rfl, List.find?_some found⟩

/-- `sched_find_entity_by_thread` -/
def findEntity (s : SchedSystem) (t : ThreadRef) : Option EntityRef :=
  let thread := s.thread t
  let located : EntityRef := ⟨thread.ownerCpu, thread.locatorSlot⟩
  if cfg.count ≤ thread.ownerCpu then none
  else if thread.locatorSlot < schedMaxLocalEntities ∧ s.holdsEntity thread.threadId located then
    some located
  else s.findEntityLocal thread.ownerCpu thread.threadId

def schedPolicyForCore (s : SchedSystem) (core : Nat) : SchedPolicy :=
  if core < cfg.count then (s.rq core).policy else .roundRobin

/-- `sched_class_mask_from_thread` -/
def schedClassOfThread (s : SchedSystem) (t : ThreadRef) (core : Nat) : SchedClass :=
  if (s.thread t).isIdle then .idle
  else match s.schedPolicyForCore cfg core with
    | .edf | .rms => .deadlineRt
    | .roundRobin | .priority => if 24 ≤ (s.thread t).priority then .system else .fifoRt
    | .cloudFair => .fair

def schedIsCoreAdmissible (s : SchedSystem) (t : ThreadRef) (core : Nat) : Bool :=
  core < 32 ∧ ((s.thread t).isIdle ∨
    cfg.allowsClass core (s.schedClassOfThread cfg t core) ∧
    (s.thread t).affinityMask.getLsbD core ∧ (s.thread t).constraints.cpuMask.getLsbD core)

def schedAllocateEntity (s : SchedSystem) (core : Nat) : Option (SchedSystem × EntityRef) :=
  if cfg.count ≤ core then none
  else match (s.rq core).freeEntities with
    | [] => none
    | idx :: rest =>
      let s := s.modifyRq core fun rq => { rq with freeEntities := rest }
      some ({ s with entity := update s.entity ⟨core, idx⟩ ⟨true, {}⟩ }, ⟨core, idx⟩)

/-- `sched_free_entity`; an entity of another core's pool is left alone. -/
def schedFreeEntity (s : SchedSystem) (core : Nat) (e : EntityRef) : SchedSystem :=
  if core < cfg.count ∧ e.core = core ∧ (s.entity e).inUse then
    let s := s.modifyRq core fun rq => { rq with freeEntities := e.slot :: rq.freeEntities }
    { s with entity := update s.entity e { s.entity e with inUse := false } }
  else s

end SchedSystem

end BharatOS
