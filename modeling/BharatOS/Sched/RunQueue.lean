import BharatOS.Sched.State
import Mathlib.Data.List.Sort

/-!
# Runqueues (`sched_runqueue.c`, `sched_gp.c`, `sched_rt.c`, `sched_policy.c`, `sched.c`)

`none` stands for a panic of the kernel, and for a step whose effect C does not define: `rb_erase`
of a node that is not in the tree, or the head of an empty list taken for an entity. The invariant
checks are those of the default build.
-/

namespace BharatOS

open Function

namespace SchedSystem

variable (cfg : SchedConfig)

/-! ## Fair tree and EDF tree -/

/-- The wakeup bound of `sched_cfs_enqueue`: no thread starts behind the least `vruntime`. -/
def boundVruntime (s : SchedSystem) (core : Nat) (t : ThreadRef) (e : EntityRef) : SchedSystem :=
  if (s.ent e).vruntime < (s.lists core).minVruntime then
    (s.modifyEntity e ({ · with vruntime := (s.lists core).minVruntime })).modifyThread t
      ({ · with vruntime := (s.lists core).minVruntime })
  else s

/-- The order of the fair tree. -/
def fairBefore (s : SchedSystem) (node entry : EntityRef) : Bool :=
  (s.ent node).vruntime < (s.ent entry).vruntime

/-- The insertion of `sched_cfs_enqueue`. A new leftmost node gives the least `vruntime`. -/
def fairInsert (s : SchedSystem) (core : Nat) (e : EntityRef) : SchedSystem :=
  s.modifyLists core fun l => { l with
    cfsRunqueue := l.cfsRunqueue.orderedInsert (s.fairBefore · ·) e
    minVruntime :=
      if ∀ first ∈ l.cfsRunqueue.head?, s.fairBefore e first then (s.ent e).vruntime
      else l.minVruntime }

def schedCfsEnqueue (s : SchedSystem) (core : Nat) (t : ThreadRef) : SchedSystem :=
  match s.findEntity cfg t with
  | none => s
  | some e => (s.boundVruntime core t e).fairInsert core e

/-- The removal of `sched_cfs_dequeue`. After the leftmost node its successor gives the least
`vruntime`. -/
def fairErase (s : SchedSystem) (core : Nat) (e : EntityRef) : SchedSystem :=
  s.modifyLists core fun l => { l with
    cfsRunqueue := l.cfsRunqueue.erase e
    minVruntime :=
      if l.cfsRunqueue.head? = some e then
        ((l.cfsRunqueue.erase e).head?.map fun next => (s.ent next).vruntime).getD l.minVruntime
      else l.minVruntime }

def schedCfsDequeue (s : SchedSystem) (core : Nat) (t : ThreadRef) : Option SchedSystem :=
  match s.findEntity cfg t with
  | none => some s
  | some e =>
    if (s.lists core).cfsRunqueue = [] then some s
    else if e ∈ (s.lists core).cfsRunqueue then some (s.fairErase core e)
    else none

/-- The order of `sched_edf_enqueue`: earlier deadline, higher priority, smaller id. -/
def edfBefore (s : SchedSystem) (node entry : EntityRef) : Bool :=
  let a := s.ent node
  let b := s.ent entry
  a.absoluteDeadline < b.absoluteDeadline ∨ a.absoluteDeadline = b.absoluteDeadline ∧
    (b.priority < a.priority ∨ a.priority = b.priority ∧ a.tid.before b.tid)

/-- A thread without a deadline gets one from the clock. -/
def clockDeadline (s : SchedSystem) (t : ThreadRef) : SchedSystem :=
  if (s.thread t).absoluteDeadlineMs = 0 ∧ 0 < (s.thread t).rtAttr.deadlineMs then
    s.modifyThread t
      ({ · with absoluteDeadlineMs := s.timerTicks + (s.thread t).rtAttr.deadlineMs })
  else s

/-- The insertion of `sched_edf_enqueue`. -/
def edfInsert (s : SchedSystem) (core : Nat) (e : EntityRef) : SchedSystem :=
  s.modifyLists core fun l => { l with
    edfRunqueue := l.edfRunqueue.orderedInsert (s.edfBefore · ·) e }

def schedEdfEnqueue (s : SchedSystem) (core : Nat) (t : ThreadRef) : SchedSystem :=
  let s := s.clockDeadline t
  match s.findEntity cfg t with
  | none => s
  | some e =>
    (s.modifyEntity e ({ · with absoluteDeadline := (s.thread t).absoluteDeadlineMs })).edfInsert
      core e

def schedEdfDequeue (s : SchedSystem) (core : Nat) (t : ThreadRef) : Option SchedSystem :=
  match s.findEntity cfg t with
  | none => some s
  | some e =>
    if (s.lists core).edfRunqueue = [] then some s
    else if e ∈ (s.lists core).edfRunqueue then
      some (s.modifyLists core fun l => { l with edfRunqueue := l.edfRunqueue.erase e })
    else none

/-! ## Linking and unlinking -/

/-- `list_add` to a ready queue, and `sched_ready_bitmap_set`. -/
def listAdd (s : SchedSystem) (core : Nat) (e : EntityRef) (prio : Nat) : SchedSystem :=
  s.modifyLists core fun l => { l with
    readyQueue := update l.readyQueue prio (e :: l.readyQueue prio)
    readyBitmap := l.readyBitmap ||| 1#32 <<< prio }

/-- `list_del` of the run node of an entity, from whatever ready queue it is in. -/
def listDel (s : SchedSystem) (e : EntityRef) : SchedSystem :=
  { s with lists := fun c => { s.lists c with
      readyQueue := fun p => ((s.lists c).readyQueue p).erase e } }

def schedReadyBitmapClearIfEmpty (s : SchedSystem) (core prio : Nat) : SchedSystem :=
  s.modifyLists core fun l =>
    if prio < 32 ∧ l.readyQueue prio = [] then
      { l with readyBitmap := l.readyBitmap &&& ~~~(1#32 <<< prio) }
    else l

/-- Link an entity in the structure of the policy of the core. The callers give the priority
of the ready queue. -/
def linkByPolicy (s : SchedSystem) (core : Nat) (t : ThreadRef) (e : EntityRef) (prio : Nat) :
    SchedSystem :=
  match (s.rq core).policy with
  | .cloudFair => s.schedCfsEnqueue cfg core t
  | .edf => s.schedEdfEnqueue cfg core t
  | _ => s.listAdd core e prio

/-- The lines that every function with a link to make ends with. -/
def linkEntity (s : SchedSystem) (core : Nat) (t : ThreadRef) (e : EntityRef) (prio : Nat) :
    SchedSystem :=
  ((s.linkByPolicy cfg core t e prio).modifyEntity e ({ · with isOnRunqueue := true })).modifyLists
    core fun l => { l with runnableCount := l.runnableCount + 1 }

def unlinkByPolicy (s : SchedSystem) (core : Nat) (t : ThreadRef) (e : EntityRef) (prio : Nat) :
    Option SchedSystem :=
  match (s.rq core).policy with
  | .cloudFair => s.schedCfsDequeue cfg core t
  | .edf => s.schedEdfDequeue cfg core t
  | _ => some ((s.listDel e).schedReadyBitmapClearIfEmpty core prio)

def offRunqueue (s : SchedSystem) (core : Nat) (e : EntityRef) : SchedSystem :=
  (s.modifyEntity e ({ · with isOnRunqueue := false })).modifyLists
    core fun l => { l with runnableCount := l.runnableCount - 1 }

/-- The lines with which an entity that is on the runqueue is taken off. -/
def unlinkEntity (s : SchedSystem) (core : Nat) (t : ThreadRef) (e : EntityRef) (prio : Nat) :
    Option SchedSystem :=
  (s.unlinkByPolicy cfg core t e prio).map (·.offRunqueue core e)

/-- The same lines for the flag of a thread slot. The run node of a slot is in no list, so that
`list_del` does nothing to it. -/
def dequeueSlot (s : SchedSystem) (core : Nat) (t : ThreadRef) : Option SchedSystem :=
  (match (s.rq core).policy with
    | .cloudFair => s.schedCfsDequeue cfg core t
    | .edf => s.schedEdfDequeue cfg core t
    | _ => some (s.schedReadyBitmapClearIfEmpty core (s.thread t).priority)).map
  fun s : SchedSystem =>
    (s.modifySlot t ({ · with isOnRunqueue := false })).modifyLists
      core fun l => { l with runnableCount := l.runnableCount - 1 }

/-! ## Invariant checks -/

def schedQuarantineThread (s : SchedSystem) (core : Nat) (t : ThreadRef) : Option SchedSystem :=
  if (s.thread t).ownerCpu ≠ core then none
  else
    let s := s.modifyThread t ({ · with state := .quarantined, ownerState := .quarantined })
    if (s.thread t).boundCoreId = core then
      match s.findThreadLocal cfg core (s.thread t).threadId with
      | none => some s
      | some r => if (s.slot r).isOnRunqueue then s.dequeueSlot cfg core r else some s
    else some s

def schedInvariantOnEnqueue (s : SchedSystem) (core : Nat) (t : ThreadRef) : Option SchedSystem :=
  (if (s.thread t).enqueued then s.schedQuarantineThread cfg core t else some s).bind fun s =>
  (if (s.thread t).ownerState = .running ∧ (s.thread t).ownerCpu ≠ core then
    s.schedQuarantineThread cfg core t else some s).map fun s =>
  s.modifyThread t ({ · with enqueued := true, ownerCpu := core, ownerState := .runqueue })

def schedInvariantOnDequeue (s : SchedSystem) (core : Nat) (t : ThreadRef) : Option SchedSystem :=
  (if (s.thread t).enqueued then some s else s.schedQuarantineThread cfg core t).map fun s =>
  s.modifyThread t ({ · with enqueued := false })

def schedInvariantOnSwitch (s : SchedSystem) (core : Nat) (prev : Option ThreadRef)
    (next : ThreadRef) : Option SchedSystem :=
  let s :=
    match prev with
    | none => s
    | some p =>
      match (s.thread p).state with
      | .running => s.modifyThread p ({ · with ownerState := .running, ownerCpu := core })
      | .blocked | .sleeping => s.modifyThread p ({ · with ownerState := .blocked })
      | _ => s
  (if (s.thread next).enqueued then s.schedQuarantineThread cfg core next else some s).map fun s =>
  s.modifyThread next ({ · with ownerState := .running, ownerCpu := core })

/-- What `sched_validate_rq` finds right: the count, the least `vruntime` of a fair core, and the
bitmap of the others. -/
def rqValid (s : SchedSystem) (core : Nat) : Bool :=
  let l := s.lists core
  let agrees : Bool := match (s.rq core).policy with
    | .cloudFair => ∀ first ∈ l.cfsRunqueue.head?, l.minVruntime ≤ (s.ent first).vruntime + 1000
    | _ => (List.range 32).all fun prio =>
        (l.readyQueue prio).isEmpty = !l.readyBitmap.getLsbD prio
  l.runnableCount ≤ schedMaxThreads ∧ agrees

def schedValidateRq (s : SchedSystem) (core : Nat) : Option SchedSystem :=
  if cfg.ndebug ∨ s.rqValid core then some s else none

/-! ## Enqueue on the local core, and dequeue -/

/-- The entity of a thread, or a new one. -/
def entityForEnqueue (s : SchedSystem) (core : Nat) (t : ThreadRef) :
    Option (SchedSystem × EntityRef) :=
  match s.findEntity cfg t with
  | some e => some (s, e)
  | none => (s.schedAllocateEntity cfg core).map fun (s, e) =>
    let thread := s.thread t
    let s := s.modifyEntity e fun _ => {
      tid := thread.threadId
      priority := thread.priority
      basePriority := thread.basePriority
      affinityMask := thread.affinityMask
      vruntime := thread.vruntime
      absoluteDeadline := thread.absoluteDeadlineMs
      rtAttr := thread.rtAttr }
    let s := { s with machine := { s.machine with
      context := update s.machine.context (.entity e)
        (s.machine.context thread.cpuContext) } }
    (s.modifyThread t
      ({ · with ownerCpu := core, locatorSlot := e.slot, cpuContext := .entity e }), e)

/-- The first deadline of a periodic thread, which `sched_enqueue` sets on an EDF core. -/
def stampDeadline (s : SchedSystem) (core : Nat) (t : ThreadRef) (e : EntityRef) : SchedSystem :=
  let thread := s.thread t
  if (s.rq core).policy = .edf ∧ 0 < thread.rtAttr.periodMs ∧ 0 < thread.rtAttr.deadlineMs ∧
      thread.absoluteDeadlineMs = 0 then
    let deadline := (s.rq core).totalTicks + thread.rtAttr.deadlineMs
    (s.modifyThread t ({ · with absoluteDeadlineMs := deadline })).modifyEntity e
      ({ · with absoluteDeadline := deadline })
  else s

/-- An entity that is on the runqueue is taken off it. -/
def takeOff (s : SchedSystem) (core : Nat) (t : ThreadRef) (e : EntityRef) : Option SchedSystem :=
  if (s.ent e).isOnRunqueue then
    (s.schedInvariantOnDequeue cfg core t).bind fun s =>
      s.unlinkEntity cfg core t e (s.ent e).priority
  else some s

def makeReady (s : SchedSystem) (core : Nat) (t : ThreadRef) (e : EntityRef) : SchedSystem :=
  (s.modifyThread t ({ · with boundCoreId := core, state := .ready })).modifyEntity e
    ({ · with state := .ready, runnable := true })

/-- The entity gets the deadline and the attributes of the thread. -/
def copyDeadline (s : SchedSystem) (t : ThreadRef) (e : EntityRef) : SchedSystem :=
  s.modifyEntity e ({ · with
    absoluteDeadline := (s.thread t).absoluteDeadlineMs, rtAttr := (s.thread t).rtAttr })

/-- An entity that is off the runqueue is put on it, at its own priority. -/
def putOn (s : SchedSystem) (core : Nat) (t : ThreadRef) (e : EntityRef) : Option SchedSystem :=
  (s.schedInvariantOnEnqueue cfg core t).map fun s =>
    s.linkEntity cfg core t e (s.ent e).priority

/-- The local part of `sched_enqueue`, after its checks. -/
def enqueueLocal (s : SchedSystem) (core : Nat) (t : ThreadRef) : Option (SchedSystem × Int) :=
  match s.entityForEnqueue cfg core t with
  | none => some (s, -1)
  | some (s, e) =>
    (s.takeOff cfg core t e).bind fun s =>
    ((s.makeReady core t e).schedInvariantOnEnqueue cfg core t).bind fun s =>
    let s := (s.copyDeadline t e).stampDeadline core t e
    ((s.linkEntity cfg core t e (s.ent e).priority).schedValidateRq cfg core).map (·, 0)

/-! ## The next thread -/

def schedPickPriorityFromBitmap (bitmap : BitVec 32) (highest : Bool) : Option Nat :=
  if highest then (List.range 32).reverse.find? (bitmap.getLsbD ·)
  else (List.range 32).find? (bitmap.getLsbD ·)

def schedCfsPickNext (s : SchedSystem) (core : Nat) : Option ThreadRef :=
  (s.lists core).cfsRunqueue.head?.bind fun e => s.findThread cfg (s.ent e).tid

def schedEdfPickNext (s : SchedSystem) (core : Nat) : Option ThreadRef :=
  (s.lists core).edfRunqueue.head?.bind fun e => s.findThread cfg (s.ent e).tid

/-- The thread that `sched_pick_next_ready` takes from a ready queue. -/
def takeFromList (s : SchedSystem) (core : Nat) : Option (SchedSystem × Option ThreadRef) :=
  let highest : Bool := (s.rq core).policy ≠ .roundRobin
  match schedPickPriorityFromBitmap (s.lists core).readyBitmap highest with
  | none => some (s, none)
  | some prio =>
    match ((s.lists core).readyQueue prio).getLast? with
    | none => none
    | some e =>
      match s.findThread cfg (s.ent e).tid with
      | none => some (s, none)
      | some t => (s.schedInvariantOnDequeue cfg core t).map fun s =>
          (((s.listDel e).schedReadyBitmapClearIfEmpty core prio).offRunqueue core e, some t)

/-- The thread that `sched_pick_next_ready` takes off the runqueue. The trees lose its node, but
the entity keeps its flag and the count stays. -/
def takeNext (s : SchedSystem) (core : Nat) : Option (SchedSystem × Option ThreadRef) :=
  match (s.rq core).policy with
  | .cloudFair =>
    match s.schedCfsPickNext cfg core with
    | none => some (s, none)
    | some t => (s.schedInvariantOnDequeue cfg core t).bind fun s =>
        (s.schedCfsDequeue cfg core t).map (·, some t)
  | .edf =>
    match s.schedEdfPickNext cfg core with
    | none => some (s, none)
    | some t => (s.schedInvariantOnDequeue cfg core t).bind fun s =>
        (s.schedEdfDequeue cfg core t).map (·, some t)
  | _ => s.takeFromList cfg core

def schedValidatePickedCandidate (s : SchedSystem) (core : Nat) (candidate : ThreadRef) :
    Option ThreadRef :=
  if (s.thread candidate).ownerCpu ≠ core then (s.rq core).idleThread
  else if s.schedIsCoreAdmissible cfg candidate core then some candidate
  else (s.rq core).idleThread

def schedPickNextReady (s : SchedSystem) (core : Nat) :
    Option (SchedSystem × Option ThreadRef) :=
  (s.takeNext cfg core).map fun (s, next) =>
    match next with
    | none => (s, (s.rq core).idleThread)
    | some t => (s, s.schedValidatePickedCandidate cfg core t)

/-! ## The switch -/

/-- The current thread is put back, into the ready queue of the priority in its own record. -/
def requeueThread (s : SchedSystem) (core : Nat) (t : ThreadRef) (e : EntityRef) :
    Option SchedSystem :=
  (((s.modifyThread t ({ · with state := .ready })).modifyEntity e
    ({ · with state := .ready })).schedInvariantOnEnqueue cfg core t).bind fun s =>
    (s.linkEntity cfg core t e (s.thread t).priority).schedValidateRq cfg core

/-- The part of `sched_switch_to` that puts the current thread back if it is still running. -/
def requeueCurrent (s : SchedSystem) (core : Nat) : Option SchedSystem :=
  match (s.rq core).currentThread with
  | none => some s
  | some t =>
    if (s.rq core).idleThread ≠ some t ∧ (s.thread t).state = .running then
      match s.findEntity cfg t with
      | none => some s
      | some e => if (s.ent e).isOnRunqueue then some s else s.requeueThread cfg core t e
    else some s

/-- `arch_ext_state_save`, `arch_context_switch` and `arch_ext_state_restore`. Without a previous
thread nothing is saved, and the bootstrap threads have no memory for extended state. -/
def archContextSwitch (s : SchedSystem) (core : Nat) (prev : Option ThreadRef)
    (next : ThreadRef) : SchedSystem :=
  let m := s.machine
  let context := match prev with
    | none => m.context
    | some p => update m.context (s.thread p).cpuContext (m.regs core)
  let ext := match prev with
    | none => m.ext
    | some p => if (s.slot p).isBootstrap then m.ext else cfg.arch.save core p m.ext
  { s with machine := { m with
      context := context
      ext := if (s.slot next).isBootstrap then ext else cfg.arch.restore core next ext
      regs := update m.regs core (context (s.thread next).cpuContext)
      executing := update m.executing core next } }

def schedSwitchTo (s : SchedSystem) (core : Nat) (next : Option ThreadRef) : Option SchedSystem :=
  match next with
  | none => some s
  | some n =>
    let current := (s.rq core).currentThread
    if current = some n then some s
    else
      (s.requeueCurrent cfg core).bind fun s =>
      (s.schedInvariantOnSwitch cfg core current n).map fun s =>
      ((s.modifyThread n ({ · with state := .running })).setCurrent core (some n)).archContextSwitch
        cfg core current n

/-! ## What is linked -/

/-- The entities in the structure that the core's policy picks from. -/
def runEntities (s : SchedSystem) (core : Nat) : List EntityRef :=
  match (s.rq core).policy with
  | .cloudFair => (s.lists core).cfsRunqueue
  | .edf => (s.lists core).edfRunqueue
  | _ => (List.range 32).flatMap (s.lists core).readyQueue

/-- The entity of the thread is in that structure. -/
def isLinked (s : SchedSystem) (core : Nat) (t : ThreadRef) : Bool :=
  (s.findEntity cfg t).any (· ∈ s.runEntities core)

end SchedSystem

end BharatOS
