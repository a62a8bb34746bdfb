import BharatOS.Sched.Handlers

/-!
# Threads, rescheduling and the timer (`sched.c`, `sched_core.c`, `sched_thread.c`, `sched_wait.c`)

A call is one step, whatever part of it runs under a lock: other cores run before or after it. What
is proved of runs is about calls that do not overlap.
-/

namespace BharatOS

namespace SchedSystem

variable (cfg : SchedConfig)

/-! ## Creation and destruction -/

/-- The generation that follows, which is not zero. -/
def nextGeneration (generation : BitVec 32) : BitVec 32 :=
  if generation + 1 = 0 then 1 else generation + 1

theorem nextGeneration_ne_zero (generation : BitVec 32) : nextGeneration generation ≠ 0 := by
  unfold nextGeneration
  split_ifs with zero
  · decide
  · exact zero

/-- A slot as `thread_create_detached` fills it in. -/
def freshSlot (t : ThreadRef) (generation : BitVec 32) : ThreadSlot where
  inUse := true
  generation := generation
  thread := {
    threadId := ⟨generation, t.core, t.slot⟩
    homeCoreId := t.core
    constraints := ⟨schedAffinityAny, 0, 0, 0⟩
    cpuContext := .slot t
    kernelStack := true
    priority := 1
    basePriority := 1
    timeSliceMs := schedDefaultSliceMs
    boundCoreId := t.core
    affinityMask := schedAffinityAny }

/-- `thread_create_detached`; `fits` says whether there is memory for the stack and the extended
state. -/
def threadCreateDetached (s : SchedSystem) (core : Nat) (fits : Bool) : SchedSystem :=
  match (s.rq core).freeThreads with
  | [] => s
  | idx :: rest =>
    let t : ThreadRef := ⟨core, idx⟩
    let fresh := freshSlot t (nextGeneration (s.slot t).generation)
    if fits then
      (s.modifyRq core ({ · with freeThreads := rest })).modifySlot t fun _ => fresh
    else s.modifySlot t fun _ =>
      { fresh with inUse := false, thread := { fresh.thread with kernelStack := false } }

/-- Some core executes on the stack of the thread. -/
def isExecuted (s : SchedSystem) (t : ThreadRef) : Bool :=
  (List.range cfg.count).any fun c => s.machine.executing c = t

/-- The release of the kernel stack in `thread_destroy`. -/
def freeStack (s : SchedSystem) (t : ThreadRef) : SchedSystem :=
  if (s.thread t).kernelStack then
    let s := s.modifyThread t ({ · with kernelStack := false })
    { s with machine := { s.machine with
        stackFrees := s.machine.stackFrees ++ [⟨t, s.isExecuted cfg t⟩] } }
  else s

/-- The end of `thread_destroy`: entity, stack and slot are given back. -/
def reclaim (s : SchedSystem) (core : Nat) (t r : ThreadRef) : SchedSystem :=
  let s := ((s.freeEntityOf cfg (s.thread t).ownerCpu t).freeStack cfg t).modifySlot r
    ({ · with inUse := false, reapPending := false })
  if (s.slot r).isBootstrap then s
  else s.modifyRq core fun rq => { rq with freeThreads := r.slot :: rq.freeThreads }

def threadDestroy (s : SchedSystem) (core : Nat) (t : ThreadRef) : Option (SchedSystem × Int) :=
  if (s.rq core).currentThread = some t then some (s, kErrBadState)
  else match s.findThreadLocal cfg core (s.thread t).threadId with
    | none => some (s, kErrBadThread)
    | some r =>
      if (s.slot r).reapPending then some (s, 0)
      else ((s.modifySlot r ({ · with reapPending := true })).schedDetachThreadFromQueues
        cfg core r).map fun s => (s.reclaim cfg core t r, 0)

/-- The loop of `sched_reap_terminated_threads`. -/
def reapLoop (core : Nat) : Nat → SchedSystem → Option SchedSystem
  | 0, s => some s
  | fuel + 1, s =>
    match (s.rq core).reapQueue with
    | [] => some s
    | idx :: rest =>
      let t : ThreadRef := ⟨core, idx⟩
      let s := (s.modifyRq core ({ · with reapQueue := rest })).modifySlot t
        ({ · with reapPending := false })
      (s.threadDestroy cfg core t).bind fun out => reapLoop core fuel out.1

/-- `sched_reap_terminated_threads`. Nothing is put into the queue while it is emptied. -/
def schedReapTerminatedThreads (s : SchedSystem) (core : Nat) : Option SchedSystem :=
  reapLoop cfg core (s.rq core).reapQueue.length s

/-! ## Rescheduling -/

def schedPublishLoad (s : SchedSystem) (core : Nat) : SchedSystem :=
  s.modifyRq core ({ · with loadSnapshot := (s.lists core).runnableCount })

/-- The end of `sched_reschedule`: the choice of the next thread, and the switch to it. -/
def dispatchNext (s : SchedSystem) (core : Nat) : Option SchedSystem :=
  if (s.rq core).throttled ∧ (s.rq core).idleThread ≠ none then
    (s.schedPublishLoad core).schedSwitchTo cfg core (s.rq core).idleThread
  else (s.schedPickNextReady cfg core).bind fun (s, next) =>
    (s.schedPublishLoad core).schedSwitchTo cfg core next

def schedRemoteDrainBudget : Nat := 64

def schedReschedule (s : SchedSystem) (core : Nat) (polled : List (Nat × Bool)) :
    Option SchedSystem :=
  (schedRemoteCmdPollTimeouts cfg core polled s).bind fun s =>
  (s.schedReapTerminatedThreads cfg core).bind fun s =>
  (drain cfg core schedRemoteDrainBudget s).bind fun s =>
  s.dispatchNext cfg core

/-! ## Stopping the current thread

Each of these calls ends with `sched_reschedule`, or returns early. What it does before is a
function of its own here, which also returns whether the call goes on to reschedule. -/

/-- The end of such a call. -/
def finish (core : Nat) (polled : List (Nat × Bool)) : SchedSystem × Bool → Option SchedSystem
  | (s, true) => s.schedReschedule cfg core polled
  | (s, false) => some s

def schedSleepEnqueue (s : SchedSystem) (core : Nat) (t : ThreadRef) : Option SchedSystem :=
  if (s.slot t).isSleeping ∨ (s.slot t).isBlocked then some s
  else if (s.thread t).ownerCpu ≠ core then none
  else some ((s.modifyRq core fun rq => { rq with sleepingList := t :: rq.sleepingList }).modifySlot
    t ({ · with isSleeping := true }))

def schedBlockEnqueue (s : SchedSystem) (core : Nat) (t : ThreadRef) : Option SchedSystem :=
  if (s.slot t).isSleeping ∨ (s.slot t).isBlocked then some s
  else if (s.thread t).ownerCpu ≠ core then none
  else some ((s.modifyRq core fun rq => { rq with blockedList := t :: rq.blockedList }).modifySlot
    t ({ · with isBlocked := true }))

/-- A thread that waits with a deadline is put into the blocked list. -/
def waitWithDeadline (s : SchedSystem) (core : Nat) (t : ThreadRef) : Option SchedSystem :=
  if 0 < (s.thread t).ipcDeadlineTicks then
    match s.findThreadLocal cfg core (s.thread t).threadId with
    | none => some s
    | some r => s.schedBlockEnqueue core r
  else some s

/-- `sched_block`, up to `sched_reschedule`. The caller has set the deadline of the wait. -/
def schedBlock (s : SchedSystem) (core deadline : Nat) : Option (SchedSystem × Bool) :=
  match (s.rq core).currentThread with
  | none => some (s, false)
  | some t =>
    let s := s.modifyThread t ({ · with ipcDeadlineTicks := deadline, state := .blocked })
    (s.waitWithDeadline cfg core t).map (·, true)

/-- `sched_sleep`, up to `sched_reschedule`. The current thread is forgotten before the switch. -/
def schedSleep (s : SchedSystem) (core millis : Nat) : Option (SchedSystem × Bool) :=
  match (s.rq core).currentThread with
  | none => some (s, false)
  | some t =>
    if (s.rq core).idleThread = some t then some (s, false)
    else match s.findThreadLocal cfg core (s.thread t).threadId with
      | none => some (s, false)
      | some r =>
        let deadline := (s.rq core).totalTicks + millis
        let s := s.modifyThread t ({ · with wakeDeadlineMs := deadline, state := .sleeping })
        (s.schedSleepEnqueue core r).map fun s => (s.setCurrent core none, true)

/-- `sched_thread_exit_trampoline` and `bh_sys_thread_exit`, up to `sched_reschedule`. -/
def schedThreadExitTrampoline (s : SchedSystem) (core : Nat) : Option (SchedSystem × Bool) :=
  match (s.rq core).currentThread with
  | none => some (s, false)
  | some t => (s.schedMarkThreadTerminated cfg core t).map fun out =>
      (out.1.setCurrent core none, true)

/-- `thread_raise_fault`, up to `sched_reschedule`. -/
def threadRaiseFault (s : SchedSystem) (t : ThreadRef) : SchedSystem :=
  s.modifyThread t ({ · with state := .terminated })

/-! ## The timer -/

/-- The walk of `sched_on_timer_tick` over the sleeping threads. -/
def wakeSleepers (core : Nat) : List ThreadRef → SchedSystem → Option SchedSystem
  | [], s => some s
  | t :: rest, s =>
    let woken : Option SchedSystem :=
      if (s.thread t).state = .sleeping ∧ (s.thread t).wakeDeadlineMs ≤ (s.rq core).totalTicks then
        (s.schedWakeTid cfg core (s.thread t).threadId).map (·.1)
      else some s
    woken.bind (wakeSleepers core rest)

/-- Its walk over the blocked threads. -/
def wakeBlocked (core : Nat) : List ThreadRef → SchedSystem → Option SchedSystem
  | [], s => some s
  | t :: rest, s =>
    let woken : Option SchedSystem :=
      if (s.thread t).state = .blocked ∧ 0 < (s.thread t).ipcDeadlineTicks ∧
          (s.thread t).ipcDeadlineTicks ≤ (s.rq core).totalTicks then
        ((s.modifyThread t ({ · with ipcDeadlineTicks := 0 })).schedWakeTid cfg core
          (s.thread t).threadId).map (·.1)
      else some s
    woken.bind (wakeBlocked core rest)

def cfsNice0Weight : Nat := 1024

/-- `sched_cfs_update_vruntime` for one tick. -/
def schedCfsUpdateVruntime (s : SchedSystem) (core : Nat) (t : ThreadRef) : SchedSystem :=
  match s.findEntity cfg t with
  | none => s
  | some e =>
    let v := (s.ent e).vruntime + (cfsNice0Weight / max 1 (s.thread t).weight : Nat)
    let s := (s.modifyEntity e ({ · with vruntime := v })).modifyThread t ({ · with vruntime := v })
    s.modifyLists core fun l =>
      if v < l.minVruntime ∨ l.minVruntime < v ∧ l.runnableCount = 1 then
        { l with minVruntime := v }
      else l

/-- A tick is charged to the current thread. -/
def chargeTick (s : SchedSystem) (core : Nat) (t : ThreadRef) : SchedSystem :=
  let s := s.modifyThread t fun thread =>
    { thread with cpuTimeConsumed := thread.cpuTimeConsumed + 1 }
  if (s.rq core).policy = .cloudFair ∧ (s.rq core).idleThread ≠ some t then
    s.schedCfsUpdateVruntime cfg core t
  else s

/-- The part of a tick for the current thread of an EDF core. A thread that has used its budget
sleeps until its next period, and is forgotten before the switch. -/
def tickEdf (s : SchedSystem) (core : Nat) (t : ThreadRef) : Option (SchedSystem × Bool) :=
  let attr := (s.thread t).rtAttr
  if attr.wcetMs ≤ (s.thread t).cpuTimeConsumed then
    let deadline := (s.thread t).absoluteDeadlineMs + attr.periodMs
    let s := s.modifyThread t ({ · with absoluteDeadlineMs := deadline, cpuTimeConsumed := 0 })
    match s.findThread cfg (s.thread t).threadId with
    | none => some (s, true)
    | some r =>
      let wake := (deadline + 2 ^ 64 - attr.deadlineMs) % 2 ^ 64
      let s := s.modifyThread t ({ · with wakeDeadlineMs := wake, state := .sleeping })
      (s.schedSleepEnqueue core r).map fun s => (s.setCurrent core none, true)
  else match s.schedEdfPickNext cfg core with
    | none => some (s, false)
    | some n => some (s, (s.thread n).absoluteDeadlineMs < (s.thread t).absoluteDeadlineMs)

/-- The part of a tick for the current thread of another core, or for its idle thread. -/
def tickSlice (s : SchedSystem) (core : Nat) (t : ThreadRef) : SchedSystem × Bool :=
  if (s.thread t).timeSliceMs ≤ (s.thread t).cpuTimeConsumed then
    (s.modifyThread t ({ · with cpuTimeConsumed := 0 }), true)
  else if (s.rq core).policy = .cloudFair then
    match s.schedCfsPickNext cfg core with
    | none => (s, false)
    | some n => (s, (s.thread n).vruntime < (s.thread t).vruntime)
  else (s, (List.range 32).any fun p =>
    (s.thread t).priority < p ∧ (s.lists core).readyBitmap.getLsbD p)

/-- The part of `sched_on_timer_tick` before it looks at the current thread. -/
def tickHousekeeping (s : SchedSystem) (core : Nat) (polled : List (Nat × Bool)) :
    Option SchedSystem :=
  (schedRemoteCmdPollTimeouts cfg core polled s).bind fun s =>
  let s := (s.modifyRq core fun rq =>
    { rq with totalTicks := rq.totalTicks + 1 }).schedPublishLoad core
  (wakeSleepers cfg core (s.rq core).sleepingList s).bind fun s =>
  (wakeBlocked cfg core (s.rq core).blockedList s).bind fun s =>
  (s.schedReapTerminatedThreads cfg core).map fun s =>
  if (s.rq core).totalTicks % 16 = 0 ∧ core = 0 then s.schedBalanceOnce cfg core else s

/-- `sched_on_timer_tick`, up to `sched_reschedule`. -/
def schedOnTimerTick (s : SchedSystem) (core : Nat) (polled : List (Nat × Bool)) :
    Option (SchedSystem × Bool) :=
  (s.tickHousekeeping cfg core polled).bind fun s =>
  match (s.rq core).currentThread with
  | none => some (s, true)
  | some t =>
    let s := s.chargeTick cfg core t
    if (s.rq core).policy = .edf ∧ (s.rq core).idleThread ≠ some t then s.tickEdf cfg core t
    else some (s.tickSlice cfg core t)

/-! ## The system -/

/-- The slot of the idle thread of a core. -/
def idleRef (core : Nat) : ThreadRef := ⟨core, schedMaxThreads⟩

/-- The idle thread as `sched_create_bootstrap_thread` makes it. -/
def idleSlot (core : Nat) : ThreadSlot where
  inUse := true
  isBootstrap := true
  generation := 1
  thread := {
    threadId := ⟨1, core, schedMaxThreads⟩
    homeCoreId := core
    isIdle := true
    constraints := ⟨schedAffinityAny, 0, 0, 0⟩
    cpuContext := .slot (idleRef core)
    kernelStack := true
    timeSliceMs := schedDefaultSliceMs
    boundCoreId := core
    affinityMask := 1#32 <<< core }

/-- The state after `sched_global_init` in a TESTING build, with the policy of each core; other
builds also create a monitor thread for each core. -/
def boot (policy : Nat → SchedPolicy) : SchedSystem where
  slot t := if t.slot = schedMaxThreads then idleSlot t.core
    else { thread := { cpuContext := .slot t } }
  entity _ := {}
  rq core := {
    policy := policy core
    currentThread := some (idleRef core)
    idleThread := some (idleRef core)
    freeThreads := List.range schedMaxThreads
    freeEntities := List.range schedMaxLocalEntities }
  lists _ := {}
  mail := {}
  machine := { executing := idleRef }
  timerTicks := 0

end SchedSystem

/-- The calls, each by the core `core`. The last five are not calls of the scheduler: the creator
of a thread sets its priority and its attributes, the thread that a core executes changes the
registers, time passes, and a core is throttled or isolated. `polled` is for the poll in
`sched_reschedule`, and `early` for the one at the start of a tick. -/
inductive SchedAction where
  | create (core : Nat) (fits : Bool)
  | destroy (core : Nat) (t : ThreadRef)
  | enqueue (core : Nat) (t : ThreadRef) (coreId : Nat)
  | wake (core : Nat) (tid : Tid) (priority : Nat)
  | setPriority (core : Nat) (tid : Tid) (priority : Nat)
  | setAffinity (core : Nat) (tid : Tid) (mask : BitVec 32)
  | setConstraints (core : Nat) (tid : Tid) (constraints : ExecConstraints)
  | quarantine (core : Nat) (tid : Tid) (reason : BitVec 32)
  | handoff (core : Nat) (tid : Tid) (target : Nat) (authToken : BitVec 32)
  | migrate (core : Nat) (tid : Tid) (target : Nat)
  | terminate (core : Nat) (tid : Tid)
  | block (core deadline : Nat) (polled : List (Nat × Bool))
  | sleep (core millis : Nat) (polled : List (Nat × Bool))
  | reschedule (core : Nat) (polled : List (Nat × Bool))
  | tick (core : Nat) (early polled : List (Nat × Bool))
  | exit (core : Nat) (polled : List (Nat × Bool))
  | raiseFault (core : Nat) (t : ThreadRef) (polled : List (Nat × Bool))
  | configure (core : Nat) (t : ThreadRef) (priority : Nat) (attr : ThreadAttr)
  | compute (core regs extRegs : Nat)
  | time (core ticks : Nat)
  | throttle (core : Nat) (on : Bool)
  | isolate (core : Nat) (on : Bool)

def SchedAction.core : SchedAction → Nat
  | .create core _ | .destroy core _ | .enqueue core _ _ | .wake core _ _
  | .setPriority core _ _ | .setAffinity core _ _ | .setConstraints core _ _
  | .quarantine core _ _ | .handoff core _ _ _ | .migrate core _ _ | .terminate core _
  | .block core _ _ | .sleep core _ _ | .reschedule core _ | .tick core _ _ | .exit core _
  | .raiseFault core _ _ | .configure core _ _ _ | .compute core _ _ | .time core _
  | .throttle core _ | .isolate core _ => core

def SchedAction.polled : SchedAction → List (Nat × Bool)
  | .block _ _ polled | .sleep _ _ polled | .reschedule _ polled | .tick _ _ polled
  | .exit _ polled | .raiseFault _ _ polled => polled
  | _ => []

namespace SchedSystem

/-- What an action does up to `sched_reschedule`, and whether it goes on to reschedule. -/
def start (cfg : SchedConfig) (s : SchedSystem) : SchedAction → Option (SchedSystem × Bool)
  | .create core fits => some (s.threadCreateDetached core fits, false)
  | .destroy core t => (s.threadDestroy cfg core t).map (·.1, false)
  | .enqueue core t coreId => (s.schedEnqueue cfg core t coreId).map (·.1, false)
  | .wake core tid priority => (s.schedWakeTidWithPriority cfg core tid priority).map (·.1, false)
  | .setPriority core tid priority => (s.schedSetPriority cfg core tid priority).map (·.1, false)
  | .setAffinity core tid mask => (s.schedSetAffinity cfg core tid mask).map (·.1, false)
  | .setConstraints core tid constraints =>
    (s.schedSetConstraints cfg core tid constraints).map (·.1, false)
  | .quarantine core tid reason => (s.schedQuarantineTid cfg core tid reason).map (·.1, false)
  | .handoff core tid target authToken =>
    (s.requestHandoffRemote cfg core tid target authToken).map (·.1, false)
  | .migrate core tid target => (s.schedMigrateTid cfg core tid target).map (·.1, false)
  | .terminate core tid => (s.schedTerminateTid cfg core tid).map (·.1, false)
  | .block core deadline _ => s.schedBlock cfg core deadline
  | .sleep core millis _ => s.schedSleep cfg core millis
  | .reschedule _ _ => some (s, true)
  | .tick core early _ => s.schedOnTimerTick cfg core early
  | .exit core _ => s.schedThreadExitTrampoline cfg core
  | .raiseFault _ t _ => some (s.threadRaiseFault t, true)
  | .configure _ t priority attr => some (s.modifyThread t ({ · with
      priority := priority
      basePriority := priority
      rtAttr := attr
      absoluteDeadlineMs := 0 }), false)
  | .compute core regs extRegs => some ({ s with machine := { s.machine with
      regs := Function.update s.machine.regs core regs
      ext := { s.machine.ext with
        regs := Function.update s.machine.ext.regs core extRegs } } }, false)
  | .time _ ticks => some ({ s with timerTicks := s.timerTicks + ticks }, false)
  | .throttle core on => some (s.modifyRq core ({ · with throttled := on }), false)
  | .isolate core on => some (s.modifyRq core ({ · with schedIsolated := on }), false)

/-- What an action does, if its core is active. -/
def act (cfg : SchedConfig) (s : SchedSystem) (a : SchedAction) : Option SchedSystem :=
  (s.start cfg a).bind (finish cfg a.core a.polled)

def step (cfg : SchedConfig) (s : SchedSystem) (a : SchedAction) : Option SchedSystem :=
  if a.core < cfg.count then s.act cfg a else none

variable {a : SchedAction} {cfg : SchedConfig} {s u : SchedSystem}

/-- An action ends after its start, or it reschedules. -/
theorem act_split (h : s.act cfg a = some u) : s.start cfg a = some (u, false) ∨
      ∃ m, s.start cfg a = some (m, true) ∧ m.schedReschedule cfg a.core a.polled = some u := by
  obtain ⟨⟨m, goesOn⟩, starts, ends⟩ := Option.bind_eq_some_iff.mp h
  cases goesOn with
  | false => cases ends; exact .inl starts
  | true => exact .inr ⟨m, starts, ends⟩

/-- A call that only returns a status does not go on to reschedule. -/
theorem returns_status {call : Option (SchedSystem × Int)} {goesOn : Bool}
    (h : call.map (·.1, false) = some (u, goesOn)) :
    goesOn = false ∧ ∃ code, call = some (u, code) := by
  obtain ⟨⟨m, code⟩, hm, h⟩ := Option.map_eq_some_iff.mp h
  cases h
  exact ⟨rfl, code, hm⟩

theorem act_of_step (h : s.step cfg a = some u) : s.act cfg a = some u := by
  unfold step at h
  split_ifs at h
  exact h

end SchedSystem

/-- The runs of the cores whose steps all meet a condition. -/
abbrev SchedRun (cfg : SchedConfig) (ok : SchedSystem → SchedAction → Prop)
    (s t : SchedSystem) : Prop :=
  Run (fun s a t => s.step cfg a = some t) ok s t

/-- Cores of an x86_64 machine that take threads of every class. -/
def SchedConfig.open (count : Nat) : SchedConfig := ⟨count, fun _ _ => true, false, .x8664⟩

end BharatOS
