import BharatOS.Sched.QuietHandlers

/-!
# Only a switch changes what a core executes

`Still s t`: nobody has touched the registers, or what the cores call their current thread.
`Steady s t`: nor what the timer looks at. `act_cases` takes every call apart into such a part and
the switch.
-/

namespace BharatOS

open Option

namespace SchedSystem

open Scope

structure Still (s t : SchedSystem) : Prop where
  executing : t.machine.executing = s.machine.executing
  regs : t.machine.regs = s.machine.regs
  extRegs : t.machine.ext.regs = s.machine.ext.regs
  currents : ∀ c, (t.rq c).currentThread = (s.rq c).currentThread
  idles : ∀ c, (t.rq c).idleThread = (s.rq c).idleThread
  entities : ∀ e, (t.ent e).state = .ready ∨ (t.ent e).state = (s.ent e).state

structure Steady (s t : SchedSystem) : Prop extends Still s t where
  policies : ∀ c, (t.rq c).policy = (s.rq c).policy
  budgets : ∀ r, (t.thread r).cpuTimeConsumed = (s.thread r).cpuTimeConsumed ∧
    (t.thread r).rtAttr = (s.thread r).rtAttr

variable {cfg : SchedConfig} {core : Nat} {scope : Scope} {s u : SchedSystem}
  {t : ThreadRef}

namespace Still

variable {m : SchedSystem}

protected theorem refl (s : SchedSystem) : Still s s where
  executing := rfl
  regs := rfl
  extRegs := rfl
  currents _ := rfl
  idles _ := rfl
  entities _ := .inr rfl

theorem trans (first : Still s m) (second : Still m u) : Still s u where
  executing := second.executing.trans first.executing
  regs := second.regs.trans first.regs
  extRegs := second.extRegs.trans first.extRegs
  currents c := (second.currents c).trans (first.currents c)
  idles c := (second.idles c).trans (first.idles c)
  entities e := by
    rcases second.entities e with ready | same
    · exact .inl ready
    · exact (first.entities e).imp same.trans same.trans

theorem modifySlot {change : ThreadSlot → ThreadSlot} : Still s (s.modifySlot t change) :=
  { Still.refl s with }

theorem modifyThread {change : BhThread → BhThread} : Still s (s.modifyThread t change) :=
  modifySlot

theorem modifyRq {c : Nat} {change : SchedRq → SchedRq}
    (same : (change (s.rq c)).currentThread = (s.rq c).currentThread ∧
      (change (s.rq c)).idleThread = (s.rq c).idleThread) : Still s (s.modifyRq c change) := by
  have fields : ∀ d, ((s.modifyRq c change).rq d).currentThread = (s.rq d).currentThread ∧
      ((s.modifyRq c change).rq d).idleThread = (s.rq d).idleThread := by
    intro d
    by_cases hd : d = c
    · subst hd; simpa using same
    · simp [hd]
  exact { Still.refl s with
    currents := fun d => (fields d).1
    idles := fun d => (fields d).2 }

/-- Forgetting the current thread before or after makes no difference. -/
theorem setCurrent {c : Nat} {current : Option ThreadRef} (h : Still s m) :
    Still (s.setCurrent c current) (m.setCurrent c current) :=
  { h with
    currents := fun d => by
      by_cases hd : d = c
      · subst hd; simp [SchedSystem.setCurrent]
      · simp [SchedSystem.setCurrent, hd, h.currents]
    idles := fun d => by
      by_cases hd : d = c
      · subst hd; simp [SchedSystem.setCurrent, h.idles]
      · simp [SchedSystem.setCurrent, hd, h.idles] }

end Still

namespace Steady

variable {m : SchedSystem}

protected theorem refl (s : SchedSystem) : Steady s s where
  toStill := .refl s
  policies _ := rfl
  budgets _ := ⟨rfl, rfl⟩

theorem trans (first : Steady s m) (second : Steady m u) : Steady s u where
  toStill := first.toStill.trans second.toStill
  policies c := (second.policies c).trans (first.policies c)
  budgets r := ⟨(second.budgets r).1.trans (first.budgets r).1,
    (second.budgets r).2.trans (first.budgets r).2⟩

theorem modifySlot {change : ThreadSlot → ThreadSlot}
    (same : (change (s.slot t)).thread.cpuTimeConsumed = (s.thread t).cpuTimeConsumed ∧
      (change (s.slot t)).thread.rtAttr = (s.thread t).rtAttr) : Steady s (s.modifySlot t change) :=
  { Steady.refl s with
    budgets := fun r => by
      by_cases hr : r = t
      · subst hr; simpa using same
      · simp [hr] }

theorem modifyThread {change : BhThread → BhThread}
    (same : (change (s.thread t)).cpuTimeConsumed = (s.thread t).cpuTimeConsumed ∧
      (change (s.thread t)).rtAttr = (s.thread t).rtAttr) : Steady s (s.modifyThread t change) :=
  modifySlot same

theorem modifyRq {c : Nat} {change : SchedRq → SchedRq}
    (same : (change (s.rq c)).currentThread = (s.rq c).currentThread ∧
      (change (s.rq c)).idleThread = (s.rq c).idleThread ∧
      (change (s.rq c)).policy = (s.rq c).policy) : Steady s (s.modifyRq c change) where
  toStill := .modifyRq ⟨same.1, same.2.1⟩
  policies d := by
    by_cases hd : d = c
    · subst hd; simpa using same.2.2
    · simp [hd]
  budgets _ := ⟨rfl, rfl⟩

theorem withMail {mail : SchedMail} : Steady s { s with mail := mail } := { Steady.refl s with }

end Steady

theorem Quiet.steady (h : Quiet core scope s u) : Steady s u where
  executing := h.executing
  regs := h.regs
  extRegs := h.extRegs
  currents := h.currentThread
  idles := h.idleThread
  policies := h.policy
  budgets r := ⟨h.cpuTimeConsumed r, h.rtAttr r⟩
  entities := h.entities

/-! ## Termination -/

theorem relinks_detachOther {c : Nat} : Ends Relinks (·) s (s.detachOther cfg c t) :=
  .ite .same relinks_schedDetachThreadFromQueues

/-- The thread as `sched_mark_thread_terminated` marks it. -/
def terminating (s : SchedSystem) (t : ThreadRef) : SchedSystem :=
  s.modifyThread t ({ · with state := .terminated, ownerState := .none })

variable {code : Int} {env : SchedEnvelope}

/-- Only the owner terminates a thread. A thread that is not terminated yet is marked, detached
and handed to the reaper. -/
theorem schedMarkThreadTerminated_cases
    (h : s.schedMarkThreadTerminated cfg core t = some (u, code)) : (s.thread t).ownerCpu = core ∧
    (u = s ∧ (s.findThread cfg (s.thread t).threadId ≠ some t ∨
        (s.thread t).state = .terminated ∧ (s.thread t).homeCoreId ≠ core) ∨
      (s.thread t).state = .terminated ∧ (s.thread t).homeCoreId = core ∧
        u = (s.schedEnqueueReap cfg t).1 ∨ s.findThread cfg (s.thread t).threadId = some t ∧
        (s.thread t).state ≠ .terminated ∧
        ∃ m, Relinks (s.terminating t) m ∧ u = (m.handToReaper cfg core t).1) := by
  unfold schedMarkThreadTerminated at h
  split_ifs at h with foreign missing dead home
  · cases h; exact ⟨not_not.mp foreign, .inl ⟨rfl, .inl missing⟩⟩
  · obtain rfl : _ = u := congrArg Prod.fst (some.inj h)
    exact ⟨not_not.mp foreign, .inr (.inl ⟨dead, home, rfl⟩)⟩
  · cases h; exact ⟨not_not.mp foreign, .inl ⟨rfl, .inr ⟨dead, home⟩⟩⟩
  obtain ⟨m, hm, h⟩ := map_eq_some_iff.mp h
  obtain rfl : _ = u := congrArg Prod.fst h
  exact ⟨not_not.mp foreign, .inr (.inr ⟨not_not.mp missing, dead, m, relinks_detachOther hm, rfl⟩)⟩

/-! ## The ring -/

/-- A command to terminate or to reap a thread does so if the thread is found. Every other handler
is quiet. -/
theorem handleCommand_cases {ack : Bool} {result : Int}
    (valid : schedValidateRemoteEnvelope cfg core env = true)
    (h : s.handleCommand cfg core env = some (u, ack, result)) : u = s ∨
    env.type ≠ .terminate ∧ env.type ≠ .reap ∧ Quiet core everybody s u ∨
    (∃ t code, s.findThread cfg env.threadId = some t ∧
      s.schedMarkThreadTerminated cfg core t = some (u, code)) ∨
    ∃ t, u = (s.schedEnqueueReap cfg t).1 := by
  by_cases terminates : env.type = .terminate
  · simp only [handleCommand, terminates, schedHandleTerminate] at h
    split at h
    · cases h; exact .inl rfl
    rename_i t found
    obtain ⟨⟨m, code⟩, hm, h⟩ := map_eq_some_iff.mp h
    cases h
    exact .inr (.inr (.inl ⟨t, code, found, hm⟩))
  · by_cases reaps : env.type = .reap
    · simp only [handleCommand, reaps, schedHandleReap] at h
      split at h
      · cases h; exact .inl rfl
      · exact .inr (.inr (.inr ⟨_, (congrArg Prod.fst (some.inj h)).symm⟩))
    · exact .inr (.inl ⟨terminates, reaps, quiet_handleCommand valid ⟨terminates, reaps⟩ h⟩)

/-! ## Destruction -/

/-- Only its owner detaches a thread. -/
theorem schedDetachThreadFromQueues_owner (h : s.schedDetachThreadFromQueues cfg core t = some u) :
    (s.thread t).ownerCpu = core ∨ (s.thread t).ownerState = .remotePending := by
  unfold schedDetachThreadFromQueues at h
  split_ifs at h with foreign
  all_goals
    by_contra neither
    exact foreign (not_or.mp neither)

/-- A thread that is not current, and whose slot is one of the core's own and not in the reap
queue, is detached and its memory given back. -/
theorem threadDestroy_cases (h : s.threadDestroy cfg core t = some (u, code)) :
    u = s ∧ ((s.rq core).currentThread = some t ∨
      s.findThreadLocal cfg core (s.thread t).threadId = none ∨
      ∃ r, s.findThreadLocal cfg core (s.thread t).threadId = some r ∧
        (s.slot r).reapPending = true) ∨
    ∃ r m, (s.rq core).currentThread ≠ some t ∧
      s.findThreadLocal cfg core (s.thread t).threadId = some r ∧
      (s.slot r).reapPending = false ∧
      ((s.thread r).ownerCpu = core ∨ (s.thread r).ownerState = .remotePending) ∧
      Relinks (s.modifySlot r ({ · with reapPending := true })) m ∧ u = m.reclaim cfg core t r := by
  unfold threadDestroy at h
  split_ifs at h with current
  · cases h; exact .inl ⟨rfl, .inl current⟩
  split at h
  · cases h; exact .inl ⟨rfl, .inr (.inl ‹_›)⟩
  rename_i r found
  split_ifs at h with pending
  · cases h; exact .inl ⟨rfl, .inr (.inr ⟨r, found, pending⟩)⟩
  obtain ⟨m, hm, h⟩ := map_eq_some_iff.mp h
  cases h
  have owner := by simpa [thread] using schedDetachThreadFromQueues_owner hm
  exact .inr ⟨r, m, current, found, by simpa using pending, owner,
    relinks_schedDetachThreadFromQueues hm, rfl⟩

/-! ## Whole calls -/

/-- What a tick wakes and balances is quiet. In between the core reaps. -/
theorem tickHousekeeping_cases {polled : List (Nat × Bool)}
    (h : s.tickHousekeeping cfg core polled = some u) :
    ∃ m₁ m₂ m₃, schedRemoteCmdPollTimeouts cfg core polled s = some m₁ ∧
      Quiet core (sending fun type => type = .wake ∨ type = .enqueue) m₁ m₂ ∧
      m₂.schedReapTerminatedThreads cfg core = some m₃ ∧
      Quiet core (sending (· = .stealReq)) m₃ u := by
  obtain ⟨m₁, polls, h⟩ := bind_eq_some_iff.mp h
  obtain ⟨m₂, sleepers, h⟩ := bind_eq_some_iff.mp h
  obtain ⟨m₃, blocked, h⟩ := bind_eq_some_iff.mp h
  obtain ⟨m₄, reaps, rfl⟩ := map_eq_some_iff.mp h
  refine ⟨m₁, m₃, m₄, polls, ?_, reaps, ?_⟩
  · exact (Quiet.modifyRq rfl).trans ((quiet_schedPublishLoad).trans
      ((quiet_wakeSleepers sleepers).trans (quiet_wakeBlocked blocked)))
  · split_ifs
    · exact quiet_schedBalanceOnce
    · exact .refl m₄

/-! ## The timer -/

def setBudget (s : SchedSystem) (t : ThreadRef) (consumed : Nat) (attr : ThreadAttr) :
    SchedSystem :=
  s.modifyThread t ({ · with cpuTimeConsumed := consumed, rtAttr := attr })

/-- The budget of thread `t` changes, and then what a quiet step may change. -/
def Charges (core : Nat) (t : ThreadRef) (s u : SchedSystem) : Prop :=
  ∃ consumed attr, Quiet core nobody (s.setBudget t consumed attr) u

theorem Charges.refl (s : SchedSystem) (t : ThreadRef) : Charges core t s s := by
  refine ⟨(s.thread t).cpuTimeConsumed, (s.thread t).rtAttr, ?_⟩
  have same : s.setBudget t (s.thread t).cpuTimeConsumed (s.thread t).rtAttr = s := by
    simp [setBudget, SchedSystem.modifyThread, SchedSystem.modifySlot, SchedSystem.thread]
  rw [same]
  exact .refl s

theorem Charges.still (h : Charges core t s u) : Still s u := by
  obtain ⟨_, _, quiet⟩ := h
  exact Still.modifyThread.trans quiet.steady.toStill

theorem quiet_chargeTick (cfg : SchedConfig) (s : SchedSystem) (core : Nat) (t : ThreadRef) :
    Quiet core nobody (s.setBudget t ((s.thread t).cpuTimeConsumed + 1) (s.thread t).rtAttr)
      (s.chargeTick cfg core t) := by
  unfold chargeTick
  simp only
  split_ifs
  · exact quiet_schedCfsUpdateVruntime
  · exact .refl _

theorem charges_tickSlice (cfg : SchedConfig) (s : SchedSystem) (core : Nat) (t : ThreadRef) :
    Charges core t s (s.tickSlice cfg core t).1 := by
  unfold tickSlice
  split_ifs
  · exact ⟨0, (s.thread t).rtAttr, .refl _⟩
  · split <;> exact .refl s t
  · exact .refl s t

variable {goesOn : Bool}

/-- A thread that has used its budget goes to sleep and is forgotten. -/
theorem tickEdf_cases (h : s.tickEdf cfg core t = some (u, goesOn)) :
    ∃ m, Charges core t s m ∧ (u = m ∨ u = m.setCurrent core none ∧ goesOn = true ∧
      (s.thread t).rtAttr.wcetMs ≤ (s.thread t).cpuTimeConsumed) := by
  unfold tickEdf at h
  simp only at h
  split_ifs at h with used
  · have paid : Quiet core nobody (s.setBudget t 0 (s.thread t).rtAttr) (s.modifyThread t ({ · with
          absoluteDeadlineMs := (s.thread t).absoluteDeadlineMs + (s.thread t).rtAttr.periodMs
          cpuTimeConsumed := 0 })) := .remodifyThread rfl ⟨id, id, .inl rfl⟩
    split at h
    · cases h; exact ⟨_, ⟨_, _, paid⟩, .inl rfl⟩
    obtain ⟨m, sleeping, h⟩ := map_eq_some_iff.mp h
    cases h
    refine ⟨m, ⟨_, _, paid.trans ?_⟩, .inr ⟨rfl, rfl, used⟩⟩
    exact (Quiet.modifyThread rfl ⟨fun h => (by cases h), id, .inl rfl⟩).trans
      (quiet_schedSleepEnqueue sleeping)
  · split at h <;> cases h <;> exact ⟨_, .refl s t, .inl rfl⟩

/-- After the housekeeping the current thread is charged. On an EDF core it may be forgotten. -/
theorem schedOnTimerTick_cases {early : List (Nat × Bool)}
    (h : s.schedOnTimerTick cfg core early = some (u, goesOn)) :
    ∃ m, s.tickHousekeeping cfg core early = some m ∧ (u = m ∨ ∃ t n v,
      (m.rq core).currentThread = some t ∧ Charges core t m n ∧ Charges core t n v ∧
      (u = v ∨ u = v.setCurrent core none ∧ goesOn = true ∧ (m.rq core).policy = .edf ∧
        (m.rq core).idleThread ≠ some t ∧
        (m.thread t).rtAttr.wcetMs ≤ (m.thread t).cpuTimeConsumed + 1)) := by
  obtain ⟨m, housekeeping, h⟩ := bind_eq_some_iff.mp h
  refine ⟨m, housekeeping, ?_⟩
  split at h
  · cases h; exact .inl rfl
  rename_i t current
  have charged := quiet_chargeTick cfg m core t
  simp only at h
  split_ifs at h with edf
  · obtain ⟨v, charges, ends⟩ := tickEdf_cases h
    refine .inr ⟨t, _, v, current, ⟨_, _, charged⟩, charges, ends.imp_right ?_⟩
    rintro ⟨forgotten, goesOn, used⟩
    rw [charged.policy, charged.idleThread] at edf
    rw [charged.rtAttr, charged.cpuTimeConsumed] at used
    exact ⟨forgotten, goesOn, edf.1, edf.2, by simpa [setBudget] using used⟩
  · have sliced := charges_tickSlice cfg (m.chargeTick cfg core t) core t
    rw [some.inj h] at sliced
    exact .inr ⟨t, _, u, current, ⟨_, _, charged⟩, sliced, .inl rfl⟩

/-! ## Calls up to `sched_reschedule` -/

/-- A thread of another core is reported there, and one of the core itself is marked. -/
theorem schedTerminateTid_cases {tid : Tid} (h : s.schedTerminateTid cfg core tid = some (u, code)) :
    Quiet core (sending (· = .terminate)) s u ∨ ∃ t, s.findThread cfg tid = some t ∧
      s.schedMarkThreadTerminated cfg core t = some (u, code) := by
  unfold schedTerminateTid at h
  split at h
  · cases h; exact .inl (.refl _)
  rename_i t found
  split_ifs at h
  · obtain rfl : _ = u := congrArg Prod.fst (some.inj h)
    exact .inl (quiet_sendCommand (addressed_plain rfl rfl (by simp)) rfl)
  · exact .inr ⟨t, found, h⟩

/-- The current thread is marked and forgotten. -/
theorem schedThreadExitTrampoline_cases
    (h : s.schedThreadExitTrampoline cfg core = some (u, goesOn)) : u = s ∧ goesOn = false ∨
    ∃ t m code, (s.rq core).currentThread = some t ∧ goesOn = true ∧
      s.schedMarkThreadTerminated cfg core t = some (m, code) ∧ u = m.setCurrent core none := by
  unfold schedThreadExitTrampoline at h
  split at h
  · cases h; exact .inl ⟨rfl, rfl⟩
  rename_i t current
  obtain ⟨⟨m, code⟩, terminated, h⟩ := map_eq_some_iff.mp h
  cases h
  exact .inr ⟨t, m, code, current, rfl, terminated, rfl⟩

end SchedSystem

namespace SchedAction

open Scope

/-- What the calls that are quiet up to `sched_reschedule` may move and send. -/
def scope : SchedAction → Option Scope
  | .enqueue _ t _ => some ⟨(· = t), (· = .enqueue)⟩
  | .wake .. => some (sending fun type => type = .wake ∨ type = .enqueue)
  | .setPriority .. | .setAffinity .. | .setConstraints .. | .quarantine .. | .handoff ..
  | .migrate .. => some sendingAny
  | .block .. | .reschedule .. | .time .. | .isolate .. => some nobody
  | _ => none

/-- The steps in which the core forgets its current thread before it switches: an exit, a sleep
that gets past its checks, and a tick that uses up the budget of a thread on an EDF core. -/
def forgets (cfg : SchedConfig) (s : SchedSystem) : SchedAction → Prop
  | .exit core _ => (s.rq core).currentThread ≠ none
  | .sleep core _ _ => ∃ t ∈ (s.rq core).currentThread, (s.rq core).idleThread ≠ some t ∧
      s.findThreadLocal cfg core (s.thread t).threadId ≠ none
  | .tick core _ _ => (s.rq core).policy = .edf ∧ ∃ t ∈ (s.rq core).currentThread,
      (s.rq core).idleThread ≠ some t ∧
      (s.thread t).rtAttr.wcetMs ≤ (s.thread t).cpuTimeConsumed + 1
  | _ => False

end SchedAction

namespace SchedSystem

open Scope

variable {cfg : SchedConfig} {core : Nat} {s u : SchedSystem} {t : ThreadRef} {a : SchedAction}
  {goesOn : Bool} {scope : Scope}

theorem quiet_start (quiet : a.scope = some scope) :
    Ends (Quiet a.core scope) (·.1) s (s.start cfg a) := by
  cases a with
  | enqueue => cases quiet; exact .map quiet_schedEnqueue fun _ => .refl _
  | wake => cases quiet; exact .map quiet_schedWakeTidWithPriority fun _ => .refl _
  | setPriority => cases quiet; exact .map quiet_schedSetPriority fun _ => .refl _
  | setAffinity => cases quiet; exact .map quiet_schedSetAffinity fun _ => .refl _
  | setConstraints => cases quiet; exact .map quiet_schedSetConstraints fun _ => .refl _
  | quarantine => cases quiet; exact .map quiet_schedQuarantineTid fun _ => .refl _
  | handoff => cases quiet; exact .map quiet_requestHandoffRemote fun _ => .refl _
  | migrate => cases quiet; exact .map quiet_schedMigrateTid fun _ => .refl _
  | block => cases quiet; exact quiet_schedBlock
  | reschedule => cases quiet; exact .same
  | time => cases quiet; exact .of { Quiet.refl _ with }
  | isolate => cases quiet; exact .pair (.modifyRq rfl)
  | _ => cases quiet

theorem still_threadCreateDetached {fits : Bool} : Still s (s.threadCreateDetached core fits) := by
  unfold threadCreateDetached
  split
  · exact .refl s
  split_ifs
  · exact (Still.modifyRq ⟨rfl, rfl⟩).trans .modifySlot
  · exact .modifySlot

end SchedSystem

end BharatOS
