import BharatOS.Lib.Outcome
import BharatOS.Sched.Calls

/-!
# What the calls below a switch leave alone

`Quiet core scope s t`: one step of core `core` changes neither who runs nor which slots are in use
nor what is to be reaped; only threads in the scope change their owner, to `core`, and only
commands of the types in the scope are sent.
-/

namespace BharatOS

open Option List

/-- The fields of a thread that only its creator, its destruction and the timer change. -/
def BhThread.identity (thread : BhThread) : Tid × Nat × Bool × Bool × Nat × ThreadAttr :=
  (thread.threadId, thread.homeCoreId, thread.isIdle, thread.kernelStack, thread.cpuTimeConsumed,
    thread.rtAttr)

def ThreadSlot.identity (slot : ThreadSlot) :
    Bool × Bool × BitVec 32 × Bool × Tid × Nat × Bool × Bool × Nat × ThreadAttr :=
  (slot.inUse, slot.isBootstrap, slot.generation, slot.reapPending, slot.thread.identity)

def SchedRq.fixed (rq : SchedRq) :
    SchedPolicy × Option ThreadRef × Option ThreadRef × List Nat × List Nat × Bool :=
  (rq.policy, rq.currentThread, rq.idleThread, rq.reapQueue, rq.freeThreads, rq.throttled)

/-- The commands with which the source of a migration goes on. -/
def SchedCmdType.continues : SchedCmdType → Bool
  | .migrateStage | .migrateCommitIdentity | .migrateActivate | .queryState => true
  | _ => false

/-- Which threads may change their owner, and which commands may be sent. -/
structure Scope where
  moves : ThreadRef → Prop
  sends : SchedCmdType → Prop

namespace Scope

/-- No thread changes its owner, and nothing is sent. -/
abbrev nobody : Scope := ⟨fun _ => False, fun _ => False⟩

abbrev everybody : Scope := ⟨fun _ => True, fun _ => True⟩

abbrev moving (moves : ThreadRef → Prop) : Scope := ⟨moves, fun _ => False⟩

abbrev sending (sends : SchedCmdType → Prop) : Scope := ⟨fun _ => False, sends⟩

abbrev sendingAny : Scope := sending fun _ => True

abbrev polling : Scope := ⟨fun _ => True, (·.continues = true)⟩

end Scope

/-- How the calls address the commands that core `core` sends to core `dst`. A request to steal
names another core as its source, and two kinds of commands name another core as their target. -/
structure Addressed (core dst : Nat) (env : SchedEnvelope) : Prop where
  source : env.type ≠ .stealReq → env.sourceCpu = core
  steals : env.type = .stealReq → env.sourceCpu = dst
  target : env.type ≠ .stealReq ∧ env.type ≠ .handoff ∧ env.type ≠ .migrateCommitIdentity →
    env.targetCpu = dst

/-- The commands that keep their slot when they cannot be submitted. -/
def SchedCmdType.unreleased : SchedCmdType → Bool
  | .stealReq | .queryState => true
  | _ => false

namespace SchedSystem

open Scope

/-- What is new in the rings and among the commands. -/
structure Posts (core : Nat) (sends : SchedCmdType → Prop) (s t : SchedSystem) : Prop where
  sent : ∀ c, ∀ env ∈ t.mail.inbox c, env ∈ s.mail.inbox c ∨
    c ≠ core ∧ sends env.type ∧ env.originCpu = core ∧ Addressed core c env
  cmds : ∀ cmd ∈ t.mail.cmds,
    (∃ old ∈ s.mail.cmds, old.envelope = cmd.envelope ∧ old.pending = cmd.pending) ∨
      sends cmd.envelope.type ∧ s.mail.nextHandle ≤ cmd.envelope.handle ∧
        (cmd.pending = true ∨ cmd.envelope.type.unreleased = true)
  handles : s.mail.nextHandle ≤ t.mail.nextHandle

structure Quiet (core : Nat) (scope : Scope) (s t : SchedSystem) : Prop
    extends Posts core scope.sends s t where
  slots : ∀ r, (t.slot r).identity = (s.slot r).identity
  rqs : ∀ c, (t.rq c).fixed = (s.rq c).fixed
  machine : t.machine = { s.machine with context := t.machine.context }
  states : ∀ r, ((t.thread r).state = .terminated → (s.thread r).state = .terminated) ∧
    ((t.thread r).ownerState = .remotePending → (s.thread r).ownerState = .remotePending)
  owners : ∀ r, (t.thread r).ownerCpu = (s.thread r).ownerCpu ∨
    scope.moves r ∧ (t.thread r).ownerCpu = core
  entities : ∀ e, (t.ent e).state = .ready ∨ (t.ent e).state = (s.ent e).state
  inboxes : ∀ c, ∀ env ∈ s.mail.inbox c, env ∈ t.mail.inbox c

namespace Posts

variable {core : Nat} {sends : SchedCmdType → Prop} {s t u : SchedSystem}

/-- No command is sent. -/
theorem of_mail (same : t.mail = s.mail) : Posts core sends s t where
  sent _ _ h := .inl (same ▸ h)
  cmds cmd h := .inl ⟨cmd, same ▸ h, rfl, rfl⟩
  handles := same ▸ Nat.le_refl _

theorem trans (first : Posts core sends s t) (second : Posts core sends t u) :
    Posts core sends s u where
  sent c env h := (second.sent c env h).elim (first.sent c env) .inr
  cmds cmd h := by
    rcases second.cmds cmd h with ⟨old, member, same, pending⟩ | ⟨sends, later, pending⟩
    · rw [← same, ← pending]; exact first.cmds old member
    · exact .inr ⟨sends, first.handles.trans later, pending⟩
  handles := first.handles.trans second.handles

theorem weaken {sends' : SchedCmdType → Prop} (h : Posts core sends s t)
    (sub : ∀ type, sends type → sends' type) : Posts core sends' s t where
  sent c env member := (h.sent c env member).imp_right fun ⟨away, type, rest⟩ =>
    ⟨away, sub _ type, rest⟩
  cmds cmd member := (h.cmds cmd member).imp_right (.imp_left (sub _))
  handles := h.handles

end Posts

namespace Quiet

variable {core : Nat} {scope : Scope} {s t u : SchedSystem}

protected theorem refl (s : SchedSystem) : Quiet core scope s s where
  slots _ := rfl
  rqs _ := rfl
  machine := rfl
  states _ := ⟨id, id⟩
  owners _ := .inl rfl
  entities _ := .inr rfl
  inboxes _ _ := id
  toPosts := .of_mail rfl

theorem trans (first : Quiet core scope s t) (second : Quiet core scope t u) :
    Quiet core scope s u where
  slots r := (second.slots r).trans (first.slots r)
  rqs c := (second.rqs c).trans (first.rqs c)
  machine := by
    have one := first.machine
    have two := second.machine
    rw [one] at two
    exact two
  states r := ⟨(first.states r).1 ∘ (second.states r).1, (first.states r).2 ∘ (second.states r).2⟩
  owners r := by
    rcases second.owners r with same | ⟨hr, new⟩
    · rcases first.owners r with same' | ⟨hr, new⟩
      · exact .inl (same.trans same')
      · exact .inr ⟨hr, same.trans new⟩
    · exact .inr ⟨hr, new⟩
  entities e := by
    rcases second.entities e with ready | same
    · exact .inl ready
    · exact (first.entities e).imp same.trans same.trans
  inboxes c env h := second.inboxes c env (first.inboxes c env h)
  toPosts := first.toPosts.trans second.toPosts

instance : IsPreorder SchedSystem (Quiet core scope) where
  refl := .refl
  trans _ _ _ := .trans

theorem weaken {scope' : Scope} (h : Quiet core scope s t)
    (moves : ∀ r, scope.moves r → scope'.moves r)
    (sends : ∀ type, scope.sends type → scope'.sends type) : Quiet core scope' s t :=
  { h with
    owners := fun r => (h.owners r).imp_right fun ⟨hr, new⟩ => ⟨moves r hr, new⟩
    toPosts := h.toPosts.weaken sends }

theorem nobody_mono (h : Quiet core nobody s t) : Quiet core scope s t :=
  h.weaken (fun _ => False.elim) fun _ => False.elim

theorem everybody_mono (h : Quiet core scope s t) : Quiet core everybody s t :=
  h.weaken (fun _ _ => trivial) fun _ _ => trivial

/-- A thread that the core owns already does not move. -/
theorem of_owned {r : ThreadRef} {sends : SchedCmdType → Prop}
    (h : Quiet core ⟨(· = r), sends⟩ s t) (owned : (s.thread r).ownerCpu = core) :
    Quiet core (sending sends) s t := by
  refine { h with owners := fun q => ?_ }
  rcases h.owners q with same | ⟨rfl, new⟩
  · exact .inl same
  · exact .inl (new.trans owned.symm)

/-! ## What it keeps -/

section Keeps

variable (h : Quiet core scope s t)

include h

theorem executing : t.machine.executing = s.machine.executing := by rw [h.machine]

theorem stackFrees : t.machine.stackFrees = s.machine.stackFrees := by rw [h.machine]

theorem regs : t.machine.regs = s.machine.regs := by rw [h.machine]

theorem extRegs : t.machine.ext.regs = s.machine.ext.regs := by rw [h.machine]

variable (r : ThreadRef) (c : Nat)

theorem currentThread : (t.rq c).currentThread = (s.rq c).currentThread := by
  simpa [SchedRq.fixed] using congrArg (·.2.1) (h.rqs c)

theorem idleThread : (t.rq c).idleThread = (s.rq c).idleThread := by
  simpa [SchedRq.fixed] using congrArg (·.2.2.1) (h.rqs c)

theorem reapQueue : (t.rq c).reapQueue = (s.rq c).reapQueue := by
  simpa [SchedRq.fixed] using congrArg (·.2.2.2.1) (h.rqs c)

theorem freeThreads : (t.rq c).freeThreads = (s.rq c).freeThreads := by
  simpa [SchedRq.fixed] using congrArg (·.2.2.2.2.1) (h.rqs c)

theorem inUse : (t.slot r).inUse = (s.slot r).inUse := congrArg (·.1) (h.slots r)

theorem isBootstrap : (t.slot r).isBootstrap = (s.slot r).isBootstrap :=
  congrArg (·.2.1) (h.slots r)

theorem threadId : (t.thread r).threadId = (s.thread r).threadId :=
  congrArg (·.2.2.2.2.1) (h.slots r)

theorem homeCoreId : (t.thread r).homeCoreId = (s.thread r).homeCoreId :=
  congrArg (·.2.2.2.2.2.1) (h.slots r)

theorem policy : (t.rq c).policy = (s.rq c).policy := congrArg (·.1) (h.rqs c)

theorem cpuTimeConsumed : (t.thread r).cpuTimeConsumed = (s.thread r).cpuTimeConsumed :=
  congrArg (·.2.2.2.2.2.2.2.2.1) (h.slots r)

theorem rtAttr : (t.thread r).rtAttr = (s.thread r).rtAttr :=
  congrArg (·.2.2.2.2.2.2.2.2.2) (h.slots r)

end Keeps

/-! ## One change -/

/-- What a quiet step may do to a thread. -/
def Tame (core : Nat) (scope : Scope) (r : ThreadRef) (old new : BhThread) : Prop :=
  (new.state = .terminated → old.state = .terminated) ∧
    (new.ownerState = .remotePending → old.ownerState = .remotePending) ∧
    (new.ownerCpu = old.ownerCpu ∨ scope.moves r ∧ new.ownerCpu = core)

theorem of_slots {change : ThreadRef → ThreadSlot}
    (same : ∀ r, (change r).identity = (s.slot r).identity)
    (tame : ∀ r, Tame core scope r (s.thread r) (change r).thread) :
    Quiet core scope s { s with slot := change } where
  slots := same
  rqs _ := rfl
  machine := rfl
  states r := ⟨(tame r).1, (tame r).2.1⟩
  owners r := (tame r).2.2
  entities _ := .inr rfl
  inboxes _ _ := id
  toPosts := .of_mail rfl

variable {r : ThreadRef}

theorem modifySlot {change : ThreadSlot → ThreadSlot}
    (same : (change (s.slot r)).identity = (s.slot r).identity)
    (tame : Tame core scope r (s.thread r) (change (s.slot r)).thread) :
    Quiet core scope s (s.modifySlot r change) := by
  refine of_slots (fun q => ?_) (fun q => ?_) <;> by_cases hq : q = r
  · subst hq; simpa
  · simp [hq]
  · subst hq; simpa
  · simp [hq, Tame, SchedSystem.thread]

variable {change : BhThread → BhThread} {e : EntityRef} {c : Nat}

theorem modifyThread (same : (change (s.thread r)).identity = (s.thread r).identity)
    (tame : Tame core scope r (s.thread r) (change (s.thread r))) :
    Quiet core scope s (s.modifyThread r change) := by
  refine modifySlot ?_ tame
  simp only [ThreadSlot.identity]
  rw [show (s.slot r).thread = s.thread r from rfl, same]

/-- Two ways to change the same thread. -/
theorem remodifyThread {change' : BhThread → BhThread}
    (same : (change' (s.thread r)).identity = (change (s.thread r)).identity)
    (tame : Tame core scope r (change (s.thread r)) (change' (s.thread r))) :
    Quiet core scope (s.modifyThread r change) (s.modifyThread r change') := by
  refine @of_slots core scope (s.modifyThread r change) (s.modifyThread r change').slot
    (fun q => ?_) (fun q => ?_) <;> by_cases hq : q = r
  · subst hq
    simpa [ThreadSlot.identity] using same
  · simp [hq]
  · subst hq
    simpa using tame
  · simp [hq, Tame, SchedSystem.thread]

theorem of_entities {change : EntityRef → EntitySlot}
    (states : ∀ e, (change e).entity.state = .ready ∨ (change e).entity.state = (s.ent e).state) :
    Quiet core scope s { s with entity := change } :=
  { Quiet.refl s with entities := states }

theorem modifyEntity {change : SchedEntity → SchedEntity}
    (state : (change (s.ent e)).state = .ready ∨ (change (s.ent e)).state = (s.ent e).state) :
    Quiet core scope s (s.modifyEntity e change) := by
  refine of_entities fun f => ?_
  by_cases hf : f = e
  · subst hf; simpa using state
  · simp [hf, ent]

theorem modifyLists {change : RunLists → RunLists} : Quiet core scope s (s.modifyLists c change) :=
  { Quiet.refl s with }

theorem listDel : Quiet core scope s (s.listDel e) := { Quiet.refl s with }

theorem modifyRq {change : SchedRq → SchedRq} (same : (change (s.rq c)).fixed = (s.rq c).fixed) :
    Quiet core scope s (s.modifyRq c change) :=
  { Quiet.refl s with
    rqs := fun d => by
      by_cases hd : d = c
      · subst hd; simpa using same
      · simp [hd] }

theorem withContext {context : ContextRef → Nat} :
    Quiet core scope s { s with machine := { s.machine with context := context } } :=
  { Quiet.refl s with machine := rfl }

/-- Commands are completed or released, and the rings stay. -/
theorem withCmds {mail : SchedMail} (rings : mail.inbox = s.mail.inbox)
    (handles : mail.nextHandle = s.mail.nextHandle) (old : ∀ cmd ∈ mail.cmds,
      ∃ old ∈ s.mail.cmds, old.envelope = cmd.envelope ∧ old.pending = cmd.pending) :
    Quiet core scope s { s with mail := mail } :=
  { Quiet.refl s with
    inboxes := fun _ _ h => rings ▸ h
    sent := fun _ _ h => .inl (rings ▸ h)
    cmds := fun cmd h => .inl (old cmd h)
    handles := handles.ge }

end Quiet

/-- Only the run lists, the lists of waiting threads and the flags of the slots change. -/
structure Relinks (s u : SchedSystem) : Prop where
  threads : ∀ r, u.thread r = s.thread r
  slots : ∀ r, (u.slot r).identity = (s.slot r).identity
  rqs : ∀ c, (u.rq c).fixed = (s.rq c).fixed
  entity : u.entity = s.entity
  machine : u.machine = s.machine
  mail : u.mail = s.mail

namespace Relinks

variable {s t u : SchedSystem}

protected theorem refl (s : SchedSystem) : Relinks s s where
  threads _ := rfl
  slots _ := rfl
  rqs _ := rfl
  entity := rfl
  machine := rfl
  mail := rfl

theorem trans (first : Relinks s t) (second : Relinks t u) : Relinks s u where
  threads r := (second.threads r).trans (first.threads r)
  slots r := (second.slots r).trans (first.slots r)
  rqs c := (second.rqs c).trans (first.rqs c)
  entity := second.entity.trans first.entity
  machine := second.machine.trans first.machine
  mail := second.mail.trans first.mail

instance : IsPreorder SchedSystem Relinks where
  refl := .refl
  trans _ _ _ := .trans

theorem modifyLists {c : Nat} {change : RunLists → RunLists} : Relinks s (s.modifyLists c change) :=
  { Relinks.refl s with }

theorem listDel {e : EntityRef} : Relinks s (s.listDel e) := { Relinks.refl s with }

variable {r : ThreadRef}

theorem waitDel : Relinks s (s.waitDel r) := { Relinks.refl s with rqs := fun _ => rfl }

theorem modifySlot {change : ThreadSlot → ThreadSlot}
    (same : (change (s.slot r)).identity = (s.slot r).identity)
    (thread : (change (s.slot r)).thread = s.thread r) : Relinks s (s.modifySlot r change) :=
  { Relinks.refl s with
    threads := fun q => by
      by_cases hq : q = r
      · subst hq; simpa using thread
      · simp [hq]
    slots := fun q => by
      by_cases hq : q = r
      · subst hq; simpa using same
      · simp [hq] }

theorem quiet {core : Nat} {scope : Scope} (h : Relinks s u) : Quiet core scope s u where
  slots := h.slots
  rqs := h.rqs
  machine := by rw [h.machine]
  states r := by
    rw [h.threads r]
    exact ⟨id, id⟩
  owners r := .inl (by rw [h.threads r])
  entities e := .inr (by rw [ent, ent, h.entity])
  inboxes _ _ member := h.mail ▸ member
  toPosts := .of_mail h.mail

end Relinks

/-! ## The functions -/

variable {cfg : SchedConfig} {core : Nat} {scope : Scope} {s u : SchedSystem}
  {t : ThreadRef} {e : EntityRef} {prio : Nat}

theorem quiet_boundVruntime {c : Nat} : Quiet core scope s (s.boundVruntime c t e) := by
  unfold boundVruntime
  split_ifs
  · exact (Quiet.modifyEntity (.inr rfl)).trans (.modifyThread rfl ⟨id, id, .inl rfl⟩)
  · exact .refl s

theorem quiet_schedCfsEnqueue {c : Nat} : Quiet core scope s (s.schedCfsEnqueue cfg c t) := by
  unfold schedCfsEnqueue
  split
  · exact .refl s
  · exact quiet_boundVruntime.trans .modifyLists

variable {c dst priority : Nat} {code : Int} {cmd : SchedEnvelope} {tid : Tid}

theorem relinks_schedCfsDequeue : Ends Relinks (·) s (s.schedCfsDequeue cfg c t) := by
  unfold schedCfsDequeue
  split
  · exact .same
  · exact .ite .same (.ite (.of .modifyLists) .never)

theorem ends_schedValidateRq {R : SchedSystem → SchedSystem → Prop} [IsPreorder SchedSystem R] :
    Ends R (·) s (s.schedValidateRq cfg c) :=
  .ite .same .never

theorem quiet_clockDeadline : Quiet core scope s (s.clockDeadline t) := by
  unfold clockDeadline
  split_ifs
  · exact .modifyThread rfl ⟨id, id, .inl rfl⟩
  · exact .refl s

theorem quiet_schedEdfEnqueue : Quiet core scope s (s.schedEdfEnqueue cfg c t) := by
  unfold schedEdfEnqueue
  simp only
  split
  · exact quiet_clockDeadline
  · exact quiet_clockDeadline.trans ((Quiet.modifyEntity (.inr rfl)).trans .modifyLists)

theorem relinks_schedEdfDequeue : Ends Relinks (·) s (s.schedEdfDequeue cfg c t) := by
  unfold schedEdfDequeue
  split
  · exact .same
  · exact .ite .same (.ite (.of .modifyLists) .never)

theorem quiet_linkByPolicy : Quiet core scope s (s.linkByPolicy cfg c t e prio) := by
  unfold linkByPolicy
  split
  · exact quiet_schedCfsEnqueue
  · exact quiet_schedEdfEnqueue
  · exact .modifyLists

theorem quiet_linkEntity : Quiet core scope s (s.linkEntity cfg c t e prio) :=
  (quiet_linkByPolicy.trans (.modifyEntity (.inr rfl))).trans .modifyLists

theorem relinks_unlinkByPolicy : Ends Relinks (·) s (s.unlinkByPolicy cfg c t e prio) := by
  unfold unlinkByPolicy
  split
  · exact relinks_schedCfsDequeue
  · exact relinks_schedEdfDequeue
  · exact .of (Relinks.listDel.trans .modifyLists)

theorem quiet_offRunqueue : Quiet core scope s (s.offRunqueue c e) :=
  (Quiet.modifyEntity (.inr rfl)).trans .modifyLists

theorem quiet_unlinkEntity : Ends (Quiet core scope) (·) s (s.unlinkEntity cfg c t e prio) :=
  .map (relinks_unlinkByPolicy.mono Relinks.quiet) fun _ => quiet_offRunqueue

theorem relinks_dequeueSlot : Ends Relinks (·) s (s.dequeueSlot cfg c t) := by
  refine .map ?_ fun _ => (Relinks.modifySlot rfl rfl).trans .modifyLists
  split
  · exact relinks_schedCfsDequeue
  · exact relinks_schedEdfDequeue
  · exact .of .modifyLists

/-- A quarantined thread is marked, and then perhaps taken off its queue. -/
theorem relinks_schedQuarantineThread :
    Ends Relinks (·) (s.modifyThread t
      ({ · with state := .quarantined, ownerState := .quarantined }))
      (s.schedQuarantineThread cfg c t) := by
  refine .ite .never (.ite ?_ .same)
  split
  · exact .same
  · exact .ite relinks_dequeueSlot .same

theorem quiet_schedQuarantineThread :
    Ends (Quiet core scope) (·) s (s.schedQuarantineThread cfg c t) :=
  .after (.modifyThread rfl ⟨fun h => (by cases h), fun h => (by cases h), .inl rfl⟩)
    (relinks_schedQuarantineThread.mono Relinks.quiet)

theorem quiet_schedInvariantOnEnqueue :
    Ends (Quiet core (moving (· = t))) (·) s (s.schedInvariantOnEnqueue cfg core t) := by
  refine .bind (.ite quiet_schedQuarantineThread .same) fun _ => ?_
  refine .map (.ite quiet_schedQuarantineThread .same) fun _ => ?_
  exact .modifyThread rfl ⟨id, nofun, .inr ⟨rfl, rfl⟩⟩

theorem quiet_schedInvariantOnDequeue :
    Ends (Quiet core scope) (·) s (s.schedInvariantOnDequeue cfg c t) :=
  .map (.ite .same quiet_schedQuarantineThread) fun _ => .modifyThread rfl ⟨id, id, .inl rfl⟩

theorem quiet_schedAllocateEntity :
    Ends (Quiet core scope) (·.1) s (s.schedAllocateEntity cfg c) := by
  refine .ite .never ?_
  split
  · exact .never
  refine .of ((Quiet.modifyRq (by rfl)).trans (.of_entities fun f => ?_))
  by_cases hf : f = ⟨c, ‹Nat›⟩
  · subst hf; simp
  · simp [hf, ent]

theorem quiet_entityForEnqueue :
    Ends (Quiet core (moving (· = t))) (·.1) s (s.entityForEnqueue cfg core t) := by
  unfold entityForEnqueue
  split
  · exact .same
  refine .map quiet_schedAllocateEntity fun ⟨_, _⟩ => ?_
  dsimp only
  exact ((Quiet.modifyEntity (.inl rfl)).trans .withContext).trans
    (.modifyThread rfl ⟨id, id, .inr ⟨rfl, rfl⟩⟩)

theorem quiet_stampDeadline : Quiet core scope s (s.stampDeadline c t e) := by
  unfold stampDeadline
  simp only
  split_ifs
  · exact (Quiet.modifyThread rfl ⟨id, id, .inl rfl⟩).trans (.modifyEntity (.inr rfl))
  · exact .refl s

theorem quiet_takeOff : Ends (Quiet core scope) (·) s (s.takeOff cfg c t e) :=
  .ite (.bind quiet_schedInvariantOnDequeue fun _ => quiet_unlinkEntity) .same

theorem quiet_makeReady : Quiet core scope s (s.makeReady c t e) :=
  (Quiet.modifyThread rfl ⟨fun h => (by cases h), id, .inl rfl⟩).trans (.modifyEntity (.inl rfl))

theorem quiet_putOn : Ends (Quiet core (moving (· = t))) (·) s (s.putOn cfg core t e) :=
  .map quiet_schedInvariantOnEnqueue fun _ => quiet_linkEntity

theorem quiet_enqueueLocal :
    Ends (Quiet core (moving (· = t))) (·.1) s (s.enqueueLocal cfg core t) := by
  unfold enqueueLocal
  split
  · exact .same
  refine .after (quiet_entityForEnqueue ‹_›) (.bind quiet_takeOff fun _ => ?_)
  refine .after quiet_makeReady (.bind quiet_schedInvariantOnEnqueue fun _ => ?_)
  refine .after ((Quiet.modifyEntity (.inr rfl)).trans (quiet_stampDeadline.trans quiet_linkEntity))
    (.map ends_schedValidateRq fun _ => .refl _)

/-! ### Commands -/

section

variable (addressed : Addressed core dst cmd)

include addressed

section

variable (sends : scope.sends cmd.type)

include sends

theorem quiet_schedRemoteSubmit : Quiet core scope s (s.schedRemoteSubmit cfg core dst cmd).1 := by
  unfold schedRemoteSubmit
  split_ifs with _ same
  · exact .refl s
  · exact .refl s
  · exact .refl s
  refine { Quiet.refl s with
    sent := fun d env henv => ?_
    cmds := fun cmd' member => ?_
    handles := Nat.le_succ _
    inboxes := fun d env henv => ?_ }
  · by_cases hd : d = dst
    · subst hd
      simp only [Function.update_self, mem_append, mem_singleton] at henv
      rcases henv with old | rfl
      · exact .inl old
      · exact .inr ⟨same, sends, rfl, addressed.source, addressed.steals, addressed.target⟩
    · exact .inl (by simpa [hd] using henv)
  · rcases mem_append.mp member with old | new
    · exact .inl ⟨cmd', old, rfl, rfl⟩
    rw [mem_singleton.mp new]
    exact .inr ⟨sends, Nat.le_refl _, .inl rfl⟩
  · by_cases hd : d = dst
    · subst hd; simpa using .inl henv
    · simpa [hd] using henv

theorem quiet_sendCommand : Quiet core scope s (s.sendCommand cfg core dst cmd).1 := by
  unfold sendCommand
  split_ifs
  · exact quiet_schedRemoteSubmit addressed sends
  · exact .refl s

theorem quiet_sendAndForget (type : cmd.type.unreleased = true) :
    Quiet core scope s (s.sendAndForget cfg core dst cmd) := by
  unfold sendAndForget
  simp only
  split_ifs
  · exact quiet_schedRemoteSubmit addressed sends
  refine { Quiet.refl s with cmds := fun cmd' member => ?_, handles := Nat.le_succ _ }
  rcases mem_append.mp member with old | new
  · exact .inl ⟨cmd', old, rfl, rfl⟩
  rw [mem_singleton.mp new]
  exact .inr ⟨sends, Nat.le_refl _, .inr type⟩
end

end

theorem quiet_respond {handle : Nat} {ack : Bool} {result : Int} :
    Quiet core scope s (s.respond handle ack result) := by
  refine .withCmds rfl rfl fun cmd member => ?_
  obtain ⟨old, present, rfl⟩ := List.mem_map.mp member
  refine ⟨old, present, ?_⟩
  split_ifs <;> exact ⟨rfl, rfl⟩

/-- A command that names its sender and its receiver. -/
theorem addressed_plain {env : SchedEnvelope} (source : env.sourceCpu = core)
    (target : env.targetCpu = dst) (type : env.type ≠ .stealReq) : Addressed core dst env :=
  ⟨fun _ => source, fun steals => absurd steals type, fun _ => target⟩

theorem quiet_schedEnqueue {coreId : Nat} :
    Ends (Quiet core ⟨(· = t), (· = .enqueue)⟩) (·.1) s (s.schedEnqueue cfg core t coreId) := by
  refine .ite .same (.ite .same (.ite ?_ (.ite .same ?_)))
  · exact quiet_enqueueLocal.mono (·.weaken (fun _ => id) fun _ => False.elim)
  · exact .map (.ite quiet_schedQuarantineThread .same) fun _ =>
      quiet_sendCommand (addressed_plain rfl rfl (by simp)) rfl

/-- Nothing is sent for the core itself. -/
theorem quiet_schedEnqueue_own :
    Ends (Quiet core (moving (· = t))) (·.1) s (s.schedEnqueue cfg core t core) := by
  refine .ite .same (.ite .same ?_)
  rw [if_pos rfl]
  exact quiet_enqueueLocal

theorem relinks_waitDequeue : Relinks s ((s.schedSleepDequeue t).schedBlockDequeue t) := by
  have awake : Relinks s (s.schedSleepDequeue t) := by
    unfold schedSleepDequeue
    split_ifs
    · exact Relinks.waitDel.trans (.modifySlot rfl rfl)
    · exact .refl s
  refine awake.trans ?_
  unfold schedBlockDequeue
  split_ifs
  · exact Relinks.waitDel.trans (.modifySlot rfl rfl)
  · exact .refl _

theorem relinks_schedDetachThreadFromQueues :
    Ends Relinks (·) s (s.schedDetachThreadFromQueues cfg c t) :=
  .ite .never (.map (.ite (.bind relinks_dequeueSlot fun _ => ends_schedValidateRq) .same)
    fun _ => relinks_waitDequeue)

theorem quiet_raisePriority : Quiet core scope s (s.raisePriority t priority) := by
  unfold raisePriority
  split_ifs
  · exact .modifyThread rfl ⟨id, id, .inl rfl⟩
  · exact .refl s

theorem quiet_wakeLocal :
    Ends (Quiet core ⟨(· = t), (· = .enqueue)⟩) (·) s (s.wakeLocal cfg core t) := by
  refine .ite (.after ?_ (.map quiet_schedEnqueue fun _ => .refl _)) .same
  exact Quiet.trans (.modifyThread rfl ⟨fun h => (by cases h), id, .inl rfl⟩)
    relinks_waitDequeue.quiet

/-- Only the owner wakes a thread itself, so that no thread moves. -/
theorem quiet_schedWakeTidWithPriority :
    Ends (Quiet core (sending fun type => type = .wake ∨ type = .enqueue)) (·.1) s
      (s.schedWakeTidWithPriority cfg core tid priority) := by
  unfold schedWakeTidWithPriority
  split
  · exact .same
  split_ifs with remote
  · exact .of (quiet_sendCommand (addressed_plain rfl rfl (by simp)) (.inl rfl))
  refine Ends.mono (.after quiet_raisePriority (.map quiet_wakeLocal fun _ => .refl _)) fun quiet => ?_
  exact (quiet.of_owned (not_not.mp remote)).weaken (fun _ => id) fun _ => .inr

theorem quiet_schedMigrationTransition {expected next : SchedMig} :
    Ends (Quiet core scope) (·) s (s.schedMigrationTransition cfg c t expected next) :=
  .ite (.of (.modifyThread rfl ⟨id, id, .inl rfl⟩))
    (.ite .never (.ite quiet_schedQuarantineThread .same))

variable {newNode target : Nat} {mask : BitVec 32}

theorem quiet_migrateAsOwner :
    Ends (Quiet core sendingAny) (·.1) s (s.migrateAsOwner cfg core t newNode) := by
  unfold migrateAsOwner
  split
  · exact .same
  refine .ite .same (.bind quiet_schedMigrationTransition fun _ => .ite ?_ ?_)
  · exact .of ((Quiet.modifyEntity (.inr rfl)).trans
      (quiet_schedRemoteSubmit (addressed_plain rfl rfl (by simp [reserveCommand])) trivial))
  · refine .after (.modifyEntity (.inr rfl)) (.map quiet_schedMigrationTransition fun _ => ?_)
    dsimp only
    exact .modifyEntity (.inr rfl)

theorem quiet_migrateAsOther :
    Ends (Quiet core (sending (· = .migratePrepare))) (·.1) s
      (s.migrateAsOther cfg core t) := by
  refine .ite .same (.bind quiet_schedMigrationTransition fun _ => .ite ?_ ?_)
  · exact .of (quiet_schedRemoteSubmit (addressed_plain rfl rfl (by simp)) rfl)
  · exact .map quiet_schedMigrationTransition fun _ => .refl _

theorem quiet_schedMigrateTask :
    Ends (Quiet core sendingAny) (·.1) s (s.schedMigrateTask cfg core t newNode) := by
  have begun : Quiet core sendingAny s (s.beginMigration t newNode) :=
    (.modifyThread rfl ⟨id, id, .inl rfl⟩)
  unfold schedMigrateTask
  split_ifs
  iterate 5 exact .same
  · exact .after begun quiet_migrateAsOwner
  · exact .after begun (quiet_migrateAsOther.mono (·.weaken (fun _ => id) fun _ _ => trivial))

theorem quiet_schedMigrateTid :
    Ends (Quiet core sendingAny) (·.1) s (s.schedMigrateTid cfg core tid target) := by
  unfold schedMigrateTid
  split
  · exact .same
  · exact quiet_schedMigrateTask

/-! ### Attributes -/

theorem quiet_dequeueAdjusted : Ends (Quiet core scope) (·) s (s.dequeueAdjusted cfg c t) := by
  unfold dequeueAdjusted
  split
  · exact .same
  refine .ite (.map (.ite (relinks_schedCfsDequeue.mono Relinks.quiet) (.of .modifyLists))
    fun _ => ?_) .same
  exact (Quiet.modifySlot rfl ⟨id, id, .inl rfl⟩).trans .modifyLists

theorem quiet_schedAdjustPriorityLocal :
    Ends (Quiet core ⟨(· = t), (· = .enqueue)⟩) (·) s
      (s.schedAdjustPriorityLocal cfg core t priority) := by
  refine .bind quiet_dequeueAdjusted fun _ => .ite ?_ (.of (.modifyThread rfl ⟨id, id, .inl rfl⟩))
  exact .after (.modifyThread rfl ⟨id, id, .inl rfl⟩) (.map quiet_schedEnqueue fun _ => .refl _)

theorem quiet_schedSetPriority :
    Ends (Quiet core sendingAny) (·.1) s (s.schedSetPriority cfg core tid priority) := by
  unfold schedSetPriority
  split
  · exact .same
  split_ifs with remote
  · exact .of (quiet_sendCommand (addressed_plain rfl rfl (by simp)) trivial)
  refine Ends.mono (.map quiet_schedAdjustPriorityLocal fun _ => .refl _) fun quiet => ?_
  exact (quiet.of_owned (not_not.mp remote)).weaken (fun _ => id) fun _ _ => trivial

theorem quiet_setAffinityLocal :
    Ends (Quiet core sendingAny) (·.1) s (s.setAffinityLocal cfg core t mask) := by
  refine .ite (.pair (.modifyThread rfl ⟨id, id, .inl rfl⟩)) ?_
  split
  · exact .pair (.modifyThread rfl ⟨id, id, .inl rfl⟩)
  · exact .after (.modifyThread rfl ⟨id, id, .inl rfl⟩) quiet_schedMigrateTid

theorem quiet_schedSetAffinity :
    Ends (Quiet core sendingAny) (·.1) s (s.schedSetAffinity cfg core tid mask) := by
  unfold schedSetAffinity
  split
  · exact .same
  refine .ite .same (.ite (.of ?_) quiet_setAffinityLocal)
  exact quiet_sendCommand (addressed_plain rfl rfl (by simp)) trivial

theorem quiet_schedSetConstraints {constraints : ExecConstraints} :
    Ends (Quiet core sendingAny) (·.1) s (s.schedSetConstraints cfg core tid constraints) := by
  unfold schedSetConstraints
  split
  · exact .same
  refine .ite (.of ?_) (.pair (.modifyThread rfl ⟨id, id, .inl rfl⟩))
  exact quiet_sendCommand (addressed_plain rfl rfl (by simp)) trivial

theorem quiet_schedQuarantineTid {reason : BitVec 32} :
    Ends (Quiet core sendingAny) (·.1) s (s.schedQuarantineTid cfg core tid reason) := by
  unfold schedQuarantineTid
  split
  · exact .same
  refine .ite (.of ?_) (.map quiet_schedQuarantineThread fun _ => .refl _)
  exact quiet_sendCommand (addressed_plain rfl rfl (by simp)) trivial

theorem quiet_requestHandoffRemote {authToken : BitVec 32} :
    Ends (Quiet core sendingAny) (·.1) s
      (s.requestHandoffRemote cfg core tid target authToken) := by
  unfold requestHandoffRemote
  split
  · exact .same
  refine .ite .same (.ite .never (.of ?_))
  exact quiet_sendCommand
    ⟨fun _ => rfl, nofun, fun other => absurd rfl other.2.1⟩ trivial

theorem quiet_schedBalanceOnce :
    Quiet core (sending (· = .stealReq)) s (s.schedBalanceOnce cfg core) := by
  unfold schedBalanceOnce
  simp only
  split_ifs
  · exact .refl s
  · exact quiet_sendAndForget
      ⟨fun other => absurd rfl other, fun _ => rfl, fun other => absurd rfl other.1⟩ rfl rfl
  · exact .refl s

end SchedSystem

end BharatOS
