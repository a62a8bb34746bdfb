import BharatOS.Sched.Contexts

/-!
# Kernel stacks (`thread_destroy`)

`thread_destroy` checks only that the thread is not the current one of its core.
-/

namespace BharatOS

open Option List

namespace SchedSystem

open Scope

/-- Slots of a core that nobody uses, each once. -/
def Free (s : SchedSystem) (c : Nat) (slots : List Nat) : Prop :=
  slots.Nodup ∧ ∀ idx ∈ slots, (s.slot ⟨c, idx⟩).inUse = false

/-- What makes the check of `thread_destroy` enough, and the stacks given back so far. -/
structure Stacks (cfg : SchedConfig) (s : SchedSystem) : Prop where
  ready : EntitiesReady s
  within : Within (·.plain = true) s
  owned : ∀ c < cfg.count, (s.slot (s.machine.executing c)).isBootstrap = false →
    (s.thread (s.machine.executing c)).ownerCpu = c
  used : ∀ c < cfg.count, (s.slot (s.machine.executing c)).inUse = true
  ids : ∀ r, ((s.slot r).inUse = true → (s.thread r).threadId.generation ≠ 0) ∧
    ((s.thread r).threadId.generation ≠ 0 → (s.thread r).threadId.ref = r)
  settled : ∀ r, (s.thread r).ownerState ≠ .remotePending
  idles : ∀ c, ∀ t ∈ (s.rq c).idleThread, (s.slot t).inUse = true ∧ (s.slot t).isBootstrap = true
  free : ∀ c, s.Free c (s.rq c).freeThreads
  reaps : ∀ c, ∀ idx ∈ (s.rq c).reapQueue, (s.slot ⟨c, idx⟩).isBootstrap = false
  frees : ∀ f ∈ s.machine.stackFrees, f.executed = false

variable {cfg : SchedConfig} {core : Nat} {s u : SchedSystem} {t : ThreadRef}

theorem freeStack_slot (cfg : SchedConfig) (s : SchedSystem) (t r : ThreadRef) :
    ((s.freeStack cfg t).slot r).inUse = (s.slot r).inUse ∧
      ((s.freeStack cfg t).slot r).isBootstrap = (s.slot r).isBootstrap ∧
      ((s.freeStack cfg t).slot r).reapPending = (s.slot r).reapPending := by
  unfold freeStack
  split_ifs
  · by_cases same : r = t
    · subst same; simp
    · simp [same]
  · exact ⟨rfl, rfl, rfl⟩

theorem freeStack_rq : (s.freeStack cfg t).rq = s.rq := by
  unfold freeStack
  split_ifs <;> rfl

theorem reclaim_reapQueue {r : ThreadRef} {c : Nat} :
    ((s.reclaim cfg core t r).rq c).reapQueue = (s.rq c).reapQueue := by
  have freed : Quiet core nobody s (s.freeEntityOf cfg (s.thread t).ownerCpu t) :=
    quiet_freeEntityOf s _ t
  unfold reclaim
  generalize hm : (s.freeEntityOf cfg (s.thread t).ownerCpu t).freeStack cfg t = m
  have same : (m.rq c).reapQueue = (s.rq c).reapQueue := by
    rw [← hm, freeStack_rq, freed.reapQueue]
  simp only
  split_ifs
  · exact same
  by_cases own : c = core
  · subst own; simpa using same
  · simpa [own] using same

theorem threadDestroy_reapQueue {code : Int} (h : s.threadDestroy cfg core t = some (u, code)) (c : Nat) :
    (u.rq c).reapQueue = (s.rq c).reapQueue := by
  obtain ⟨rfl, _⟩ | ⟨r, m, _, _, _, _, relinks, rfl⟩ := threadDestroy_cases h
  · rfl
  rw [reclaim_reapQueue, (relinks.quiet : Quiet core nobody _ _).reapQueue]
  rfl

namespace Stacks

variable (S : Stacks cfg s)

include S

/-- What a step may do that gives no slot away and does not switch. -/
theorem keeps (ready : EntitiesReady u) (within : Within (·.plain = true) u)
    (machine : u.machine.executing = s.machine.executing ∧
      ∀ f ∈ u.machine.stackFrees, f ∈ s.machine.stackFrees ∨ f.executed = false)
    (slots : ∀ r, (u.slot r).inUse = (s.slot r).inUse ∧
      (u.slot r).isBootstrap = (s.slot r).isBootstrap ∧
      (u.thread r).threadId = (s.thread r).threadId ∧ (u.thread r).ownerState ≠ .remotePending)
    (owners : ∀ c < cfg.count, (s.slot (s.machine.executing c)).isBootstrap = false →
      (u.thread (s.machine.executing c)).ownerCpu = c)
    (rqs : ∀ c, (u.rq c).idleThread = (s.rq c).idleThread ∧ s.Free c (u.rq c).freeThreads ∧
      ∀ idx ∈ (u.rq c).reapQueue, idx ∈ (s.rq c).reapQueue ∨
        (s.slot ⟨c, idx⟩).isBootstrap = false) : Stacks cfg u where
  ready := ready
  within := within
  owned c active := by
    rw [machine.1, (slots _).2.1]
    exact owners c active
  used c active := by
    rw [machine.1, (slots _).1]
    exact S.used c active
  ids r := by
    rw [(slots r).1, (slots r).2.2.1]
    exact S.ids r
  settled r := (slots r).2.2.2
  idles c t member := by
    rw [(rqs c).1] at member
    rw [(slots t).1, (slots t).2.1]
    exact S.idles c t member
  free c := ⟨(rqs c).2.1.1, fun idx member => (slots _).1.trans ((rqs c).2.1.2 idx member)⟩
  reaps c idx member := by
    rw [(slots _).2.1]
    exact ((rqs c).2.2 idx member).elim (S.reaps c idx) id
  frees f member := (machine.2 f member).elim (S.frees f) id

/-- A thread that moves is not executed by another core. -/
theorem quiet {scope : Scope} (h : Quiet core scope s u)
    (sends : ∀ type, scope.sends type → type.plain = true)
    (stays : ∀ c < cfg.count, (s.slot (s.machine.executing c)).isBootstrap = false →
      scope.moves (s.machine.executing c) → c = core) : Stacks cfg u := by
  refine S.keeps (S.ready.still h.steady.toStill) (S.within.posts (h.posts sends))
    ⟨h.executing, fun f member => .inl (h.stackFrees ▸ member)⟩ (fun r => ?_) (fun c active plain => ?_)
    fun c => ⟨h.idleThread c, h.freeThreads c ▸ S.free c,
      fun idx member => .inl (h.reapQueue c ▸ member)⟩
  · exact ⟨h.inUse r, h.isBootstrap r, h.threadId r, fun pending =>
      S.settled r ((h.states r).2 pending)⟩
  · rcases h.owners (s.machine.executing c) with same | ⟨moves, new⟩
    · exact same.trans (S.owned c active plain)
    · exact new.trans (stays c active plain moves).symm

theorem quiet_sending {sends : SchedCmdType → Prop}
    (h : Quiet core (sending sends) s u) (plain : ∀ type, sends type → type.plain = true) :
    Stacks cfg u :=
  S.quiet h plain fun _ _ _ => False.elim

theorem quiet_nobody (h : Quiet core nobody s u) : Stacks cfg u :=
  S.quiet_sending h fun _ => False.elim

theorem modifyRq {c : Nat} {change : SchedRq → SchedRq}
    (same : (change (s.rq c)).idleThread = (s.rq c).idleThread ∧
      s.Free c (change (s.rq c)).freeThreads ∧
      ∀ idx ∈ (change (s.rq c)).reapQueue, idx ∈ (s.rq c).reapQueue ∨
        (s.slot ⟨c, idx⟩).isBootstrap = false) : Stacks cfg (s.modifyRq c change) := by
  refine S.keeps S.ready ⟨S.within.rings, S.within.cmds⟩ ⟨rfl, fun _ => .inl⟩
    (fun r => ⟨rfl, rfl, rfl, S.settled r⟩) S.owned fun d => ?_
  by_cases own : d = c
  · subst own; simpa using same
  simp only [modifyRq_rq, own, if_false]
  exact ⟨trivial, S.free d, fun _ => .inl⟩

theorem setCurrent {c : Nat} {current : Option ThreadRef} : Stacks cfg (s.setCurrent c current) :=
  S.modifyRq ⟨rfl, S.free c, fun _ => .inl⟩

/-- The flag of the reap queue does not matter. -/
theorem modifySlot {change : ThreadSlot → ThreadSlot}
    (slot : (change (s.slot t)).inUse = (s.slot t).inUse ∧
      (change (s.slot t)).isBootstrap = (s.slot t).isBootstrap)
    (thread : (change (s.slot t)).thread.threadId = (s.thread t).threadId ∧
      (change (s.slot t)).thread.ownerCpu = (s.thread t).ownerCpu ∧
      (change (s.slot t)).thread.ownerState ≠ .remotePending) :
    Stacks cfg (s.modifySlot t change) := by
  have threads : ∀ r, ((s.modifySlot t change).thread r).ownerCpu = (s.thread r).ownerCpu := by
    intro r
    by_cases own : r = t
    · subst own; simpa using thread.2.1
    · simp [own]
  refine S.keeps S.ready ⟨S.within.rings, S.within.cmds⟩ ⟨rfl, fun _ => .inl⟩ (fun r => ?_)
    (fun c active plain => (threads _).trans (S.owned c active plain))
    fun c => ⟨rfl, S.free c, fun _ => .inl⟩
  by_cases own : r = t
  · subst own; simp [slot, thread]
  · simpa [own] using S.settled r

theorem modifyThread {change : BhThread → BhThread}
    (same : (change (s.thread t)).threadId = (s.thread t).threadId ∧
      (change (s.thread t)).ownerCpu = (s.thread t).ownerCpu ∧
      ((change (s.thread t)).ownerState ≠ .remotePending)) :
    Stacks cfg (s.modifyThread t change) :=
  S.modifySlot ⟨rfl, rfl⟩ same

end Stacks

/-- The core knows which thread it executes, or that thread is not in its reap queue. -/
def Guarded (core : Nat) (s : SchedSystem) : Prop :=
  (s.rq core).currentThread = some (s.machine.executing core) ∨
    ∀ idx ∈ (s.rq core).reapQueue, s.machine.executing core ≠ ⟨core, idx⟩

theorem Guarded.quiet {scope : Scope} (guarded : Guarded core s) (h : Quiet core scope s u) :
    Guarded core u := by
  unfold Guarded
  rw [h.currentThread, h.executing, h.reapQueue]
  exact guarded

section

variable (S : Stacks cfg s)

include S

/-! ## Destruction -/

theorem Stacks.freeStack (idle : ∀ c < cfg.count, s.machine.executing c ≠ t) :
    Stacks cfg (s.freeStack cfg t) := by
  unfold SchedSystem.freeStack
  split_ifs
  · have cleared : Stacks cfg (s.modifyThread t ({ · with kernelStack := false })) :=
      S.modifyThread ⟨rfl, rfl, S.settled t⟩
    refine cleared.keeps cleared.ready ⟨cleared.within.rings, cleared.within.cmds⟩
      ⟨rfl, fun f member => ?_⟩ (fun r => ⟨rfl, rfl, rfl, cleared.settled r⟩) cleared.owned
      fun c => ⟨rfl, cleared.free c, fun _ => .inl⟩
    rcases mem_append.mp member with old | new
    · exact .inl old
    rw [mem_singleton.mp new]
    exact .inr (List.any_eq_false.mpr fun c active executes =>
      idle c (mem_range.mp active) (of_decide_eq_true executes))
  · exact S

/-- The slot of no bootstrap thread changes hands while nobody executes its thread. -/
theorem Stacks.setSlot {slot : ThreadSlot} (idle : ∀ c < cfg.count, s.machine.executing c ≠ t)
    (other : ∀ c, t ∉ (s.rq c).idleThread)
    (taken : slot.inUse = true → t.slot ∉ (s.rq t.core).freeThreads)
    (named : (slot.inUse = true → slot.thread.threadId.generation ≠ 0) ∧
      (slot.thread.threadId.generation ≠ 0 → slot.thread.threadId.ref = t))
    (settled : slot.thread.ownerState ≠ .remotePending) (plain : slot.isBootstrap = false) :
    Stacks cfg (s.modifySlot t fun _ => slot) := by
  have others : ∀ {r}, r ≠ t → (s.modifySlot t fun _ => slot).slot r = s.slot r :=
    fun other => by simp [other]
  have threads : ∀ {r}, r ≠ t → (s.modifySlot t fun _ => slot).thread r = s.thread r :=
    fun other => by simp [other]
  refine ⟨S.ready, ⟨S.within.rings, S.within.cmds⟩, fun c active => ?_, fun c active => ?_,
    fun r => ?_, fun r => ?_, fun c r member => ?_, fun c => ⟨(S.free c).1, fun idx member => ?_⟩,
    fun c idx member => ?_, S.frees⟩
  · change ((s.modifySlot t _).slot (s.machine.executing c)).isBootstrap = false →
      ((s.modifySlot t _).thread (s.machine.executing c)).ownerCpu = c
    rw [others (idle c active), threads (idle c active)]
    exact S.owned c active
  · change ((s.modifySlot t _).slot (s.machine.executing c)).inUse = true
    rw [others (idle c active)]
    exact S.used c active
  · by_cases own : r = t
    · subst own; simpa using named
    · rw [others own, threads own]; exact S.ids r
  · by_cases own : r = t
    · subst own; simpa using settled
    · rw [threads own]; exact S.settled r
  · rw [others fun same => other c (same ▸ member)]
    exact S.idles c r member
  · by_cases own : (⟨c, idx⟩ : ThreadRef) = t
    · subst own
      simpa using fun used => taken used member
    · rw [others own]; exact (S.free c).2 idx member
  · by_cases own : (⟨c, idx⟩ : ThreadRef) = t
    · subst own; simpa using plain
    · rw [others own]; exact S.reaps c idx member

/-- The slot of an ordinary thread that nobody executes is given back. -/
theorem Stacks.release (used : (s.slot t).inUse = true)
    (plain : (s.slot t).isBootstrap = false) (idle : ∀ c < cfg.count, s.machine.executing c ≠ t) :
    Stacks cfg ((s.modifySlot t ({ · with inUse := false, reapPending := false })).modifyRq t.core
      fun rq => { rq with freeThreads := t.slot :: rq.freeThreads }) := by
  have cleared : Stacks cfg (s.modifySlot t ({ · with inUse := false, reapPending := false })) :=
    S.setSlot idle (fun c member => by simp [(S.idles c t member).2] at plain) nofun
      ⟨nofun, (S.ids t).2⟩ (S.settled t) plain
  have fresh : t.slot ∉ (s.rq t.core).freeThreads := fun member =>
    absurd ((S.free t.core).2 t.slot member) (by simp [used])
  refine cleared.modifyRq ⟨rfl, ⟨nodup_cons.mpr ⟨fresh, (S.free _).1⟩, ?_⟩, fun _ => .inl⟩
  rintro idx (_ | ⟨_, old⟩)
  · simp
  · exact (cleared.free _).2 idx old

theorem Stacks.reclaim (own : t.core = core) (used : (s.slot t).inUse = true)
    (plain : (s.slot t).isBootstrap = false) (idle : ∀ c < cfg.count, s.machine.executing c ≠ t) :
    Stacks cfg (s.reclaim cfg core t t) := by
  have freed : Quiet core nobody s (s.freeEntityOf cfg (s.thread t).ownerCpu t) :=
    quiet_freeEntityOf s _ t
  have S' : Stacks cfg ((s.freeEntityOf cfg (s.thread t).ownerCpu t).freeStack cfg t) :=
    (S.quiet_nobody freed).freeStack (freed.executing ▸ idle)
  obtain ⟨inUse, isBootstrap, -⟩ := freeStack_slot cfg
    (s.freeEntityOf cfg (s.thread t).ownerCpu t) t t
  have works : Works core (fun _ => True) _ _ :=
    works_freeStack cfg (s.freeEntityOf cfg (s.thread t).ownerCpu t) t
  have executing := works.executing
  rw [freed.inUse, used] at inUse
  rw [freed.isBootstrap, plain] at isBootstrap
  rw [freed.executing] at executing
  unfold SchedSystem.reclaim
  rw [if_neg (by simp [isBootstrap]), ← own]
  exact S'.release inUse isBootstrap (executing ▸ idle)

theorem Stacks.threadDestroy {code : Int} (plain : (s.slot t).isBootstrap = false)
    (guarded : (s.rq core).currentThread = some (s.machine.executing core) ∨
      s.machine.executing core ≠ t)
    (h : s.threadDestroy cfg core t = some (u, code)) : Stacks cfg u := by
  obtain ⟨rfl, _⟩ | ⟨r, m, other, found, _, detaches, relinks, rfl⟩ := threadDestroy_cases h
  · exact S
  obtain ⟨own, ref, tid, used⟩ := findThreadLocal_ref found
  have same : r = t := by
    have generation := (S.ids r).1 used
    rw [tid] at generation
    exact ref.trans ((S.ids t).2 generation)
  subst same
  have quiet : Quiet core nobody (s.modifySlot r ({ · with reapPending := true })) m :=
    relinks.quiet
  have owner : (s.thread r).ownerCpu = core := by
    rcases detaches with owner | pending
    · exact owner
    · exact absurd pending (S.settled r)
  have idle : ∀ c < cfg.count, s.machine.executing c ≠ r := by
    intro c active executes
    have owned := S.owned c active (executes ▸ plain)
    rw [executes, owner] at owned
    subst owned
    rcases guarded with current | away
    · exact other (executes ▸ current)
    · exact away executes
  have marked : Stacks cfg (s.modifySlot r ({ · with reapPending := true })) :=
    S.modifySlot ⟨rfl, rfl⟩ ⟨rfl, rfl, S.settled _⟩
  refine (marked.quiet_nobody quiet).reclaim ?_ ?_ ?_ ?_
  · rw [ref, ← own]; rfl
  · rw [quiet.inUse]; simpa using used
  · rw [quiet.isBootstrap]; simpa using plain
  · rw [quiet.executing]; exact idle

theorem Stacks.reapLoop {fuel : Nat} (guarded : Guarded core s)
    (h : reapLoop cfg core fuel s = some u) : Stacks cfg u := by
  induction fuel generalizing s with
  | zero => cases h; exact S
  | succ fuel ih =>
    unfold SchedSystem.reapLoop at h
    split at h
    · cases h; exact S
    rename_i idx rest queue
    obtain ⟨⟨m, _⟩, destroyed, h⟩ := bind_eq_some_iff.mp h
    have popped : Stacks cfg ((s.modifyRq core ({ · with reapQueue := rest })).modifySlot ⟨core, idx⟩
        ({ · with reapPending := false })) := by
      refine Stacks.modifySlot (S.modifyRq ⟨rfl, S.free core, fun later member => .inl ?_⟩) ⟨rfl, rfl⟩
        ⟨rfl, rfl, S.settled _⟩
      rw [queue]
      exact mem_cons_of_mem _ member
    have still : Works core (fun _ => True) _ m := works_threadDestroy destroyed
    refine ih (popped.threadDestroy ?_ ?_ destroyed) ?_ h
    · simpa using S.reaps core idx (by simp [queue])
    · exact guarded.imp (by simpa using ·) fun away => away idx (by simp [queue])
    · unfold Guarded
      rw [still.currents, still.executing, threadDestroy_reapQueue destroyed]
      refine guarded.imp (by simpa using ·) fun away later member => away later ?_
      rw [queue]
      exact mem_cons_of_mem _ (by simpa using member)

end

/-- Reaping empties the queue. -/
theorem schedReapTerminatedThreads_empties (h : s.schedReapTerminatedThreads cfg core = some u) :
    (u.rq core).reapQueue = [] := by
  unfold schedReapTerminatedThreads at h
  generalize size : (s.rq core).reapQueue.length = fuel at h
  induction fuel generalizing s with
  | zero => cases h; exact length_eq_zero_iff.mp size
  | succ fuel ih =>
    unfold reapLoop at h
    split at h
    · rename_i queue
      rw [queue] at size
      cases size
    rename_i idx rest queue
    obtain ⟨⟨m, _⟩, destroyed, h⟩ := bind_eq_some_iff.mp h
    refine ih ?_ h
    rw [threadDestroy_reapQueue destroyed]
    rw [queue] at size
    simpa using size

/-! ## Termination and the ring -/

section

variable (S : Stacks cfg s)

include S

theorem Stacks.schedEnqueueReap : Stacks cfg (s.schedEnqueueReap cfg t).1 := by
  unfold SchedSystem.schedEnqueueReap
  simp only
  split_ifs with refused
  · exact S
  · exact S
  obtain ⟨plain, -, -, ref⟩ := by simpa only [not_or, not_not] using refused
  dsimp only
  have marked : Stacks cfg (s.modifySlot t ({ · with reapPending := true })) :=
    S.modifySlot ⟨rfl, rfl⟩ ⟨rfl, rfl, S.settled _⟩
  refine marked.modifyRq ⟨rfl, marked.free _, fun idx member => ?_⟩
  rcases mem_append.mp member with old | new
  · exact .inl old
  rw [mem_singleton.mp new]
  refine .inr ?_
  change ((s.modifySlot t _).slot (s.thread t).threadId.ref).isBootstrap = false
  rw [ref]
  simpa using plain

theorem Stacks.handToReaper : Stacks cfg (s.handToReaper cfg core t).1 := by
  unfold SchedSystem.handToReaper
  split_ifs
  · exact S.schedEnqueueReap
  · refine S.quiet_sending (?_ : Quiet core (sending (· = .reap)) s _) ?_
    · exact quiet_schedRemoteSubmit (addressed_plain rfl rfl (by simp)) rfl
    · rintro _ rfl
      rfl
  · exact S

theorem Stacks.schedMarkThreadTerminated {code : Int}
    (h : s.schedMarkThreadTerminated cfg core t = some (u, code)) : Stacks cfg u := by
  obtain ⟨_, ⟨rfl, _⟩ | ⟨_, _, rfl⟩ | ⟨_, _, m, relinks, rfl⟩⟩ := schedMarkThreadTerminated_cases h
  · exact S
  · exact S.schedEnqueueReap
  have marked : Stacks cfg (s.terminating t) := S.modifyThread ⟨rfl, rfl, by simp⟩
  exact (marked.quiet_nobody (relinks.quiet : Quiet core nobody _ _)).handToReaper

theorem Stacks.handleCommand {env : SchedEnvelope} {ack : Bool} {result : Int}
    (valid : schedValidateRemoteEnvelope cfg core env = true) (plain : env.type.plain = true)
    (h : s.handleCommand cfg core env = some (u, ack, result)) : Stacks cfg u := by
  obtain rfl | ⟨terminate, reap, -⟩ | ⟨t, _, _, marked⟩ | ⟨t, rfl⟩ := handleCommand_cases valid h
  · exact S
  · exact S.quiet_nobody (quiet_handleCommand_plain (quiet_schedHandleRemoteWake_ready S.ready)
      plain ⟨terminate, reap⟩ h)
  · exact S.schedMarkThreadTerminated marked
  · exact S.schedEnqueueReap

theorem Stacks.drain {budget : Nat} (h : drain cfg core budget s = some u) : Stacks cfg u := by
  induction budget generalizing s with
  | zero => cases h; exact S
  | succ budget ih =>
    unfold SchedSystem.drain at h
    split at h
    · cases h; exact S
    rename_i env rest head
    obtain ⟨m, received, h⟩ := bind_eq_some_iff.mp h
    refine ih ?_ h
    have plain := S.within.rings core env (by simp [head])
    have taken : Stacks cfg { s with mail := { s.mail with
        inbox := Function.update s.mail.inbox core rest } } :=
      S.keeps S.ready (S.within.posts (posts_take core head)) ⟨rfl, fun _ => .inl⟩
        (fun r => ⟨rfl, rfl, rfl, S.settled r⟩) S.owned fun c => ⟨rfl, S.free c, fun _ => .inl⟩
    unfold receive at received
    split_ifs at received with valid
    · obtain ⟨⟨m, ack, result⟩, handled, rfl⟩ := map_eq_some_iff.mp received
      exact (taken.handleCommand valid plain handled).quiet_nobody
        (quiet_respond : Quiet core nobody _ _)
    · cases received; exact taken

end

/-! ## Rescheduling -/

/-- Nothing moves on when the commands that are polled are plain. -/
theorem quiet_poll_plain (within : Within (·.plain = true) s) {polled : List (Nat × Bool)}
    (h : schedRemoteCmdPollTimeouts cfg core polled s = some u) : Quiet core nobody s u := by
  induction polled generalizing s with
  | nil => cases h; exact .refl _
  | cons first rest ih =>
    obtain ⟨m, finished, h⟩ := bind_eq_some_iff.mp h
    have quiet : Quiet core nobody s m := by
      obtain rfl | ⟨cmd, member, _, _, n, after, rfl⟩ := finishCommand_cases finished
      · exact .refl _
      rw [afterCommand_plain (within.cmds cmd member) after]
      exact quiet_schedRemoteCmdRelease
    exact quiet.trans (ih (within.posts quiet.posts_nothing) h)

section

variable (S : Stacks cfg s)

include S

/-- The core switches to a thread that it owns, or to a bootstrap thread. -/
theorem Stacks.archContextSwitch {prev : Option ThreadRef} {n : ThreadRef}
    (used : (s.slot n).inUse = true)
    (owned : (s.slot n).isBootstrap = false → (s.thread n).ownerCpu = core) :
    Stacks cfg (s.archContextSwitch cfg core prev n) := by
  have executing : ∀ c, (s.archContextSwitch cfg core prev n).machine.executing c =
      if c = core then n else s.machine.executing c := by
    simp [SchedSystem.archContextSwitch, Function.update_apply]
  refine { S with
    within := ⟨S.within.rings, S.within.cmds⟩
    owned := fun c active => ?_
    used := fun c active => ?_ }
  · rw [executing]
    split_ifs with own
    · subst own; exact owned
    · exact S.owned c active
  · rw [executing]
    split_ifs
    · exact used
    · exact S.used c active

theorem Stacks.dispatchNext (active : core < cfg.count)
    (knows : ∀ t ∈ (s.rq core).currentThread, t = s.machine.executing core)
    (h : s.dispatchNext cfg core = some u) : Stacks cfg u := by
  rcases dispatchNext_cases h with ⟨quiet, -⟩ | ⟨n, m, -, chosen, quiet, rfl⟩
  · exact S.quiet_nobody quiet
  have S' : Stacks cfg m := by
    refine S.quiet quiet (fun _ => False.elim) fun c here plain moves => ?_
    have owned := S.owned c here plain
    rcases moves with current | next
    · have same := knows _ current
      rw [same] at plain owned
      exact owned.symm.trans (S.owned core active plain)
    rcases chosen with idle | ⟨owner, -⟩
    · have := (S.idles core n idle).2
      rw [next, this] at plain
      cases plain
    · rw [next] at owned
      exact owned.symm.trans owner
  have chosen' : (m.slot n).inUse = true ∧
      ((m.slot n).isBootstrap = false → (m.thread n).ownerCpu = core) := by
    rw [quiet.inUse, quiet.isBootstrap]
    rcases chosen with idle | ⟨owner, used⟩
    · obtain ⟨used, bootstrap⟩ := S.idles core n idle
      exact ⟨used, fun plain => absurd bootstrap (by simp [plain])⟩
    · exact ⟨used, fun _ => (quiet.owners n).elim (·.trans owner) (·.2)⟩
  have running : Stacks cfg (m.modifyThread n ({ · with state := .running })) :=
    S'.modifyThread ⟨rfl, rfl, S'.settled n⟩
  refine running.setCurrent.archContextSwitch ?_ ?_
  · simpa [SchedSystem.setCurrent] using chosen'.1
  · simpa [SchedSystem.setCurrent] using chosen'.2

variable {polled : List (Nat × Bool)}

theorem Stacks.schedReschedule (active : core < cfg.count) (guarded : Guarded core s)
    (knows : ∀ t ∈ (s.rq core).currentThread, t = s.machine.executing core)
    (h : s.schedReschedule cfg core polled = some u) : Stacks cfg u := by
  obtain ⟨m₁, polls, h⟩ := bind_eq_some_iff.mp h
  obtain ⟨m₂, reaps, h⟩ := bind_eq_some_iff.mp h
  obtain ⟨m₃, drains, h⟩ := bind_eq_some_iff.mp h
  have polled := quiet_poll_plain S.within polls
  have before : Works core (·.plain = true) s m₂ :=
    polled.works_nothing.trans (works_reapLoop reaps)
  have still := before.trans
    (works_drain SchedCmdType.closed_plain (S.within.posts before.toPosts) drains)
  refine (((S.quiet_nobody polled).reapLoop (guarded.quiet polled) reaps).drain drains).dispatchNext
    active ?_ h
  rw [still.currents, still.executing]
  exact knows

/-! ## The timer -/

theorem Stacks.tickHousekeeping (guarded : Guarded core s)
    (h : s.tickHousekeeping cfg core polled = some u) :
    Stacks cfg u ∧ (u.rq core).reapQueue = [] := by
  obtain ⟨m₁, m₂, m₃, polls, wakes, reaps, balances⟩ := tickHousekeeping_cases h
  have polled := quiet_poll_plain S.within polls
  have S₂ := (S.quiet_nobody polled).quiet_sending wakes (posts_wakes SchedCmdType.closed_plain)
  have S₃ := S₂.reapLoop ((guarded.quiet polled).quiet wakes) reaps
  have empty := schedReapTerminatedThreads_empties reaps
  refine ⟨S₃.quiet_sending balances ?_, (balances.reapQueue core).trans empty⟩
  rintro _ rfl
  rfl

theorem Stacks.charges (h : Charges core t s u) :
    Stacks cfg u ∧ (u.rq core).reapQueue = (s.rq core).reapQueue := by
  obtain ⟨consumed, attr, quiet⟩ := h
  have paid : Stacks cfg (s.setBudget t consumed attr) := S.modifyThread ⟨rfl, rfl, S.settled t⟩
  exact ⟨paid.quiet_nobody quiet, quiet.reapQueue core⟩

theorem Stacks.schedOnTimerTick {early : List (Nat × Bool)} {goesOn : Bool}
    (guarded : Guarded core s) (h : s.schedOnTimerTick cfg core early = some (u, goesOn)) :
    Stacks cfg u ∧ (u.rq core).reapQueue = [] := by
  obtain ⟨m, housekeeping, ends⟩ := schedOnTimerTick_cases h
  obtain ⟨S', empty⟩ := S.tickHousekeeping guarded housekeeping
  obtain rfl | ⟨t, n, v, -, charges, charges', ends⟩ := ends
  · exact ⟨S', empty⟩
  obtain ⟨first, queue⟩ := S'.charges charges
  obtain ⟨second, queue'⟩ := first.charges charges'
  rw [queue, empty] at queue'
  obtain rfl | ⟨rfl, -⟩ := ends
  · exact ⟨second, queue'⟩
  · exact ⟨second.setCurrent, by simpa [SchedSystem.setCurrent] using queue'⟩

/-! ## Creation -/

/-- A slot that nobody uses gets a new thread. -/
theorem Stacks.replace {slot : ThreadSlot} (unused : (s.slot t).inUse = false)
    (taken : slot.inUse = true → t.slot ∉ (s.rq t.core).freeThreads)
    (fresh : slot.thread.threadId.generation ≠ 0 ∧ slot.thread.threadId.ref = t ∧
      slot.thread.ownerState ≠ .remotePending ∧ slot.isBootstrap = false) :
    Stacks cfg (s.modifySlot t fun _ => slot) := by
  obtain ⟨generation, ref, settled, plain⟩ := fresh
  have busy : ∀ {r}, (s.slot r).inUse = true → r ≠ t := by
    rintro r used rfl
    rw [unused] at used
    cases used
  exact S.setSlot (fun c active => busy (S.used c active))
    (fun c member => busy (S.idles c t member).1 rfl) taken ⟨fun _ => generation, fun _ => ref⟩
    settled plain

theorem Stacks.threadCreateDetached {fits : Bool} :
    Stacks cfg (s.threadCreateDetached core fits) := by
  unfold SchedSystem.threadCreateDetached
  split
  · exact S
  rename_i idx rest free
  have unused : (s.slot ⟨core, idx⟩).inUse = false := (S.free core).2 idx (by simp [free])
  split_ifs
  · have left := S.free core
    rw [free] at left
    obtain ⟨out, nodup⟩ := nodup_cons.mp left.1
    refine Stacks.replace (S.modifyRq ⟨rfl, ⟨nodup, fun later member => ?_⟩, fun _ => .inl⟩) unused
      (fun _ => by simpa using out) ⟨nextGeneration_ne_zero _, rfl, by simp [freshSlot], rfl⟩
    exact left.2 later (mem_cons_of_mem _ member)
  · exact S.replace unused (fun used => by cases used)
      ⟨nextGeneration_ne_zero _, rfl, by simp [freshSlot], rfl⟩

end

/-! ## Runs -/

/-- The current thread of the core is not in its reap queue. -/
def currentNotReaped (s : SchedSystem) (core : Nat) : Bool :=
  (s.rq core).currentThread.all fun t => t.core ≠ core ∨ t.slot ∉ (s.rq core).reapQueue

end SchedSystem

/-- The steps in which no stack in use is given back. A thread does not exit on its home core. -/
def SchedAction.keepsStacks (cfg : SchedConfig) (s : SchedSystem) : SchedAction → Bool
  | .exit core _ => s.currentNotReaped core ∧ (s.rq core).currentThread.all fun t =>
      (s.thread t).homeCoreId ≠ core ∨ (s.slot t).isBootstrap
  | .sleep core _ _ => s.currentNotReaped core
  | .enqueue core t _ => (s.slot t).isBootstrap ∨
      (range cfg.count).all fun c => s.machine.executing c ≠ t ∨ c = core
  | .destroy _ t => (s.slot t).isBootstrap = false
  | a => a.plain

namespace SchedSystem

open Scope

variable {cfg : SchedConfig} {core : Nat} {s u : SchedSystem} {t : ThreadRef} {a : SchedAction}

/-- An exit that does not put the thread into the reap queue of the core leaves that as it was. -/
theorem schedMarkThreadTerminated_reapQueue {code : Int}
    (away : (s.thread t).homeCoreId ≠ core ∨ (s.slot t).isBootstrap = true)
    (h : s.schedMarkThreadTerminated cfg core t = some (u, code)) :
    (u.rq core).reapQueue = (s.rq core).reapQueue := by
  have refused : ∀ m : SchedSystem, (m.slot t).isBootstrap = true →
      (m.schedEnqueueReap cfg t).1 = m := by
    intro m bootstrap
    simp [schedEnqueueReap, bootstrap]
  obtain ⟨_, ⟨rfl, _⟩ | ⟨_, home, rfl⟩ | ⟨_, _, m, relinks, rfl⟩⟩ :=
    schedMarkThreadTerminated_cases h
  · rfl
  · rw [refused s (away.resolve_left (not_not.mpr home))]
  have quiet : Quiet core nobody (s.terminating t) m := relinks.quiet
  have kept : (m.rq core).reapQueue = (s.rq core).reapQueue := quiet.reapQueue core
  unfold handToReaper
  split_ifs with home
  · rw [refused m, kept]
    have bootstrap := away.resolve_left (by
      rw [quiet.homeCoreId] at home
      simpa [terminating] using home)
    rw [quiet.isBootstrap]
    simpa [terminating] using bootstrap
  · refine Eq.trans (Quiet.reapQueue (?_ : Quiet core sendingAny m _) core) kept
    exact quiet_schedRemoteSubmit (addressed_plain rfl rfl (by simp)) trivial
  · exact kept

theorem Guarded.of_aware (aware : Aware s) : Guarded core s := .inl (aware.current core)

/-- The core forgets its thread, which is not in the reap queue. -/
theorem Guarded.forgotten (aware : Aware s) (spared : s.currentNotReaped core = true)
    (executing : u.machine.executing = s.machine.executing)
    (queue : (u.rq core).reapQueue = (s.rq core).reapQueue) :
    Guarded core (u.setCurrent core none) := by
  simp only [currentNotReaped, aware.current, all_some, decide_eq_true_eq] at spared
  refine .inr fun idx member same => ?_
  have member : idx ∈ (s.rq core).reapQueue := by
    simpa [SchedSystem.setCurrent, queue] using member
  rw [show (u.setCurrent core none).machine = u.machine from rfl, executing] at same
  rw [same] at spared
  exact spared.elim (absurd rfl) (absurd member)

/-- Up to `sched_reschedule` every call keeps the invariant, and then the reaper may run. -/
theorem Stacks.start {goesOn : Bool} (S : Stacks cfg s) (aware : Aware s)
    (keeps : a.keepsStacks cfg s = true) (h : s.start cfg a = some (u, goesOn)) :
    Stacks cfg u ∧ (goesOn = true → Guarded a.core u) := by
  have ends : goesOn = false → Stacks cfg u → Stacks cfg u ∧ (goesOn = true → Guarded a.core u) :=
    fun no S => ⟨S, fun yes => absurd yes (by simp [no])⟩
  cases quiet : a.scope with
  | some scope =>
    have q := quiet_start quiet h
    refine ⟨?_, fun _ => (Guarded.of_aware aware).quiet q⟩
    cases a with
    | enqueue c t coreId =>
      cases quiet
      refine S.quiet q ?_ fun d active plain moves => ?_
      · rintro _ rfl
        rfl
      · simp only [SchedAction.keepsStacks, decide_eq_true_eq, List.all_eq_true, mem_range] at keeps
        subst moves
        exact ((keeps.resolve_left (by simp [plain])) d active).resolve_left (absurd rfl)
    | wake c tid priority =>
      cases quiet; exact S.quiet_sending q (posts_wakes SchedCmdType.closed_plain)
    | block | reschedule | time | isolate => cases quiet; exact S.quiet_nobody q
    | setPriority | setAffinity | setConstraints | quarantine | handoff | migrate => cases keeps
    | _ => cases quiet
  | none =>
    cases a with
    | create c fits => cases h; exact ends rfl S.threadCreateDetached
    | destroy c t =>
      obtain ⟨no, _, h⟩ := returns_status h
      exact ends no (S.threadDestroy (by simpa [SchedAction.keepsStacks] using keeps)
        (.inl (aware.current c)) h)
    | terminate c tid =>
      obtain ⟨no, _, h⟩ := returns_status h
      obtain quiet | ⟨t, -, marked⟩ := schedTerminateTid_cases h
      · refine ends no (S.quiet_sending quiet ?_)
        rintro _ rfl
        rfl
      · exact ends no (S.schedMarkThreadTerminated marked)
    | sleep c millis polled =>
      rcases schedSleep_cases h with ⟨rfl, no⟩ | ⟨t, m, current, -, -, -, slept, rfl⟩
      · exact ends no S
      refine ⟨(S.quiet_nobody slept).setCurrent, fun _ => ?_⟩
      exact Guarded.forgotten aware keeps slept.executing (slept.reapQueue c)
    | tick c early polled =>
      obtain ⟨S', empty⟩ := S.schedOnTimerTick (.of_aware aware) h
      exact ⟨S', fun _ => .inr fun idx member => absurd (empty ▸ member) not_mem_nil⟩
    | exit c polled =>
      simp only [SchedAction.keepsStacks, decide_eq_true_eq, Option.all_eq_true] at keeps
      obtain ⟨rfl, no⟩ | ⟨t, m, _, current, -, marked, rfl⟩ := schedThreadExitTrampoline_cases h
      · exact ends no S
      refine ⟨(S.schedMarkThreadTerminated marked).setCurrent, fun _ => ?_⟩
      have works := works_schedMarkThreadTerminated SchedCmdType.closed_all marked
      exact Guarded.forgotten aware keeps.1 works.executing
        (schedMarkThreadTerminated_reapQueue (keeps.2 t current) marked)
    | raiseFault c t polled =>
      cases h
      exact ⟨S.modifyThread ⟨rfl, rfl, S.settled t⟩, fun _ => .of_aware (aware.still .modifyThread)⟩
    | configure c t priority attr =>
      cases h; exact ends rfl (S.modifyThread ⟨rfl, rfl, S.settled t⟩)
    | compute c regs extRegs =>
      cases h; exact ends rfl { S with within := ⟨S.within.rings, S.within.cmds⟩ }
    | throttle c on => cases h; exact ends rfl (S.modifyRq ⟨rfl, S.free c, fun _ => .inl⟩)
    | _ => cases quiet

theorem Stacks.step (S : Stacks cfg s) (aware : Aware s) (keeps : a.keepsStacks cfg s = true)
    (h : s.step cfg a = some u) : Stacks cfg u := by
  unfold SchedSystem.step at h
  split_ifs at h with active
  rcases act_split h with starts | ⟨m, starts, reschedules⟩
  · exact (S.start aware keeps starts).1
  obtain ⟨S', guarded⟩ := S.start aware keeps starts
  refine S'.schedReschedule active (guarded rfl) ?_ reschedules
  have calls : ∀ c regs extRegs, a ≠ .compute c regs extRegs := by
    rintro c regs extRegs rfl
    cases starts
  rcases start_still calls starts with still | ⟨-, -, still⟩
  · rw [still.currents, still.executing, aware.current]
    intro t current
    exact (some.inj current).symm
  · rw [still.currents]
    simp [SchedSystem.setCurrent]

theorem stacks_boot (policy : Nat → SchedPolicy) : Stacks cfg (boot policy) where
  ready _ := rfl
  within := within_boot _
  owned c _ plain := by simp [boot, idleRef, idleSlot] at plain
  used c _ := by simp [boot, idleRef, idleSlot]
  ids r := by
    by_cases idle : r.slot = schedMaxThreads
    · obtain ⟨c, slot⟩ := r
      obtain rfl : slot = schedMaxThreads := idle
      simp [boot, thread, idleSlot, Tid.ref]
    · simp [boot, thread, idle]
  settled r := by
    by_cases idle : r.slot = schedMaxThreads <;> simp [boot, thread, idle, idleSlot]
  idles c t idle := by
    obtain rfl : idleRef c = t := by simpa [boot] using idle
    simp [boot, idleRef, idleSlot]
  free c := by
    refine ⟨nodup_range, fun idx member => ?_⟩
    have small : idx ≠ schedMaxThreads := (mem_range.mp member).ne
    simp [boot, small]
  reaps c idx member := by cases member
  frees f member := by cases member

/-- In every run whose steps meet the condition, no core executes on a stack that
`thread_destroy` gives back. -/
theorem stack_freed_unused {policy : Nat → SchedPolicy}
    (run : SchedRun cfg (fun s a => a.keepsStacks cfg s = true) (boot policy) s) :
    ∀ f ∈ s.machine.stackFrees, f.executed = false := by
  have both : Stacks cfg s ∧ Aware s :=
    run.invariant (fun s => Stacks cfg s ∧ Aware s) ⟨stacks_boot policy, aware_boot⟩
      fun _ _ _ ⟨S, aware⟩ keeps h => ⟨S.step aware keeps h, aware.act (act_of_step h)⟩
  exact both.1.frees

/-- A thread that waits in the runqueue is terminated, and reaped at the next switch. -/
theorem stack_freed_unused_ready :
    ∃ s, SchedRun (.open 1) (fun s a => a.keepsStacks (.open 1) s = true)
        (boot fun _ => .roundRobin) s ∧ s.machine.stackFrees.map (·.thread) = [⟨0, 0⟩] ∧
      ∀ f ∈ s.machine.stackFrees, f.executed = false := by
  exact found_run_then [.create 0 true, .create 0 true, .enqueue 0 ⟨0, 1⟩ 0, .reschedule 0 [],
    .terminate 0 ⟨1, 0, 0⟩, .reschedule 0 []] (by decide +kernel) fun s run _ =>
      stack_freed_unused run

/-- A thread that exits on its home core gives back the stack that the core still executes on. -/
theorem exiting_thread_frees_own_stack : ∃ s u, exec (step (.open 1)) (boot fun _ => .roundRobin)
        [.create 0 true, .enqueue 0 ⟨0, 0⟩ 0, .reschedule 0 []] = some s ∧
      s.machine.executing 0 = ⟨0, 0⟩ ∧ s.step (.open 1) (.exit 0 []) = some u ∧
      u.machine.stackFrees = [⟨⟨0, 0⟩, true⟩] := by
  simp only [exists_and_left]
  decide +kernel

end SchedSystem

end BharatOS
