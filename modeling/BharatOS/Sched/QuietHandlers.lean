import BharatOS.Sched.Quiet

/-!
# Handlers, completions and the choice of the next thread are quiet

A handler that puts a thread on the runqueue makes its core the owner.
-/

namespace BharatOS

open Option

namespace SchedSystem

open Scope

variable {cfg : SchedConfig} {core : Nat} {scope : Scope} {s u : SchedSystem}
  {t : ThreadRef} {e : EntityRef} {env : SchedEnvelope} {ack : Bool} {result : Int}

/-! ## Handlers -/

variable {c priority entitySlot : Nat}

theorem quiet_schedHandleMigrateReserve :
    Quiet core scope s (s.schedHandleMigrateReserve cfg c env).1 := by
  unfold schedHandleMigrateReserve
  split
  · split_ifs <;> exact .refl s
  split
  · exact .refl s
  exact (quiet_schedAllocateEntity ‹_›).trans
    ((Quiet.modifyEntity (.inl rfl)).trans .withContext)

theorem quiet_schedHandleMigrateStage : Quiet core scope s (s.schedHandleMigrateStage c env).1 := by
  unfold schedHandleMigrateStage
  split
  · exact .refl s
  split_ifs
  · exact .refl s
  · exact (Quiet.modifyEntity (.inr rfl)).trans .withContext
  · exact .refl s

theorem quiet_schedHandleMigrateCommitIdentity (named : env.targetCpu = core) :
    Quiet core everybody s (s.schedHandleMigrateCommitIdentity cfg env).1 := by
  unfold schedHandleMigrateCommitIdentity
  split
  · exact .refl s
  split_ifs
  · dsimp only
    exact .modifyThread rfl ⟨id, id, .inr ⟨trivial, named⟩⟩
  · exact .refl s
  · exact .refl s

theorem quiet_schedHandleMigrateActivate :
    Ends (Quiet core everybody) (·.1) s (s.schedHandleMigrateActivate cfg core env) := by
  unfold schedHandleMigrateActivate
  split
  · exact .same
  refine .ite ?_ .same
  dsimp only
  split
  · exact .pair (.modifyEntity (.inr rfl))
  · exact .after (.modifyEntity (.inr rfl))
      (.map (quiet_putOn.mono Quiet.everybody_mono) fun _ => .refl _)

theorem quiet_schedHandleQueryState : Quiet core scope s (s.schedHandleQueryState c env).1 := by
  unfold schedHandleQueryState
  split <;> exact .refl s

theorem quiet_raiseEntityPriority : Quiet core scope s (s.raiseEntityPriority e priority) := by
  unfold raiseEntityPriority
  split_ifs
  · exact .modifyEntity (.inr rfl)
  · exact .refl s

theorem quiet_wakeEntity : Ends (Quiet core (moving (· = t))) (·) s (s.wakeEntity cfg core t e) :=
  .ite (.after ((Quiet.modifyEntity (.inl rfl)).trans relinks_waitDequeue.quiet) quiet_putOn) .same

/-- An entity that is ready is not woken. -/
theorem wakeEntity_ready (ready : (s.ent e).state = .ready) :
    s.wakeEntity cfg core t e = some s := by
  simp [wakeEntity, ready]

theorem raiseEntityPriority_state {f : EntityRef} :
    ((s.raiseEntityPriority e priority).ent f).state = (s.ent f).state := by
  unfold raiseEntityPriority
  split_ifs
  · rw [modifyEntity_ent]
    split_ifs with h
    · rw [h]
    · rfl
  · rfl

theorem quiet_schedHandleRemoteWake :
    Ends (Quiet core (moving fun _ => True)) (·.1) s (s.schedHandleRemoteWake cfg core env) := by
  unfold schedHandleRemoteWake
  split
  · exact .same
  split
  · exact .same
  refine .after quiet_raiseEntityPriority (.map (quiet_wakeEntity.mono ?_) fun _ => .refl _)
  exact (·.weaken (fun _ _ => trivial) fun _ => id)

/-- As long as no entity says that its thread sleeps, the handler wakes nobody. -/
theorem quiet_schedHandleRemoteWake_ready (ready : ∀ e, (s.ent e).state = .ready) :
    Ends (Quiet core scope) (·.1) s (s.schedHandleRemoteWake cfg core env) := by
  unfold schedHandleRemoteWake
  split
  · exact .same
  split
  · exact .same
  rw [wakeEntity_ready (raiseEntityPriority_state.trans (ready _))]
  exact .of quiet_raiseEntityPriority

theorem quiet_schedHandleSetPriority :
    Ends (Quiet core everybody) (·.1) s (s.schedHandleSetPriority cfg core env) := by
  unfold schedHandleSetPriority
  split
  · exact .same
  split
  · exact .same
  refine .bind quiet_takeOff fun _ => .ite ?_ (.pair (.modifyEntity (.inr rfl)))
  exact .after (.modifyEntity (.inr rfl))
    (.map (quiet_putOn.mono Quiet.everybody_mono) fun _ => .refl _)

variable {change : SchedEntity → SchedEntity} {expected : SchedMig} {goesOn : Bool}

theorem quiet_modifyNamedEntity (states : ∀ x, (change x).state = x.state) :
    Quiet core scope s (s.modifyNamedEntity cfg env change) := by
  unfold modifyNamedEntity
  split
  · exact .refl s
  split
  · exact .refl s
  · exact .modifyEntity (.inr (states _))

variable {c : Nat} {next : Option ThreadRef}

theorem quiet_schedHandleQuarantine :
    Ends (Quiet core scope) (·.1) s (s.schedHandleQuarantine cfg c env) := by
  unfold schedHandleQuarantine
  split
  · exact .same
  · exact .map quiet_schedQuarantineThread fun _ => .refl _

theorem quiet_handleMigratePrepare :
    Ends (Quiet core everybody) (·.1) s (s.handleMigratePrepare cfg core env) := by
  unfold handleMigratePrepare
  split
  · exact .same
  · exact .map (quiet_schedMigrateTask.mono Quiet.everybody_mono) fun _ => .refl _

/-- Every handler but those for termination and for reaping is quiet. -/
theorem quiet_handleCommand (valid : schedValidateRemoteEnvelope cfg core env = true)
    (type : env.type ≠ .terminate ∧ env.type ≠ .reap) :
    Ends (Quiet core everybody) (·.1) s (s.handleCommand cfg core env) := by
  have named : env.targetCpu = core := by
    simp only [schedValidateRemoteEnvelope, decide_eq_true_eq] at valid
    exact valid.1
  unfold handleCommand
  split
  · exact .of quiet_schedHandleMigrateReserve
  · exact .of quiet_schedHandleMigrateStage
  · exact .of (quiet_schedHandleMigrateCommitIdentity named)
  · exact quiet_schedHandleMigrateActivate
  · exact .of quiet_schedHandleQueryState
  · exact quiet_schedHandleRemoteWake.mono Quiet.everybody_mono
  · exact quiet_schedHandleSetPriority
  · exact .of (quiet_modifyNamedEntity fun _ => rfl)
  · exact .of (quiet_modifyNamedEntity fun _ => rfl)
  · exact quiet_schedHandleQuarantine
  · exact absurd ‹_› type.1
  · exact absurd ‹_› type.2
  · exact quiet_handleMigratePrepare
  · exact .ite .same .never
  · exact .same
  · exact .same

/-! ## Completions -/

theorem quiet_resumeSource :
    Ends (Quiet core (moving (· = t))) (·) s (s.resumeSource cfg core t) := by
  unfold resumeSource
  split
  · exact .same
  · exact .after (.modifyEntity (.inr rfl)) (.map quiet_schedEnqueue_own fun _ => .refl _)

theorem quiet_giveUp {next : SchedMig} :
    Ends (Quiet core polling) (·) s (s.giveUp cfg core t expected next) :=
  .bind (quiet_resumeSource.mono (·.weaken (fun _ _ => trivial) fun _ => False.elim)) fun _ =>
    quiet_schedMigrationTransition

theorem quiet_quarantineMigrating :
    Ends (Quiet core scope) (·) s (s.quarantineMigrating cfg c t expected) :=
  .bind quiet_schedQuarantineThread fun _ => quiet_schedMigrationTransition

theorem quiet_modifyEntityOf (states : ∀ x, (change x).state = x.state) :
    Quiet core scope s (s.modifyEntityOf cfg t change) := by
  unfold modifyEntityOf
  split
  · exact .refl s
  · exact .modifyEntity (.inr (states _))

theorem quiet_freezeEntity : Quiet core scope s (s.freezeEntity cfg t) := by
  unfold freezeEntity
  split
  · exact .refl s
  · exact (Quiet.modifyEntity (.inr rfl)).trans .listDel

theorem quiet_schedFreeEntity : Quiet core scope s (s.schedFreeEntity cfg c e) := by
  unfold schedFreeEntity
  split_ifs
  · refine (Quiet.modifyRq (by rfl)).trans (.of_entities fun f => .inr ?_)
    by_cases hf : f = e
    · subst hf; simp [ent]
    · simp [hf, ent]
  · exact .refl s

theorem quiet_freeEntityOf (s : SchedSystem) (c : Nat) (t : ThreadRef) :
    Quiet core scope s (s.freeEntityOf cfg c t) := by
  unfold freeEntityOf
  split
  · exact .refl s
  · exact quiet_schedFreeEntity

theorem quiet_nextPhase {next : SchedMig} {dst : Nat} {cmd : SchedEnvelope}
    {failed : SchedSystem → Option SchedSystem} (addressed : Addressed core dst cmd)
    (type : cmd.type.continues = true)
    (otherwise : ∀ m, Ends (Quiet core polling) (·) m (failed m)) :
    Ends (Quiet core polling) (·) s (s.nextPhase cfg core t expected next dst cmd failed) := by
  refine .bind quiet_schedMigrationTransition fun m => ?_
  have changed : Quiet core polling m (m.modifyEntityOf cfg t ({ · with migrationState := next })) :=
    quiet_modifyEntityOf fun _ => rfl
  exact .after changed (.ite (.of (quiet_schedRemoteSubmit addressed type)) (otherwise _))

theorem addressed_stageCommand :
    Addressed core (s.thread t).migrationTargetCpu (s.stageCommand cfg core t entitySlot) := by
  unfold stageCommand
  split <;> exact addressed_plain rfl rfl (by simp [phaseCommand])

theorem stageCommand_type : (s.stageCommand cfg core t entitySlot).type = .migrateStage := by
  unfold stageCommand
  split <;> rfl

theorem quiet_reserveDone :
    Ends (Quiet core polling) (·) s (s.reserveDone cfg core t ack result) := by
  refine .ite (.after quiet_freezeEntity (.bind quiet_schedMigrationTransition fun _ => ?_)) ?_
  · exact .ite (quiet_nextPhase addressed_stageCommand (by rw [stageCommand_type]; rfl)
      fun _ => quiet_giveUp) quiet_giveUp
  · exact .after (quiet_modifyEntityOf fun _ => by rfl) quiet_schedMigrationTransition

theorem quiet_stageDone :
    Ends (Quiet core polling) (·) s (s.stageDone cfg core t ack entitySlot) := by
  refine .ite (.ite (quiet_nextPhase ?_ rfl fun _ => quiet_giveUp) quiet_giveUp) quiet_giveUp
  exact ⟨fun _ => rfl, nofun, fun other => absurd rfl other.2.2⟩

theorem quiet_commitDone :
    Ends (Quiet core polling) (·) s (s.commitDone cfg core t ack) := by
  refine .ite (.ite (quiet_nextPhase ?_ rfl fun _ => quiet_quarantineMigrating)
    quiet_quarantineMigrating) quiet_giveUp
  exact addressed_plain rfl rfl (by simp [phaseCommand])

theorem quiet_activateDone :
    Ends (Quiet core polling) (·) s (s.activateDone cfg core t ack) := by
  refine .ite (.after (quiet_freeEntityOf s core t) quiet_schedMigrationTransition)
    (.ite (.map quiet_schedMigrationTransition fun _ => ?_) quiet_quarantineMigrating)
  exact quiet_sendAndForget (addressed_plain rfl rfl (by simp [phaseCommand])) rfl rfl

theorem quiet_queryDone : Ends (Quiet core scope) (·) s (s.queryDone cfg c t ack) :=
  .ite (.after (quiet_freeEntityOf s c t) quiet_schedMigrationTransition) quiet_quarantineMigrating

theorem quiet_afterCommand :
    Ends (Quiet core polling) (·) s (s.afterCommand cfg core env ack result) := by
  unfold afterCommand
  split
  · exact .same
  refine .ite .same ?_
  split
  · exact quiet_reserveDone
  · exact quiet_stageDone
  · exact quiet_commitDone
  · exact quiet_activateDone
  · exact quiet_queryDone
  · exact .same

theorem quiet_schedRemoteCmdRelease {handle : Nat} :
    Quiet core scope s (s.schedRemoteCmdRelease handle) :=
  .withCmds rfl rfl fun cmd member => ⟨cmd, (List.mem_filter.mp member).1, rfl, rfl⟩

variable {handle : Nat} {late : Bool}

/-- A command that is not finished yet is left alone. -/
theorem finishCommand_cases (h : s.finishCommand cfg core handle late = some u) :
    u = s ∨ ∃ cmd ∈ s.mail.cmds,
      ∃ acked result m, s.afterCommand cfg core cmd.envelope acked result = some m ∧
        u = m.schedRemoteCmdRelease handle := by
  unfold finishCommand at h
  split at h
  · cases h; exact .inl rfl
  rename_i cmd found
  have member := List.mem_of_find?_eq_some found
  split at h
  · obtain ⟨m, after, rfl⟩ := map_eq_some_iff.mp h
    exact .inr ⟨cmd, member, _, _, m, after, rfl⟩
  split_ifs at h
  · obtain ⟨m, after, rfl⟩ := map_eq_some_iff.mp h
    exact .inr ⟨cmd, member, _, _, m, after, rfl⟩
  · cases h; exact .inl rfl

theorem quiet_finishCommand :
    Ends (Quiet core polling) (·) s (s.finishCommand cfg core handle late) := by
  have released cmd ack result : Ends (Quiet core polling) (·) s
      ((s.afterCommand cfg core cmd ack result).map (·.schedRemoteCmdRelease handle)) :=
    .map quiet_afterCommand fun _ => quiet_schedRemoteCmdRelease
  unfold finishCommand
  split
  · exact .same
  split
  · exact released _ _ _
  · exact .ite (released _ _ _) .same

theorem quiet_schedRemoteCmdPollTimeouts {polled : List (Nat × Bool)} :
    Ends (Quiet core polling) (·) s (schedRemoteCmdPollTimeouts cfg core polled s) := by
  induction polled generalizing s with
  | nil => exact .same
  | cons first rest ih => exact .bind quiet_finishCommand fun _ => ih

/-! ## The walks of a tick -/

theorem quiet_wakeSleepers {sleepers : List ThreadRef} :
    Ends (Quiet core (sending fun type => type = .wake ∨ type = .enqueue)) (·) s
      (wakeSleepers cfg core sleepers s) := by
  induction sleepers generalizing s with
  | nil => exact .same
  | cons t rest ih =>
    refine .bind (.ite ?_ .same) fun _ => ih
    exact .map quiet_schedWakeTidWithPriority fun _ => .refl _

theorem quiet_wakeBlocked {blocked : List ThreadRef} :
    Ends (Quiet core (sending fun type => type = .wake ∨ type = .enqueue)) (·) s
      (wakeBlocked cfg core blocked s) := by
  induction blocked generalizing s with
  | nil => exact .same
  | cons t rest ih =>
    refine .bind (.ite ?_ .same) fun _ => ih
    exact .after (.modifyThread rfl ⟨id, id, .inl rfl⟩)
      (.map quiet_schedWakeTidWithPriority fun _ => .refl _)

theorem quiet_schedPublishLoad : Quiet core scope s (s.schedPublishLoad c) :=
  .modifyRq rfl

theorem quiet_schedCfsUpdateVruntime : Quiet core scope s (s.schedCfsUpdateVruntime cfg c t) := by
  unfold schedCfsUpdateVruntime
  split
  · exact .refl s
  exact ((Quiet.modifyEntity (.inr rfl)).trans (.modifyThread rfl ⟨id, id, .inl rfl⟩)).trans
    .modifyLists

/-! ## Waiting -/

theorem quiet_schedSleepEnqueue : Ends (Quiet core scope) (·) s (s.schedSleepEnqueue c t) :=
  .ite .same (.ite .never (.of ((Quiet.modifyRq rfl).trans (.modifySlot rfl ⟨id, id, .inl rfl⟩))))

theorem quiet_schedBlockEnqueue : Ends (Quiet core scope) (·) s (s.schedBlockEnqueue c t) :=
  .ite .same (.ite .never (.of ((Quiet.modifyRq rfl).trans (.modifySlot rfl ⟨id, id, .inl rfl⟩))))

theorem quiet_waitWithDeadline : Ends (Quiet core scope) (·) s (s.waitWithDeadline cfg core t) := by
  refine .ite ?_ .same
  split
  · exact .same
  · exact quiet_schedBlockEnqueue

theorem quiet_schedBlock {deadline : Nat} :
    Ends (Quiet core scope) (·.1) s (s.schedBlock cfg core deadline) := by
  unfold schedBlock
  split
  · exact .same
  · exact .after (.modifyThread rfl ⟨fun h => (by cases h), id, .inl rfl⟩)
      (.map quiet_waitWithDeadline fun _ => .refl _)

/-- The current thread goes to sleep and is forgotten, unless a check fails. -/
theorem schedSleep_cases {millis : Nat} (h : s.schedSleep cfg core millis = some (u, goesOn)) :
    u = s ∧ goesOn = false ∨
    ∃ t m, (s.rq core).currentThread = some t ∧ (s.rq core).idleThread ≠ some t ∧
      s.findThreadLocal cfg core (s.thread t).threadId ≠ none ∧ goesOn = true ∧
      Quiet core nobody s m ∧ u = m.setCurrent core none := by
  unfold schedSleep at h
  split at h
  · cases h; exact .inl ⟨rfl, rfl⟩
  rename_i t current
  split_ifs at h with idle
  · cases h; exact .inl ⟨rfl, rfl⟩
  split at h
  · cases h; exact .inl ⟨rfl, rfl⟩
  rename_i r found
  obtain ⟨m, sleeping, h⟩ := map_eq_some_iff.mp h
  cases h
  refine .inr ⟨t, m, current, idle, by simp [found], rfl, ?_, rfl⟩
  exact (Quiet.modifyThread rfl ⟨fun h => (by cases h), id, .inl rfl⟩).trans
    (quiet_schedSleepEnqueue sleeping)

/-! ## The next thread, and the switch -/

theorem quiet_takeFromList : Ends (Quiet core scope) (·.1) s (s.takeFromList cfg core) := by
  unfold takeFromList
  dsimp only
  split
  · exact .same
  split
  · exact .never
  split
  · exact .same
  · exact .map quiet_schedInvariantOnDequeue fun _ =>
      (Quiet.listDel.trans .modifyLists).trans quiet_offRunqueue

theorem quiet_takeNext : Ends (Quiet core scope) (·.1) s (s.takeNext cfg core) := by
  unfold takeNext
  split
  · split
    · exact .same
    refine .bind quiet_schedInvariantOnDequeue fun _ => ?_
    exact .map (relinks_schedCfsDequeue.mono Relinks.quiet) fun _ => .refl _
  · split
    · exact .same
    refine .bind quiet_schedInvariantOnDequeue fun _ => ?_
    exact .map (relinks_schedEdfDequeue.mono Relinks.quiet) fun _ => .refl _
  · exact quiet_takeFromList

/-- A thread that is taken off the runqueue has a slot. -/
theorem takeNext_inUse {n : ThreadRef} (h : s.takeNext cfg core = some (u, some n)) :
    (s.slot n).inUse = true := by
  have found : ∀ {first : Option EntityRef}, (first.bind fun e => s.findThread cfg (s.ent e).tid) =
      some n → (s.slot n).inUse = true := by
    intro first h
    obtain ⟨e, -, found⟩ := bind_eq_some_iff.mp h
    exact (findThread_ref found).2.2
  unfold takeNext at h
  split at h
  · split at h
    · cases h
    rename_i t picked
    obtain ⟨m, -, h⟩ := bind_eq_some_iff.mp h
    obtain ⟨_, -, h⟩ := map_eq_some_iff.mp h
    cases h
    exact found picked
  · split at h
    · cases h
    rename_i t picked
    obtain ⟨m, -, h⟩ := bind_eq_some_iff.mp h
    obtain ⟨_, -, h⟩ := map_eq_some_iff.mp h
    cases h
    exact found picked
  · unfold takeFromList at h
    simp only at h
    split at h
    · cases h
    split at h
    · cases h
    split at h
    · cases h
    rename_i t named
    obtain ⟨_, -, h⟩ := map_eq_some_iff.mp h
    cases h
    exact (findThread_ref named).2.2

/-- The pick is quiet, and finds the idle thread or a thread that the core owns. -/
theorem schedPickNextReady_spec (h : s.schedPickNextReady cfg core = some (u, next)) :
    Quiet core nobody s u ∧ (next = (u.rq core).idleThread ∨
      ∃ n, next = some n ∧ (u.thread n).ownerCpu = core ∧ (u.slot n).inUse = true) := by
  obtain ⟨⟨m, found⟩, hm, h⟩ := map_eq_some_iff.mp h
  have quiet : Quiet core nobody s m := quiet_takeNext hm
  cases found with
  | none => cases h; exact ⟨quiet, .inl rfl⟩
  | some n =>
    simp only [schedValidatePickedCandidate] at h
    split_ifs at h with foreign
    · cases h; exact ⟨quiet, .inl rfl⟩
    · cases h
      exact ⟨quiet, .inr ⟨n, rfl, not_not.mp foreign, quiet.inUse n ▸ takeNext_inUse hm⟩⟩
    · cases h; exact ⟨quiet, .inl rfl⟩

theorem quiet_requeueThread :
    Ends (Quiet core (moving (· = t))) (·) s (s.requeueThread cfg core t e) := by
  refine .after ((Quiet.modifyThread rfl ⟨fun h => (by cases h), id, .inl rfl⟩).trans
    (.modifyEntity (.inl rfl))) (.bind quiet_schedInvariantOnEnqueue fun _ => ?_)
  exact .after quiet_linkEntity ends_schedValidateRq

theorem quiet_requeueCurrent :
    Ends (Quiet core (moving fun r => (s.rq core).currentThread = some r)) (·) s
      (s.requeueCurrent cfg core) := by
  unfold requeueCurrent
  split
  · exact .same
  rename_i t current
  refine .ite ?_ .same
  split
  · exact .same
  refine .ite .same (quiet_requeueThread.mono (·.weaken (fun r same => ?_) fun _ => id))
  rw [current, same]

theorem quiet_schedInvariantOnSwitch {prev : Option ThreadRef} {next : ThreadRef} :
    Ends (Quiet core (moving fun r => prev = some r ∨ r = next)) (·) s
      (s.schedInvariantOnSwitch cfg core prev next) := by
  refine .after ?_ (.map (.ite quiet_schedQuarantineThread .same) fun _ =>
    .modifyThread rfl ⟨id, nofun, .inr ⟨.inr rfl, rfl⟩⟩)
  split
  · exact .refl s
  split
  · exact .modifyThread rfl ⟨id, nofun, .inr ⟨.inl rfl, rfl⟩⟩
  · exact .modifyThread rfl ⟨id, nofun, .inl rfl⟩
  · exact .modifyThread rfl ⟨id, nofun, .inl rfl⟩
  · exact .refl s

/-- What `sched_switch_to` ends with. -/
def switched (cfg : SchedConfig) (s : SchedSystem) (core : Nat) (prev : Option ThreadRef)
    (next : ThreadRef) : SchedSystem :=
  ((s.modifyThread next ({ · with state := .running })).setCurrent core (some next)).archContextSwitch
    cfg core prev next

/-- The core goes on with its current thread, or switches to another one. -/
theorem schedSwitchTo_cases (h : s.schedSwitchTo cfg core next = some u) :
    u = s ∧ (next = none ∨ next = (s.rq core).currentThread) ∨
    ∃ n m, next = some n ∧ (s.rq core).currentThread ≠ some n ∧
      Quiet core (moving fun r => (s.rq core).currentThread = some r ∨ r = n) s m ∧
      u = m.switched cfg core (s.rq core).currentThread n := by
  unfold schedSwitchTo at h
  split at h
  · cases h; exact .inl ⟨rfl, .inl rfl⟩
  simp only at h
  split_ifs at h with same
  · cases h; exact .inl ⟨rfl, .inr same.symm⟩
  obtain ⟨m, hm, h⟩ := bind_eq_some_iff.mp h
  obtain ⟨n, hn, rfl⟩ := map_eq_some_iff.mp h
  refine .inr ⟨_, n, rfl, same, Quiet.trans ?_ (quiet_schedInvariantOnSwitch hn), rfl⟩
  exact (quiet_requeueCurrent hm).weaken (fun _ => .inl) fun _ => id

/-- The end of `sched_reschedule`: the core goes on with its current thread, or switches to its
idle thread or to a thread that it owns. -/
theorem dispatchNext_cases (h : s.dispatchNext cfg core = some u) : (Quiet core nobody s u ∧
      ((s.rq core).currentThread ≠ none ∨ (s.rq core).idleThread = none)) ∨
    ∃ n m, (s.rq core).currentThread ≠ some n ∧ ((s.rq core).idleThread = some n ∨
        (s.thread n).ownerCpu = core ∧ (s.slot n).inUse = true) ∧
      Quiet core (moving fun r => (s.rq core).currentThread = some r ∨ r = n) s m ∧
      u = m.switched cfg core (s.rq core).currentThread n := by
  -- both branches pick a thread by quiet steps, and then switch
  have picked : ∃ m next, Quiet core nobody s m ∧ (next = (m.rq core).idleThread ∨
      ∃ n, next = some n ∧ (m.thread n).ownerCpu = core ∧ (m.slot n).inUse = true) ∧
      m.schedSwitchTo cfg core next = some u := by
    unfold dispatchNext at h
    split_ifs at h
    · exact ⟨_, _, quiet_schedPublishLoad, .inl (by simp [schedPublishLoad]), h⟩
    obtain ⟨⟨m, next⟩, hm, h⟩ := bind_eq_some_iff.mp h
    obtain ⟨quiet, chosen⟩ := schedPickNextReady_spec hm
    refine ⟨_, next, quiet.trans quiet_schedPublishLoad, ?_, h⟩
    simpa [schedPublishLoad] using chosen
  obtain ⟨m, next, quiet, chosen, switch⟩ := picked
  rw [quiet.idleThread] at chosen
  rcases schedSwitchTo_cases switch with ⟨rfl, stays⟩ | ⟨n, m', rfl, other, quiet', rfl⟩
  · refine .inl ⟨quiet, ?_⟩
    rw [quiet.currentThread] at stays
    rcases chosen with rfl | ⟨n, rfl, -, -⟩
    · rcases stays with none | current
      · exact .inr none
      rw [← current]
      by_cases absent : (s.rq core).idleThread = none
      · exact .inr absent
      · exact .inl absent
    · refine .inl fun absent => ?_
      rw [absent] at stays
      simp at stays
  · rw [quiet.currentThread] at other quiet' ⊢
    refine .inr ⟨n, m', other, ?_, quiet.nobody_mono.trans quiet', rfl⟩
    rcases chosen with idle | ⟨n', same, owned, used⟩
    · exact .inl idle.symm
    cases same
    refine .inr ⟨?_, quiet.inUse n ▸ used⟩
    rcases quiet.owners n with same | ⟨no, _⟩
    · exact same ▸ owned
    · exact no.elim

end SchedSystem

end BharatOS
