import BharatOS.Sched.Requeue
import BharatOS.Sched.Rings

/-!
# Acknowledged commands (`sched_reschedule`)

`Performed` is what each command asks for. Of each command in a ring it is stated when it passes
the validation and is acknowledged only if it was carried out.
-/

namespace BharatOS

open Option

namespace SchedSystem

/-- What a command asks for. The core takes it in state `s` and has handled it in state `u`. -/
def Performed (cfg : SchedConfig) (s u : SchedSystem) (core : Nat) (env : SchedEnvelope) : Prop :=
  match env.type with
  | .enqueue => ∃ t, s.findThread cfg env.threadId = some t ∧ u.isLinked cfg core t = true
  | .wake => ∃ t, s.findThread cfg env.threadId = some t ∧
      (u.thread t).state ≠ .blocked ∧ (u.thread t).state ≠ .sleeping
  -- as the owner itself does it, the thread gets the value
  | .setPriority => ∃ t, s.findThread cfg env.threadId = some t ∧
      (u.thread t).priority = env.priority
  | .setAffinity => ∃ t, s.findThread cfg env.threadId = some t ∧
      (u.thread t).affinityMask = env.flags
  | .setConstraints => ∃ t, s.findThread cfg env.threadId = some t ∧
      (u.thread t).constraints = env.constraints
  | .quarantine => ∃ t, s.findThread cfg env.threadId = some t ∧
      (u.thread t).state = .quarantined
  | .terminate => ∃ t, s.findThread cfg env.threadId = some t ∧ (u.thread t).state = .terminated
  | .reap => ∃ t, s.findThread cfg env.threadId = some t ∧ (u.slot t).reapPending = true
  | .handoff => ∃ t, s.findThread cfg env.threadId = some t ∧
      (u.thread t).ownerCpu = env.targetCpu
  | .stealReq => ∃ t, (s.thread t).migrationState = .none ∧
      (u.thread t).migrationState = .reserveSent ∧
      (u.thread t).migrationTargetCpu = env.targetCpu
  -- the owner has asked another core to reserve an entity
  | .migratePrepare => ∃ t, s.findThread cfg env.threadId = some t ∧
      ∃ cmd ∈ u.mail.cmds, cmd.envelope.type = .migrateReserve ∧
        ∀ old ∈ s.mail.cmds, old.envelope ≠ cmd.envelope
  | .migrateReserve => ∃ e : EntityRef, e.core = core ∧ u.holdsEntity env.threadId e = true ∧
      (u.ent e).migrationEpoch = env.migrationEpoch
  | .migrateStage => ∃ e, s.findEntityLocal core env.threadId = some e ∧
      (u.ent e).migrationEpoch = env.migrationEpoch ∧
      (u.ent e).migrationState ≠ .targetReserved
  | .migrateCommitIdentity => ∃ t, s.findThread cfg env.threadId = some t ∧
      (u.thread t).ownerCpu = env.targetCpu ∧
      (u.thread t).migrationEpoch = env.migrationEpoch
  | .migrateActivate => ∃ e, s.findEntityLocal core env.threadId = some e ∧
      (u.ent e).runnable = true
  | .queryState => True

/-- When the command, taken by the core in state `s`, is valid and not acknowledged for nothing. -/
def Heeded (cfg : SchedConfig) (s : SchedSystem) (core : Nat) (env : SchedEnvelope) : Prop :=
  match env.type with
  | .enqueue => ∃ t, s.findThread cfg env.threadId = some t ∧ s.isLinked cfg core t = true
  | .wake => ∀ t, s.findThread cfg env.threadId = some t → s.findEntity cfg t ≠ none →
      (s.thread t).state ≠ .blocked ∧ (s.thread t).state ≠ .sleeping
  -- the handlers change the entity only, so that the thread must have the value already
  | .setPriority => ∀ t, s.findThread cfg env.threadId = some t →
      (s.thread t).priority = env.priority
  | .setAffinity => ∃ t, s.findThread cfg env.threadId = some t ∧
      (s.thread t).affinityMask = env.flags
  | .setConstraints => ∃ t, s.findThread cfg env.threadId = some t ∧
      (s.thread t).constraints = env.constraints
  | .quarantine | .terminate => s.findThread cfg env.threadId ≠ none
  | .reap => ∃ t, s.findThread cfg env.threadId = some t ∧
      ((s.slot t).reapPending = true ∨
        (s.slot t).isBootstrap = false ∧ env.threadId.slot < schedMaxThreads)
  | .handoff => env.targetCpu = core ∧
      ∃ t, s.findThread cfg env.threadId = some t ∧ (s.thread t).ownerCpu = core
  | .stealReq | .migratePrepare => False
  | .migrateCommitIdentity => env.targetCpu = core
  | .migrateActivate => ∀ e, s.findEntityLocal core env.threadId = some e →
      (s.ent e).migrationState = .targetReserved ∨ (s.ent e).runnable = true
  | .migrateReserve | .migrateStage | .queryState => True

variable {cfg : SchedConfig} {core : Nat} {s u : SchedSystem} {t : ThreadRef} {e : EntityRef}
  {env : SchedEnvelope} {ack : Bool} {result : Int}

/-! ## Validation -/

theorem schedValidateRemoteEnvelope_iff : schedValidateRemoteEnvelope cfg core env = true ↔
    env.targetCpu = core ∧ env.originCpu < cfg.count ∧ env.sourceCpu = env.originCpu := by
  simp [schedValidateRemoteEnvelope]

/-- A command in a ring is valid if it names the core as its target. Requests to steal never are. -/
theorem valid_iff (rings : RingsAddressed cfg s) (member : env ∈ s.mail.inbox core) :
    schedValidateRemoteEnvelope cfg core env = true ↔ env.type ≠ .stealReq ∧
      (env.type = .handoff ∨ env.type = .migrateCommitIdentity → env.targetCpu = core) := by
  obtain ⟨active, away, addressed⟩ := rings core env member
  rw [schedValidateRemoteEnvelope_iff]
  constructor
  · rintro ⟨target, -, source⟩
    exact ⟨fun steals => away ((source.symm.trans (addressed.steals steals))), fun _ => target⟩
  · rintro ⟨other, named⟩
    refine ⟨?_, active, addressed.source other⟩
    by_cases exempt : env.type = .handoff ∨ env.type = .migrateCommitIdentity
    · exact named exempt
    rw [not_or] at exempt
    exact addressed.target ⟨other, exempt⟩

/-! ## Handlers -/

theorem wake_iff (ready : EntitiesReady s) (type : env.type = .wake)
    (h : s.schedHandleRemoteWake cfg core env = some (u, ack, result)) :
    (ack = true → Performed cfg s u core env) ↔ Heeded cfg s core env := by
  unfold schedHandleRemoteWake at h
  simp only [Performed, Heeded, type]
  split at h
  · rename_i missing
    cases h
    simp [missing]
  rename_i t found
  split at h
  · rename_i missing
    cases h
    simp [found, missing]
  rename_i e present
  obtain ⟨m, woken, h⟩ := map_eq_some_iff.mp h
  cases h
  rw [wakeEntity_ready ((raiseEntityPriority_state).trans (ready _))] at woken
  cases woken
  have same : (s.raiseEntityPriority e env.priority).thread t = s.thread t := by
    unfold raiseEntityPriority
    split_ifs <;> rfl
  simp [found, present, same]

theorem setPriority_iff (type : env.type = .setPriority)
    (h : s.schedHandleSetPriority cfg core env = some (u, ack, result)) :
    (ack = true → Performed cfg s u core env) ↔ Heeded cfg s core env := by
  unfold schedHandleSetPriority at h
  simp only [Performed, Heeded, type]
  split at h
  · rename_i missing
    cases h
    simp [missing]
  rename_i t found
  split at h
  · cases h
    simp [found]
  rename_i e present
  obtain ⟨m, off, h⟩ := bind_eq_some_iff.mp h
  have kept : ack = true ∧ (u.thread t).priority = (s.thread t).priority := by
    rw [← (requeues_takeOff off).thread_priority t]
    simp only at h
    split_ifs at h
    · obtain ⟨n, on, h⟩ := map_eq_some_iff.mp h
      cases h
      exact ⟨rfl, (requeues_putOn on).thread_priority t⟩
    · cases h
      exact ⟨rfl, rfl⟩
  simp [found, kept]

theorem modifyNamedEntity_thread {change : SchedEntity → SchedEntity} :
    (s.modifyNamedEntity cfg env change).thread = s.thread := by
  unfold modifyNamedEntity
  split
  · rfl
  split <;> rfl

theorem quarantine_iff (type : env.type = .quarantine)
    (h : s.schedHandleQuarantine cfg core env = some (u, ack, result)) :
    (ack = true → Performed cfg s u core env) ↔ Heeded cfg s core env := by
  unfold schedHandleQuarantine at h
  simp only [Performed, Heeded, type]
  split at h
  · rename_i missing
    cases h
    simp [missing]
  rename_i t found
  obtain ⟨m, quarantined, h⟩ := map_eq_some_iff.mp h
  cases h
  simp [found, schedQuarantineThread_state quarantined]

theorem handToReaper_thread {r : ThreadRef} :
    (s.handToReaper cfg core t).1.thread r = s.thread r := by
  unfold handToReaper
  split_ifs
  · unfold schedEnqueueReap
    simp only
    split_ifs
    · rfl
    · rfl
    simp only [modifyRq_thread, modifySlot_thread]
    split_ifs with same
    · rw [same]; rfl
    · rfl
  · unfold schedRemoteSubmit
    split_ifs <;> rfl
  · rfl

variable {code : Int}

theorem schedMarkThreadTerminated_state (found : s.findThread cfg (s.thread t).threadId = some t)
    (h : s.schedMarkThreadTerminated cfg core t = some (u, code)) :
    (u.thread t).state = .terminated := by
  obtain ⟨_, ⟨rfl, missing | ⟨dead, -⟩⟩ | ⟨dead, home, rfl⟩ | ⟨_, _, m, relinks, rfl⟩⟩ :=
    schedMarkThreadTerminated_cases h
  · exact absurd found missing
  · exact dead
  · have same : (s.handToReaper cfg core t).1.thread t = s.thread t :=
      handToReaper_thread
    rw [handToReaper, if_pos home] at same
    rw [same, dead]
  · rw [handToReaper_thread, relinks.threads]
    simp [terminating]

theorem terminate_iff (type : env.type = .terminate)
    (h : s.schedHandleTerminate cfg core env = some (u, ack, result)) :
    (ack = true → Performed cfg s u core env) ↔ Heeded cfg s core env := by
  unfold schedHandleTerminate at h
  simp only [Performed, Heeded, type]
  split at h
  · rename_i missing
    cases h
    simp [missing]
  rename_i t found
  obtain ⟨⟨m, code⟩, marked, h⟩ := map_eq_some_iff.mp h
  cases h
  have again : s.findThread cfg (s.thread t).threadId = some t := by
    rw [(findThread_ref found).2.1, found]
  simp [found, schedMarkThreadTerminated_state again marked]

theorem reap_iff (type : env.type = .reap) (h : s.schedHandleReap cfg env = (u, ack, result)) :
    (ack = true → Performed cfg s u core env) ↔ Heeded cfg s core env := by
  unfold schedHandleReap at h
  simp only [Performed, Heeded, type]
  split at h
  · rename_i missing
    cases h
    simp [missing]
  rename_i t found
  obtain ⟨rfl, tid, -⟩ := findThread_ref found
  have active : ¬ cfg.count ≤ env.threadId.core := by
    unfold findThread at found
    split_ifs at found with is
    exact Nat.not_le.mpr is.1
  cases h
  simp only [found, some.injEq, exists_eq_left', true_imp_iff, schedEnqueueReap, tid,
    ne_eq, not_true, or_false, active, false_or]
  split_ifs with refused pending
  · constructor
    · exact .inl
    · rintro (pending | ⟨ordinary, small⟩)
      · exact pending
      · rcases refused with bootstrap | large
        · rw [bootstrap] at ordinary; cases ordinary
        · omega
  · simp [pending]
  · simp only [not_or, Bool.not_eq_true, Nat.not_le] at refused
    simp [refused]

theorem reserve_performed (type : env.type = .migrateReserve)
    (h : s.schedHandleMigrateReserve cfg core env = (u, ack, result)) (acked : ack = true) :
    Performed cfg s u core env := by
  unfold schedHandleMigrateReserve at h
  simp only [Performed, type]
  split at h
  · rename_i e found
    obtain ⟨here, holds⟩ := mem_findEntityLocal found
    split_ifs at h with epoch
    · cases h
      exact ⟨e, here, holds, epoch⟩
    · cases h; cases acked
  split at h
  · cases h; cases acked
  rename_i m e allocated
  cases h
  have fresh : e.core = core ∧ (m.entity e).inUse = true := by
    unfold schedAllocateEntity at allocated
    split_ifs at allocated
    split at allocated
    · cases allocated
    cases allocated
    exact ⟨rfl, by simp⟩
  exact ⟨e, fresh.1, by simp [holdsEntity, ent, fresh.2], by simp [ent]⟩

theorem stage_performed (type : env.type = .migrateStage)
    (h : s.schedHandleMigrateStage core env = (u, ack, result)) (acked : ack = true) :
    Performed cfg s u core env := by
  unfold schedHandleMigrateStage at h
  simp only [Performed, type]
  split at h
  · cases h; cases acked
  rename_i e found
  split_ifs at h with epoch reserved
  · cases h; cases acked
  · cases h
    exact ⟨e, found, by simpa [ent] using not_not.mp epoch, by simp [ent]⟩
  · cases h
    exact ⟨e, found, not_not.mp epoch, reserved⟩

theorem commit_performed (type : env.type = .migrateCommitIdentity)
    (h : s.schedHandleMigrateCommitIdentity cfg env = (u, ack, result)) (acked : ack = true) :
    Performed cfg s u core env := by
  unfold schedHandleMigrateCommitIdentity at h
  simp only [Performed, type]
  split at h
  · cases h; cases acked
  rename_i t found
  split_ifs at h with newer same
  · cases h
    exact ⟨t, found, by simp, by simp⟩
  · cases h
    exact ⟨t, found, same.2, same.1⟩
  · cases h; cases acked

theorem activate_iff (type : env.type = .migrateActivate)
    (h : s.schedHandleMigrateActivate cfg core env = some (u, ack, result)) :
    (ack = true → Performed cfg s u core env) ↔ Heeded cfg s core env := by
  unfold schedHandleMigrateActivate at h
  simp only [Performed, Heeded, type]
  split at h
  · rename_i missing
    cases h
    simp [missing]
  rename_i e found
  split_ifs at h with reserved
  · have runs : (u.ent e).runnable = true := by
      simp only at h
      split at h
      · cases h; simp
      obtain ⟨m, on, h⟩ := map_eq_some_iff.mp h
      cases h
      rw [(requeues_putOn on).runnable]
      simp
    simp [found, reserved, runs]
  · cases h
    simp [found, reserved]

/-- A core that is asked to migrate a thread to itself asks nobody to reserve an entity. -/
theorem schedMigrateTask_self (h : s.schedMigrateTask cfg core t core = some (u, code))
    {cmd : SchedCmd} (member : cmd ∈ u.mail.cmds) (reserves : cmd.envelope.type = .migrateReserve) :
    ∃ old ∈ s.mail.cmds, old.envelope = cmd.envelope := by
  unfold schedMigrateTask at h
  split_ifs at h
  iterate 5 (cases h; exact ⟨cmd, member, rfl⟩)
  · rcases (quiet_migrateAsOther h).cmds cmd member with ⟨old, present, same, -⟩ | ⟨other, -⟩
    · exact ⟨old, present, same⟩
    rw [reserves] at other
    cases other

theorem prepare_not_performed (type : env.type = .migratePrepare) (target : env.targetCpu = core)
    (h : s.handleMigratePrepare cfg core env = some (u, ack, result)) :
    ack = true ∧ ¬ Performed cfg s u core env := by
  unfold handleMigratePrepare at h
  simp only [Performed, type]
  split at h
  · rename_i missing
    cases h
    simp [missing]
  rename_i t found
  obtain ⟨⟨m, code⟩, asked, h⟩ := map_eq_some_iff.mp h
  cases h
  refine ⟨rfl, ?_⟩
  rintro ⟨_, _, cmd, member, reserves, new⟩
  rw [target] at asked
  obtain ⟨old, present, same⟩ := schedMigrateTask_self asked member reserves
  exact new old present same

/-- A valid command is acknowledged only if it is carried out, just when `Heeded` says so. -/
theorem handleCommand_iff (ready : EntitiesReady s)
    (valid : schedValidateRemoteEnvelope cfg core env = true) (steals : env.type ≠ .stealReq)
    (h : s.handleCommand cfg core env = some (u, ack, result)) :
    (ack = true → Performed cfg s u core env) ↔ Heeded cfg s core env := by
  have target : env.targetCpu = core := (schedValidateRemoteEnvelope_iff.mp valid).1
  unfold handleCommand at h
  split at h
  case h_1 type =>
    exact iff_of_true (reserve_performed type (some.inj h)) (by simp [Heeded, type])
  case h_2 type =>
    exact iff_of_true (stage_performed type (some.inj h)) (by simp [Heeded, type])
  case h_3 type =>
    exact iff_of_true (commit_performed type (some.inj h)) (by simpa [Heeded, type])
  case h_4 type => exact activate_iff type h
  case h_5 type =>
    exact iff_of_true (fun _ => by simp [Performed, type]) (by simp [Heeded, type])
  case h_6 type => exact wake_iff ready type h
  case h_7 type => exact setPriority_iff type h
  case h_8 type =>
    cases h
    simp [Performed, Heeded, type, modifyNamedEntity_thread]
  case h_9 type =>
    cases h
    simp [Performed, Heeded, type, modifyNamedEntity_thread]
  case h_10 type => exact quarantine_iff type h
  case h_11 type => exact terminate_iff type h
  case h_12 type => exact reap_iff type (some.inj h)
  case h_13 type =>
    obtain ⟨acked, not⟩ := prepare_not_performed type target h
    exact iff_of_false (fun all => not (all acked)) (by simp [Heeded, type])
  case h_14 type => exact absurd type steals
  case h_15 type => cases h; simp [Performed, Heeded, type]
  case h_16 type => cases h; simp [Performed, Heeded, type, target]

/-- Of every command that a core has successfully sent to another one, at the time at which that
core takes it from its ring: it passes the validation and is acknowledged only if it is carried
out just when it is one of those that `Heeded` describes. -/
theorem acknowledged_iff_heeded {policy : Nat → SchedPolicy} {m : SchedSystem}
    (run : SchedRun cfg (fun _ _ => True) (boot policy) s) (sent : env ∈ s.mail.inbox core)
    (amid : Amid core s m) (alive : m.receive cfg core env ≠ none) :
    (schedValidateRemoteEnvelope cfg core env = true ∧
      ∀ u ack result, m.handleCommand cfg core env = some (u, ack, result) → ack = true →
        Performed cfg m u core env) ↔ Heeded cfg m core env := by
  have ready : EntitiesReady m := (entitiesReady run).amid amid
  by_cases valid : schedValidateRemoteEnvelope cfg core env = true
  · have steals := ((valid_iff (ringsAddressed run) sent).mp valid).1
    obtain ⟨⟨u, ack, result⟩, handled⟩ : ∃ x, m.handleCommand cfg core env = some x := by
      refine ne_none_iff_exists'.mp fun panics => alive ?_
      simp [receive, valid, panics]
    rw [← handleCommand_iff ready valid steals handled, handled]
    simp only [valid, true_and, some.injEq, Prod.mk.injEq]
    exact ⟨fun all => all u ack result ⟨rfl, rfl, rfl⟩, fun one _ _ _ ⟨rfl, rfl, rfl⟩ => one⟩
  · refine iff_of_false (fun both => valid both.1) fun heeded => valid ?_
    rw [valid_iff (ringsAddressed run) sent]
    constructor
    · intro type
      simp [Heeded, type] at heeded
    · rintro (type | type)
      · simp only [Heeded, type] at heeded
        exact heeded.1
      · simpa only [Heeded, type] using heeded

/-- Core 1 terminates a thread of core 0. -/
theorem acknowledged_iff_heeded_terminate :
    ∃ s env, SchedRun (.open 2) (fun _ _ => True) (boot fun _ => .roundRobin) s ∧
      env ∈ s.mail.inbox 0 ∧ env.type = .terminate ∧
      schedValidateRemoteEnvelope (.open 2) 0 env = true ∧
      ∀ u ack result, s.handleCommand (.open 2) 0 env = some (u, ack, result) → ack = true →
        Performed (.open 2) s u 0 env := by
  obtain ⟨s, ends, env, head, type, alive, found⟩ :
      ∃ s, exec (step (.open 2)) (boot fun _ => .roundRobin)
        [.create 0 true, .enqueue 0 ⟨0, 0⟩ 0, .terminate 1 ⟨1, 0, 0⟩] = some s ∧
      ∃ env, (s.mail.inbox 0).head? = some env ∧ env.type = .terminate ∧
        (s.receive (.open 2) 0 env).isSome ∧ (s.findThread (.open 2) env.threadId).isSome := by
    decide +kernel
  have run := run_of_exec ends
  have sent : env ∈ s.mail.inbox 0 := List.mem_of_mem_head? head
  refine ⟨s, env, run, sent, type, ?_⟩
  refine (acknowledged_iff_heeded run sent (.inl (.refl s)) ?_).mpr ?_
  · exact isSome_iff_ne_none.mp alive
  · simp only [Heeded, type]
    exact isSome_iff_ne_none.mp found

/-- Core 0 enqueues a new thread on core 1 and gets 0. Core 1 acknowledges the command, and the
thread is in no runqueue. -/
theorem remote_enqueue_acknowledged_for_nothing :
    ∃ s s₁ u, exec (step (.open 2)) (boot fun _ => .roundRobin) [.create 0 true] = some s ∧
      s.schedEnqueue (.open 2) 0 ⟨0, 0⟩ 1 = some (s₁, 0) ∧
      s₁.step (.open 2) (.reschedule 1 []) = some u ∧
      u.mail.cmds.map (fun c => (c.envelope.type, c.completion)) = [(.enqueue, some (true, 0))] ∧
      u.isLinked (.open 2) 1 ⟨0, 0⟩ = false ∧ u.runEntities 1 = [] ∧ u.runEntities 0 = [] := by
  simp only [exists_and_left]
  decide +kernel

end SchedSystem

end BharatOS
