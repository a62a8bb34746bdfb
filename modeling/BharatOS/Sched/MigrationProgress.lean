import BharatOS.Sched.MigrationSafety

/-!
# No migration gets stuck

The owner of the thread waits for the command of the phase, and whatever becomes of the command
moves the migration on.
-/

namespace BharatOS

open List

namespace MigSystem

/-- The end of the command moves the migration on, whether it is acknowledged, refused or late. -/
def Advances (cfg : MigConfig) (s : MigSystem) (c : MigCmd) : Prop :=
  ∀ acked result room, ∃ t, s.after cfg c.envelope acked result room = some t ∧
    t.thread.migrationState ≠ s.thread.migrationState

/-- The migration is over, or a command is outstanding whose end moves it on. -/
def Moving (cfg : MigConfig) (s : MigSystem) : Prop :=
  s.thread.migrationState = .none ∨ s.thread.migrationState = .failed ∨
    ∃ c ∈ s.cmds, s.Advances cfg c

variable {cfg : MigConfig} {owner : Nat} {asked : Prop} {s t : MigSystem}

theorem submit_thread {core dst target : Nat} {type : MigCmdType} {ring : Bool}
    (given : s.submit cfg core dst type target ring = some t) : t.thread = s.thread := by
  unfold submit at given
  split at given
  · cases given
  cases given
  rfl

section

variable (F : Frame owner s)

include F

variable (valid : owner < cfg.count)

include valid

theorem resumed_ends {expected : SchedMig}
    (next : SchedMig) (state : s.thread.migrationState = expected) (room : MigRoom) :
    ∃ t, (s.resumeSource cfg owner room).transition cfg owner expected next = some t ∧
      t.thread.migrationState = next := by
  obtain ⟨-, kept, -⟩ := resumeSource_spec F valid room
  exact ⟨_, transition_eq (kept.trans state), rfl⟩

/-- The next phase has begun, or the source goes on with the thread. -/
theorem sent_or_resumed (state : SchedMig)
    (now : s.thread.migrationState = state) (dst : Nat) (type : MigCmdType) (target : Nat)
    (room : MigRoom) :
    ∃ t, (match s.submit cfg owner dst type target room.ring with
      | some s => some s
      | none => (s.resumeSource cfg owner room).transition cfg owner state .failed) = some t ∧
      (t.thread.migrationState = state ∨ t.thread.migrationState = .failed) := by
  cases given : s.submit cfg owner dst type target room.ring with
  | some t => exact ⟨t, rfl, .inl (submit_thread given ▸ now)⟩
  | none =>
    obtain ⟨t, ends, failed⟩ := resumed_ends F valid .failed now room
    exact ⟨t, ends, .inr failed⟩

theorem reserveDone_advances
    (state : s.thread.migrationState = .reserveSent) (acked : Bool) (room : MigRoom) :
    ∃ t, s.reserveDone cfg owner acked room = some t ∧ t.thread.migrationState ≠ .reserveSent := by
  obtain ⟨e, found⟩ := Option.isSome_iff_exists.mp F.own
  unfold reserveDone
  rw [modifyEntity_eq F valid found, modifyEntity_eq F valid found]
  split
  · have L := @local_setEntity owner s { e with migrationState := .sourceFrozen, runnable := false }
    have F₁ := (L.trans (local_toState L.own .sourceFrozen)).frame F
    rw [transition_eq (by exact state), Option.bind_some]
    split
    · have L₂ := local_toState F₁.own .targetPrepared
      obtain ⟨e₂, found₂⟩ := Option.isSome_iff_exists.mp L₂.own
      rw [transition_eq (by exact rfl), Option.bind_some,
        modifyEntity_eq (L₂.frame F₁) valid found₂]
      obtain ⟨t, goes, ends⟩ := sent_or_resumed
        ((L₂.trans (local_setEntity { e₂ with migrationState := .targetPrepared })).frame F₁) valid
        .targetPrepared rfl _ .stage _ room
      exact ⟨t, goes, by rcases ends with h | h <;> rw [h] <;> decide⟩
    · obtain ⟨t, ends, failed⟩ := resumed_ends F₁ valid .failed rfl room
      exact ⟨t, ends, by rw [failed]; decide⟩
  · exact ⟨_, transition_eq (by exact state), nofun⟩

theorem stageDone_advances
    (state : s.thread.migrationState = .targetPrepared) (acked : Bool) (room : MigRoom) :
    ∃ t, s.stageDone cfg owner acked room = some t ∧ t.thread.migrationState ≠ .targetPrepared := by
  unfold stageDone
  split
  · split
    · have L := local_toState F.own .ownerCommitSent
      obtain ⟨e, found⟩ := Option.isSome_iff_exists.mp L.own
      rw [transition_eq state, Option.bind_some, modifyEntity_eq (L.frame F) valid found]
      obtain ⟨t, goes, ends⟩ := sent_or_resumed
        ((L.trans (local_setEntity { e with migrationState := .ownerCommitSent })).frame F) valid
        .ownerCommitSent rfl _ .commitIdentity _ room
      exact ⟨t, goes, by rcases ends with h | h <;> rw [h] <;> decide⟩
    · obtain ⟨t, ends, failed⟩ := resumed_ends F valid .failed state room
      exact ⟨t, ends, by rw [failed]; decide⟩
  · obtain ⟨t, ends, free⟩ := resumed_ends F valid .none state room
    exact ⟨t, ends, by rw [free]; decide⟩

theorem commitDone_advances
    (state : s.thread.migrationState = .ownerCommitSent) (acked : Bool) (room : MigRoom) :
    ∃ t, s.commitDone cfg owner acked room = some t ∧
      t.thread.migrationState ≠ .ownerCommitSent := by
  have quarantined : ∀ u : MigSystem, u.thread.ownerCpu = owner → ∀ expected,
      u.thread.migrationState = expected → ∃ t, (u.quarantine owner).bind
        (·.transition cfg owner expected .failed) = some t ∧ t.thread.migrationState = .failed := by
    intro u isOwner expected now
    rw [quarantine, if_neg (not_not.mpr isOwner), Option.bind_some]
    exact ⟨_, transition_eq now, rfl⟩
  unfold commitDone
  split
  · split
    · have L := local_toState F.own .activateSent
      obtain ⟨e, found⟩ := Option.isSome_iff_exists.mp L.own
      rw [transition_eq state, Option.bind_some, modifyEntity_eq (L.frame F) valid found]
      generalize moved : (s.toState .activateSent).setEntity owner
        (some { e with migrationState := .activateSent }) = v
      have now : v.thread.migrationState = .activateSent := by rw [← moved]; rfl
      have isOwner : v.thread.ownerCpu = owner := by rw [← moved]; exact F.isOwner
      dsimp only
      cases given : v.submit cfg owner v.thread.migrationTargetCpu .activate
          v.thread.migrationTargetCpu room.ring with
      | some t => exact ⟨t, rfl, by rw [submit_thread given, now]; decide⟩
      | none =>
        obtain ⟨t, ends, failed⟩ := quarantined v isOwner .activateSent now
        exact ⟨t, ends, by rw [failed]; decide⟩
    · obtain ⟨t, ends, failed⟩ := quarantined s F.isOwner .ownerCommitSent state
      exact ⟨t, ends, by rw [failed]; decide⟩
  · obtain ⟨t, ends, free⟩ := resumed_ends F valid .none state room
    exact ⟨t, ends, by rw [free]; decide⟩

end

/-- If the owner was never asked, the command that is pending is the one of the phase. -/
theorem Sound.moving (S : Sound owner False s) (valid : owner < cfg.count) : s.Moving cfg := by
  have phase := S.phase
  match chained : s.chain, phase with
  | [], phase =>
    rcases phase.2 with free | failed | never
    · exact .inl free
    · exact .inr (.inl failed)
    · exact never.elim
  | [env], phase =>
    have inChain : env ∈ s.chain := by rw [chained]; exact mem_singleton_self env
    obtain ⟨c, member, rfl⟩ := List.mem_map.mp (mem_filter.mp inChain).1
    obtain ⟨epoch, source, -, phase⟩ := phase
    refine .inr (.inr ⟨c, member, fun acked result room => ?_⟩)
    unfold MigSystem.after
    rw [if_neg (not_not.mpr epoch.symm), source]
    rcases phase with ⟨type, state, -⟩ | ⟨type, state⟩ | ⟨type, state⟩ <;> rw [type, state]
    · exact reserveDone_advances S.toFrame valid state acked room
    · exact stageDone_advances S.toFrame valid state acked room
    · exact commitDone_advances S.toFrame valid state acked room
  | _ :: _ :: _, phase => exact phase.elim

/-- The call begins to migrate the thread on a core that is not its owner. -/
def beginsAway (cfg : MigConfig) (s : MigSystem) : MigAction → Prop
  | .migrate core newNode room =>
    s.begins cfg (.migrate core newNode room) = true ∧ core ≠ s.thread.ownerCpu
  | _ => False

/-- And it sends MIGRATE_PREPARE. -/
def asksOwner (cfg : MigConfig) (s : MigSystem) : MigAction → Prop
  | .migrate core newNode room => s.beginsAway cfg (.migrate core newNode room) ∧
      room.cmd = true ∧ s.thread.ownerCpu < cfg.count ∧ room.ring = true
  | _ => False

/-- A thread that another core than its owner begins to migrate: the request is sent, and only
requests of this kind are pending. -/
theorem asksOwner_stuck (S : Sound owner asked s) {a : MigAction} (asks : s.asksOwner cfg a)
    (h : s.step cfg a = some t) : ¬ t.Moving cfg := by
  cases a with
  | migrate core newNode room =>
    obtain ⟨⟨begun, away⟩, cmd, valid, ring⟩ := asks
    have passed : s.migrateRefused cfg newNode = none := by simpa [begins] using begun
    have free := (migrateRefused_eq_none.mp passed).2.2.2.1
    have idle := idle_of_none S free
    obtain ⟨⟨t', r⟩, called, rfl⟩ := Option.map_eq_some_iff.mp h
    simp only [schedMigrateTask, passed, nextEpoch, migrateAsOther, cmd, ring, Bool.true_eq_false,
      transition, free, if_true, if_false, Option.bind_some, submit,
      Nat.not_le.mpr valid, Ne.symm away, or_false] at called
    cases called
    rintro (idle | failed | ⟨c, member, advances⟩)
    · cases idle
    · cases failed
    · have prepare : c.envelope.type = .prepare := by
        rcases mem_append.mp member with old | new
        · by_contra other
          have inChain : c.envelope ∈ s.chain :=
            mem_filter.mpr ⟨List.mem_map_of_mem old, by simpa using other⟩
          rw [idle] at inChain
          cases inChain
        · rw [mem_singleton.mp new]
      obtain ⟨u, ends, other⟩ := advances true 0 room
      unfold MigSystem.after at ends
      rw [prepare] at ends
      split at ends <;> exact other (Option.some.inj ends ▸ rfl)
  | handle | finish => exact asks.elim

/-- In every run in which no core but the owner begins to migrate the thread and the epoch does not
wrap, the migration is over or a command is outstanding whose end moves it on. A call of another
core that sends its request breaks this. -/
theorem migration_never_stuck (valid : owner < cfg.count) {mask : BitVec 32}
    (run : Run (fun s a t => s.step cfg a = some t)
      (fun s a => ¬ s.beginsAway cfg a ∧ s.wraps cfg a = false) (boot owner mask) s) :
    s.Moving cfg ∧ ∀ a t, s.step cfg a = some t → s.asksOwner cfg a → ¬ t.Moving cfg := by
  have S : Sound owner False s := run.invariant (Sound owner False) (sound_boot owner False mask)
    fun s a t S calm now => by
      refine (S.step valid calm.2 ?_ now).1
      rintro core newNode room rfl begun away
      exact calm.1 ⟨begun, S.isOwner ▸ away⟩
  exact ⟨S.moving valid, fun a t now asks => asksOwner_stuck S asks now⟩

/-- The owner has asked the target to reserve an entity. -/
theorem migration_never_stuck_reserving : ∃ s, Run (fun s a t => s.step ⟨2, 0, false⟩ a = some t)
        (fun s a => ¬ s.beginsAway ⟨2, 0, false⟩ a ∧ s.wraps ⟨2, 0, false⟩ a = false) (boot 0 3) s ∧
      s.thread.migrationState = .reserveSent ∧ ∃ c ∈ s.cmds, s.Advances ⟨2, 0, false⟩ c := by
  have run : Run (fun s a t => s.step ⟨2, 0, false⟩ a = some t)
      (fun s a => ¬ s.beginsAway ⟨2, 0, false⟩ a ∧ s.wraps ⟨2, 0, false⟩ a = false) (boot 0 3) _ :=
    .tail .refl (a := .migrate 0 1 ⟨true, true, true, true⟩)
      ⟨fun away => away.2 rfl, by decide⟩ rfl
  refine ⟨_, run, rfl, ?_⟩
  rcases (migration_never_stuck (by decide) run).1 with idle | failed | moving
  · cases idle
  · cases failed
  · exact moving

/-- Core 1 wants the thread of core 0. Core 0 takes the request, core 1 is told so, and nothing is
outstanding any more, but the migration is not over. -/
theorem remote_migration_stuck :
    ∃ s, exec (step ⟨2, 0, false⟩) (boot 0 3) [.migrate 1 1 ⟨true, true, true, true⟩,
        .handle 0 ⟨true, true, true, true⟩, .finish 0 false ⟨true, true, true, true⟩] = some s ∧
      ¬ s.Outstanding ∧ s.thread.stateQuarantined = false ∧
      s.thread.migrationState = .reserveSent ∧ ¬ s.Moving ⟨2, 0, false⟩ := by
  refine ⟨_, rfl, ?_, rfl, rfl, ?_⟩
  · rintro (pending | ⟨core, waiting⟩)
    · exact pending rfl
    · refine waiting ?_
      by_cases here : core = 0
      · rw [here]
        rfl
      · exact (Function.update_of_ne here _ _).trans (Function.update_of_ne here _ _)
  · rintro (idle | failed | ⟨c, member, -⟩)
    · cases idle
    · cases failed
    · cases member

end MigSystem

end BharatOS
