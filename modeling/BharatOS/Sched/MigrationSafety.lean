import BharatOS.Sched.Migration
import Mathlib.Data.List.Nodup

/-!
# What a migration leaves behind

No command ever changes the owner: the home core refuses the commit, because the epoch of the
thread is that of the migration from the beginning on.
-/

namespace BharatOS

open Function Option List

namespace MigSystem

/-- The commands of the phases that are pending. -/
def chain (s : MigSystem) : List MigEnvelope :=
  (s.cmds.map (·.envelope)).filter (·.type ≠ .prepare)

/-- Some migration command is on its way or not finished. -/
def Outstanding (s : MigSystem) : Prop := s.cmds ≠ [] ∨ ∃ core, s.inbox core ≠ []

/-- The owner has a runnable entity for the thread, and no other core has an entity. -/
def OneEntity (s : MigSystem) : Prop :=
  (∃ e, s.entity s.thread.ownerCpu = some e ∧ e.runnable = true) ∧
    ∀ core, core ≠ s.thread.ownerCpu → s.entity core = none

/-- The call of `sched_migrate_task` gets past its checks, to the epoch. -/
def begins (cfg : MigConfig) (s : MigSystem) : MigAction → Bool
  | .migrate _ newNode _ => s.migrateRefused cfg newNode = none
  | _ => false

/-- The epoch of the thread goes back to 0. -/
def wraps (cfg : MigConfig) (s : MigSystem) (a : MigAction) : Bool :=
  s.begins cfg a ∧ s.thread.migrationEpoch = -1

/-- The core that acts gives the thread a reserved entity. -/
def grants (s : MigSystem) : MigAction → Bool
  | .handle core room =>
    match s.inbox core with
    | [] => false
    | env :: _ => env.type = .reserve ∧ env.targetCpu = core ∧ s.entity core = none ∧ room.entity
  | _ => false

/-- No step of the run is one of these. -/
def never (step : MigSystem → MigAction → Bool) (cfg : MigConfig) :
    MigSystem → List MigAction → Bool
  | _, [] => true
  | s, a :: rest => !step s a &&
      match s.step cfg a with
      | none => true
      | some t => never step cfg t rest

/-- A command on its way. -/
structure EnvOk (owner : Nat) (s : MigSystem) (env : MigEnvelope) : Prop where
  handle : env.handle < s.nextHandle
  epoch : env.migrationEpoch ≤ s.thread.migrationEpoch
  type : env.type ≠ .activate ∧ env.type ≠ .queryState
  prepare : env.type = .prepare → env.targetCpu = owner
  target : env.type ≠ .prepare → env.targetCpu ≠ owner
  same : ∀ c ∈ s.cmds, c.envelope.handle = env.handle → c.envelope.type = env.type

/-- What every call keeps, whatever the phase. -/
structure Frame (owner : Nat) (s : MigSystem) : Prop where
  isOwner : s.thread.ownerCpu = owner
  state : s.thread.stateQuarantined = false
  ownerState : s.thread.ownerQuarantined = false
  own : (s.entity owner).isSome
  others : ∀ core, core ≠ owner → ∀ e, s.entity core = some e → e.runnable = false
  env : ∀ core, ∀ env ∈ s.inbox core, s.EnvOk owner env
  handles : ∀ c ∈ s.cmds, c.envelope.handle < s.nextHandle
  refused : ∀ c ∈ s.cmds, c.envelope.type = .commitIdentity → ∀ r, c.completion ≠ some (true, r)
  nodup : (s.cmds.map (·.envelope.handle)).Nodup

/-- The phase: which command is pending, and what the thread and the entity of the owner say.
`asked` is whether another core may have asked the owner to migrate the thread. -/
def Fits (owner : Nat) (asked : Prop) (s : MigSystem) : List MigEnvelope → Prop
  | [] => (∃ e, s.entity owner = some e ∧ e.runnable = true) ∧
      (s.thread.migrationState = .none ∨ s.thread.migrationState = .failed ∨ asked)
  | [env] => env.migrationEpoch = s.thread.migrationEpoch ∧ env.sourceCpu = owner ∧
      s.thread.migrationTargetCpu ≠ owner ∧
      ((env.type = .reserve ∧ s.thread.migrationState = .reserveSent ∧
          ∃ e, s.entity owner = some e ∧ e.runnable = true) ∨
        (env.type = .stage ∧ s.thread.migrationState = .targetPrepared) ∨
        (env.type = .commitIdentity ∧ s.thread.migrationState = .ownerCommitSent))
  | _ => False

structure Sound (owner : Nat) (asked : Prop) (s : MigSystem) : Prop extends Frame owner s where
  phase : s.Fits owner asked s.chain

variable {cfg : MigConfig} {owner : Nat} {asked : Prop} {s t u : MigSystem}

/-! ## Calls on the owner -/

/-- Only the entity of the owner and the state of the migration change. -/
structure Local (owner : Nat) (s t : MigSystem) : Prop where
  thread : t.thread = { s.thread with migrationState := t.thread.migrationState }
  own : (t.entity owner).isSome
  others : ∀ core, core ≠ owner → t.entity core = s.entity core
  cmds : t.cmds = s.cmds
  inbox : t.inbox = s.inbox
  nextHandle : t.nextHandle = s.nextHandle

section

variable (h : Local owner s t)

include h

theorem Local.trans (h' : Local owner t u) : Local owner s u where
  thread := by rw [h'.thread, h.thread]
  own := h'.own
  others core other := (h'.others core other).trans (h.others core other)
  cmds := h'.cmds.trans h.cmds
  inbox := h'.inbox.trans h.inbox
  nextHandle := h'.nextHandle.trans h.nextHandle

theorem Local.epoch : t.thread.migrationEpoch = s.thread.migrationEpoch := by
  rw [h.thread]

theorem Local.target : t.thread.migrationTargetCpu = s.thread.migrationTargetCpu := by
  rw [h.thread]

theorem Local.chain : t.chain = s.chain := by
  unfold MigSystem.chain
  rw [h.cmds]

theorem Local.frame (F : Frame owner s) : Frame owner t where
  isOwner := by rw [h.thread]; exact F.isOwner
  state := by rw [h.thread]; exact F.state
  ownerState := by rw [h.thread]; exact F.ownerState
  own := h.own
  others core other e found := F.others core other e (h.others core other ▸ found)
  env core env member := by
    have ok := F.env core env (h.inbox ▸ member)
    exact { ok with
      handle := h.nextHandle ▸ ok.handle
      epoch := h.epoch ▸ ok.epoch
      same := h.cmds ▸ ok.same }
  handles := h.cmds ▸ h.nextHandle ▸ F.handles
  refused := h.cmds ▸ F.refused
  nodup := h.cmds ▸ F.nodup
end

theorem local_setEntity (e : MigEntity) : Local owner s (s.setEntity owner (some e)) where
  thread := rfl
  own := by simp [setEntity]
  others core other := by simp [setEntity, other]
  cmds := rfl
  inbox := rfl
  nextHandle := rfl

/-- The thread in another state of its migration. -/
def toState (s : MigSystem) (next : SchedMig) : MigSystem :=
  { s with thread := { s.thread with migrationState := next } }

variable {core : Nat} {room : MigRoom} {env : MigEnvelope}

theorem transition_eq {expected next : SchedMig} (state : s.thread.migrationState = expected) :
    s.transition cfg core expected next = some (s.toState next) := if_pos state

theorem local_toState (own : (s.entity owner).isSome) (next : SchedMig) :
    Local owner s (s.toState next) := ⟨rfl, own, fun _ _ => rfl, rfl, rfl, rfl⟩

theorem release_chain (handle : Nat) :
    (s.release handle).chain = s.chain.filter (·.handle ≠ handle) := by
  simp only [chain, release, List.filter_filter, List.filter_map, comp_def]
  congr 2
  funext c
  exact Bool.and_comm _ _

theorem respond_chain (handle : Nat) (ack : Bool) (result : Int) :
    (s.respond handle ack result).chain = s.chain := by
  unfold chain respond
  rw [List.map_map]
  congr 2
  funext c
  simp only [comp_def]
  split <;> rfl

/-- A step on the owner: what other cores have is as it was. -/
def Kept (owner : Nat) (asked : Prop) (s t : MigSystem) : Prop :=
  Sound owner asked t ∧ ∀ core, core ≠ owner → t.entity core = s.entity core

theorem idle_of_none (S : Sound owner asked s) (free : s.thread.migrationState = .none) :
    s.chain = [] := by
  have phase := S.phase
  match s.chain, phase with
  | [], _ => rfl
  | [env], phase =>
    obtain ⟨-, -, -, ⟨-, state, -⟩ | ⟨-, state⟩ | ⟨-, state⟩⟩ := phase <;>
      · rw [free] at state
        cases state
  | _ :: _ :: _, phase => exact phase.elim

section

variable (F : Frame owner s)

include F

theorem findEntity_eq (valid : owner < cfg.count) : s.findEntity cfg = s.entity owner := by
  rw [findEntity, F.isOwner, if_pos valid]

theorem modifyEntity_eq (valid : owner < cfg.count) {e : MigEntity}
    (found : s.entity owner = some e) (change : MigEntity → MigEntity) :
    s.modifyEntity cfg change = s.setEntity owner (some (change e)) := by
  rw [modifyEntity, findEntity_eq F valid, found, F.isOwner]

/-- The thread goes on where it is, in the same state of its migration. -/
theorem resumeSource_spec (valid : owner < cfg.count) (room : MigRoom) :
    Local owner s (s.resumeSource cfg owner room) ∧
      (s.resumeSource cfg owner room).thread.migrationState = s.thread.migrationState ∧
      ∃ e, (s.resumeSource cfg owner room).entity owner = some e ∧ e.runnable = true := by
  obtain ⟨e, found⟩ := isSome_iff_exists.mp F.own
  unfold resumeSource
  rw [findEntity_eq F valid, found]
  simp only [modifyEntity_eq F valid found]
  generalize resumed : ({ e with migrationState := .none, runnable := true } : MigEntity) = e'
  have runs : e'.runnable = true := by rw [← resumed]
  have first := @local_setEntity owner s e'
  have F' := first.frame F
  have found' : (s.setEntity owner (some e')).entity owner = some e' := by simp [setEntity]
  unfold schedEnqueue
  split
  · exact ⟨first, rfl, e', found', runs⟩
  rw [findEntity_eq F' valid, found']
  simp only [F'.isOwner]
  refine ⟨⟨?_, ?_, fun core other => ?_, rfl, rfl, rfl⟩, rfl, { e' with runnable := true }, ?_, rfl⟩
  · have same := F.isOwner
    have calm := F.state
    have ownCalm := F.ownerState
    cases s with
    | mk thread =>
      cases thread
      simp only at same calm ownCalm
      simp [setEntity, same, calm, ownCalm]
  · simp [setEntity]
  · simp [setEntity, other]
  · simp [setEntity]

/-! ## Commands -/

/-- A new command of core `core`. -/
theorem submit_spec {dst target : Nat} {type : MigCmdType} {ring : Bool}
    (given : s.submit cfg core dst type target ring = some t)
    (known : type ≠ .activate ∧ type ≠ .queryState) (prepare : type = .prepare → target = owner)
    (other : type ≠ .prepare → target ≠ owner) :
    Frame owner t ∧ t.thread = s.thread ∧ t.entity = s.entity ∧
      t.chain = s.chain ++ [⟨s.nextHandle, type, core, target, s.thread.migrationEpoch⟩].filter
        (·.type ≠ .prepare) := by
  unfold submit at given
  split at given
  · cases given
  cases given
  refine ⟨⟨F.isOwner, F.state, F.ownerState, F.own, F.others, ?_, ?_, ?_, ?_⟩, rfl, rfl, ?_⟩
  · intro at_core env member
    by_cases there : env ∈ s.inbox at_core
    · have ok := F.env at_core env there
      refine ⟨Nat.lt_succ_of_lt ok.handle, ok.epoch, ok.type, ok.prepare, ok.target, ?_⟩
      intro c memberC same
      rcases mem_append.mp memberC with old | new
      · exact ok.same c old same
      obtain rfl := mem_singleton.mp new
      exact absurd same.symm (Nat.ne_of_lt ok.handle)
    have new : env = ⟨s.nextHandle, type, core, target, s.thread.migrationEpoch⟩ := by
      by_cases at_dst : at_core = dst
      · subst at_dst
        simp only [update_self, mem_append, mem_singleton] at member
        exact member.resolve_left there
      · simp only [update_of_ne at_dst] at member
        exact absurd member there
    subst new
    refine ⟨Nat.lt_succ_self _, BitVec.le_refl _, known, prepare, other, ?_⟩
    intro c memberC same
    rcases mem_append.mp memberC with old | new
    · exact absurd same (Nat.ne_of_lt (F.handles c old))
    obtain rfl := mem_singleton.mp new
    rfl
  · intro c member
    rcases mem_append.mp member with old | new
    · exact Nat.lt_succ_of_lt (F.handles c old)
    obtain rfl := mem_singleton.mp new
    exact Nat.lt_succ_self _
  · intro c member
    rcases mem_append.mp member with old | new
    · exact F.refused c old
    obtain rfl := mem_singleton.mp new
    exact fun _ r acked => by cases acked
  · rw [map_append, nodup_append]
    refine ⟨F.nodup, by simp, ?_⟩
    intro h memberH h' memberH' same
    obtain ⟨c, memberC, rfl⟩ := List.mem_map.mp memberH
    simp only [map_cons, map_nil, mem_singleton] at memberH'
    exact Nat.ne_of_lt (F.handles c memberC) (same.trans memberH')
  · rw [chain, map_append, filter_append]
    rfl

theorem release_frame (handle : Nat) : Frame owner (s.release handle) where
  __ := F
  env core env member := by
    have ok := F.env core env member
    exact { ok with same := fun c memberC => ok.same c (mem_filter.mp memberC).1 }
  handles c member := F.handles c (mem_filter.mp member).1
  refused c member := F.refused c (mem_filter.mp member).1
  nodup := (filter_sublist.map _).nodup F.nodup

/-- A core answers a command; nobody acknowledges a commit. -/
theorem respond_frame {handle : Nat} {ack : Bool} {result : Int}
    (refuses : ack = true → ∀ c ∈ s.cmds, c.envelope.handle = handle →
      c.envelope.type ≠ .commitIdentity) : Frame owner (s.respond handle ack result) := by
  have from_old : ∀ c ∈ (s.respond handle ack result).cmds, ∃ old ∈ s.cmds,
      c.envelope = old.envelope ∧ (c.completion = old.completion ∨
        (old.envelope.handle = handle ∧ c.completion = some (ack, result))) := by
    intro c member
    obtain ⟨old, memberOld, rfl⟩ := List.mem_map.mp member
    refine ⟨old, memberOld, ?_⟩
    split
    · rename_i answered
      exact ⟨rfl, .inr ⟨answered.1, rfl⟩⟩
    · exact ⟨rfl, .inl rfl⟩
  refine ⟨F.isOwner, F.state, F.ownerState, F.own, F.others, ?_, ?_, ?_, ?_⟩
  · intro core env member
    have ok := F.env core env member
    refine ⟨ok.handle, ok.epoch, ok.type, ok.prepare, ok.target, fun c memberC same => ?_⟩
    obtain ⟨old, memberOld, envelope, -⟩ := from_old c memberC
    rw [envelope] at same ⊢
    exact ok.same old memberOld same
  · intro c member
    obtain ⟨old, memberOld, envelope, -⟩ := from_old c member
    rw [envelope]
    exact F.handles old memberOld
  · intro c member commit r acked
    obtain ⟨old, memberOld, envelope, same | ⟨answered, now⟩⟩ := from_old c member
    · exact F.refused old memberOld (envelope ▸ commit) r (same ▸ acked)
    rw [now, some.injEq, Prod.mk.injEq] at acked
    exact refuses acked.1 old memberOld answered (envelope ▸ commit)
  · have same : (s.respond handle ack result).cmds.map (·.envelope.handle) =
        s.cmds.map (·.envelope.handle) := by
      unfold respond
      rw [List.map_map]
      congr 1
      funext c
      simp only [comp_def]
      split <;> rfl
    rw [same]
    exact F.nodup

/-! ## One step -/

/-- The epoch of the thread and its target are set when a migration begins. -/
theorem nextEpoch_frame (fits : s.thread.migrationEpoch ≠ -1) (newNode : Nat) :
    Frame owner (s.nextEpoch newNode) where
  __ := F
  env core env member := by
    have ok := F.env core env member
    have epoch := ok.epoch
    exact { ok with epoch := by simp only [nextEpoch]; bv_omega }

end

theorem migrateRefused_eq_none {newNode : Nat} : s.migrateRefused cfg newNode = none ↔
    newNode < cfg.count ∧ s.thread.affinityMask &&& 1#32 <<< newNode ≠ 0 ∧
      ¬ (s.thread.stateQuarantined = true ∨ s.thread.ownerQuarantined = true) ∧
      s.thread.migrationState = .none ∧ s.thread.ownerCpu ≠ newNode := by
  rw [← Nat.not_le]
  unfold migrateRefused
  simp only
  split_ifs <;> simp_all

section

variable (S : Sound owner asked s)

include S

theorem Sound.running (free : s.thread.migrationState = .none) :
    ∃ e, s.entity owner = some e ∧ e.runnable = true := by
  have phase := S.phase
  rw [idle_of_none S free] at phase
  exact phase.1

/-- Nothing is pending before a migration begins, nor when it has only a new epoch. -/
theorem Sound.nextEpoch (fits : s.thread.migrationEpoch ≠ -1) (newNode : Nat)
    (free : s.thread.migrationState = .none) : Sound owner asked (s.nextEpoch newNode) := by
  refine ⟨nextEpoch_frame S.toFrame fits newNode, ?_⟩
  have chained : s.chain = [] := idle_of_none S free
  change Fits owner asked _ s.chain
  rw [chained]
  exact ⟨S.running free, .inl free⟩

/-- The target is asked to reserve an entity. -/
theorem Sound.migrateAsOwner (valid : owner < cfg.count) {newNode : Nat} {r : MigResult}
    (free : s.thread.migrationState = .none) (aimed : s.thread.migrationTargetCpu = newNode)
    (elsewhere : owner ≠ newNode)
    (h : s.migrateAsOwner cfg owner newNode room = some (t, r)) : Kept owner asked s t := by
  have F := S.toFrame
  have chained := idle_of_none S free
  obtain ⟨e, found, runs⟩ := S.running free
  unfold MigSystem.migrateAsOwner at h
  rw [findEntity_eq F valid, found] at h
  simp only at h
  split at h
  · cases h; exact ⟨S, fun _ _ => rfl⟩
  have begun := local_toState F.own .reserveSent
  rw [transition_eq free, bind_some, modifyEntity_eq (begun.frame F) valid found] at h
  generalize marked : (⟨.reserveSent, (s.toState .reserveSent).thread.migrationEpoch,
    e.runnable⟩ : MigEntity) = e' at h
  have runs' : e'.runnable = true := by rw [← marked]; exact runs
  have L := begun.trans (local_setEntity e')
  have F₂ := L.frame F
  have found₂ : ((s.toState .reserveSent).setEntity owner (some e')).entity owner = some e' := by
    simp [setEntity]
  split at h
  · rename_i given
    cases h
    obtain ⟨F', threads, entities', chain'⟩ := submit_spec F₂ given (by decide) nofun
      fun _ => Ne.symm elsewhere
    refine ⟨⟨F', ?_⟩, fun c other => ?_⟩
    · rw [chain', L.chain, chained]
      refine ⟨by rw [threads], rfl, by rw [threads, L.target, aimed]; exact Ne.symm elsewhere,
        .inl ⟨rfl, by rw [threads]; rfl, e', by rw [entities']; exact found₂, runs'⟩⟩
    · rw [entities', L.others c other]
  · -- the command is not sent, and the source goes on
    have state₂ : ((s.toState .reserveSent).setEntity owner
        (some e')).thread.migrationState = .reserveSent := rfl
    have L' := L.trans (local_toState F₂.own .none)
    rw [transition_eq state₂, map_some, modifyEntity_eq (L'.frame F) valid found₂] at h
    cases h
    have L₃ := L'.trans (local_setEntity { e' with migrationState := .none })
    refine ⟨⟨L₃.frame F, ?_⟩, L₃.others⟩
    rw [L₃.chain, chained]
    exact ⟨⟨{ e' with migrationState := .none }, by simp [setEntity], runs'⟩, .inl rfl⟩

/-- The owner is asked. -/
theorem Sound.migrateAsOther {r : MigResult} (free : s.thread.migrationState = .none)
    (asks : asked) (h : s.migrateAsOther cfg core room = some (t, r)) : Kept owner asked s t := by
  have F := S.toFrame
  have chained := idle_of_none S free
  obtain ⟨e, found, runs⟩ := S.running free
  have begun := local_toState F.own .reserveSent
  have F₁ := begun.frame F
  unfold MigSystem.migrateAsOther at h
  split at h
  · cases h; exact ⟨S, fun _ _ => rfl⟩
  rw [transition_eq free, bind_some] at h
  split at h
  · rename_i given
    cases h
    obtain ⟨F', threads, entities', chain'⟩ := submit_spec F₁ given (by decide)
      (fun _ => F₁.isOwner) fun different => absurd rfl different
    refine ⟨⟨F', ?_⟩, fun c other => by rw [entities', begun.others c other]⟩
    rw [chain', begun.chain, chained]
    exact ⟨⟨e, by rw [entities']; exact found, runs⟩, .inr (.inr asks)⟩
  · have state₁ : (s.toState .reserveSent).thread.migrationState = .reserveSent := rfl
    rw [transition_eq state₁] at h
    cases h
    have L' := begun.trans (local_toState F₁.own .none)
    refine ⟨⟨L'.frame F, ?_⟩, L'.others⟩
    rw [L'.chain, chained]
    exact ⟨⟨e, found, runs⟩, .inl rfl⟩

theorem Sound.schedMigrateTask (valid : owner < cfg.count) {newNode : Nat} {r : MigResult}
    (fits : s.wraps cfg (.migrate core newNode room) = false)
    (may : s.begins cfg (.migrate core newNode room) = true → core ≠ owner → asked)
    (h : s.schedMigrateTask cfg core newNode room = some (t, r)) : Kept owner asked s t := by
  unfold MigSystem.schedMigrateTask at h
  split at h
  · cases h; exact ⟨S, fun _ _ => rfl⟩
  rename_i passed
  obtain ⟨-, -, -, free, elsewhere⟩ := migrateRefused_eq_none.mp passed
  rw [S.isOwner] at elsewhere
  have begun : s.begins cfg (.migrate core newNode room) = true := by simp [begins, passed]
  have below : s.thread.migrationEpoch ≠ -1 := by simpa [wraps, begun] using fits
  have S' := S.nextEpoch below newNode free
  have isOwner : (s.nextEpoch newNode).thread.ownerCpu = owner := S.isOwner
  simp only [isOwner] at h
  split at h
  · rename_i here
    subst here
    exact S'.migrateAsOwner valid free rfl elsewhere h
  · rename_i away
    exact S'.migrateAsOther free (may begun (Ne.symm away)) h

/-- Other cores may change an entity that is not runnable. -/
theorem Sound.setOther (other : core ≠ owner) {e : MigEntity}
    (idle : e.runnable = false) : Sound owner asked (s.setEntity core (some e)) := by
  have own : (s.setEntity core (some e)).entity owner = s.entity owner := by
    simp [setEntity, Ne.symm other]
  refine ⟨⟨S.isOwner, S.state, S.ownerState, own ▸ S.own, ?_, ?_, S.handles, S.refused, S.nodup⟩, ?_⟩
  · intro c away e' found
    by_cases here : c = core
    · subst here
      simp only [setEntity, update_self, some.injEq] at found
      exact found ▸ idle
    · simp only [setEntity, update_of_ne here] at found
      exact S.others c away e' found
  · intro c env member
    exact { S.env c env member with }
  · have phase := S.phase
    unfold Fits at phase ⊢
    have chained : (s.setEntity core (some e)).chain = s.chain := rfl
    rw [chained]
    simp only [own]
    exact phase

theorem Sound.respond {handle : Nat} {ack : Bool} {result : Int}
    (refuses : ack = true → ∀ c ∈ s.cmds, c.envelope.handle = handle →
      c.envelope.type ≠ .commitIdentity) : Sound owner asked (s.respond handle ack result) := by
  refine ⟨respond_frame S.toFrame refuses, ?_⟩
  rw [respond_chain]
  exact S.phase

/-- A core takes a command from its ring. -/
theorem Sound.pop {rest : List MigEnvelope} (head : s.inbox core = env :: rest) :
    Sound owner asked { s with inbox := update s.inbox core rest } := by
  refine ⟨⟨S.isOwner, S.state, S.ownerState, S.own, S.others, ?_, S.handles, S.refused, S.nodup⟩,
    S.phase⟩
  intro c env' member
  have before : env' ∈ s.inbox c := by
    by_cases here : c = core
    · subst here
      rw [head]
      exact mem_cons_of_mem _ (by simpa using member)
    · simpa [here] using member
  exact { S.env c env' before with }

end

/-- The owner is told to migrate the thread to itself, and does nothing. -/
theorem schedMigrateTask_owner {out : MigSystem × MigResult} (isOwner : s.thread.ownerCpu = owner)
    (h : s.schedMigrateTask cfg core owner room = some out) : out.1 = s := by
  unfold MigSystem.schedMigrateTask at h
  split at h
  · cases h; rfl
  · rename_i passed
    exact absurd isOwner (migrateRefused_eq_none.mp passed).2.2.2.2

/-- What a command does at the core that takes it. -/
theorem Sound.handle (S : Sound owner asked s) (h : s.handle cfg core room = some t) :
    Sound owner asked t ∧ ((∀ c, c ≠ owner → t.entity c = none) ↔
        (∀ c, c ≠ owner → s.entity c = none) ∧ s.grants (.handle core room) = false) := by
  unfold MigSystem.handle at h
  split at h
  · cases h
  rename_i env rest head
  have ok := S.env core env (by rw [head]; exact mem_cons_self)
  have P := S.pop head
  generalize popped : ({ s with inbox := update s.inbox core rest } : MigSystem) = p at h P
  have entities : p.entity = s.entity := by rw [← popped]
  have cmds : p.cmds = s.cmds := by rw [← popped]
  have threads : p.thread = s.thread := by rw [← popped]
  simp only [grants, head]
  split at h
  · rename_i astray
    cases h
    exact ⟨P, by simp [entities, astray]⟩
  rename_i mine
  rw [not_not] at mine
  have refuses : env.type ≠ .commitIdentity → ∀ c ∈ p.cmds, c.envelope.handle = env.handle →
      c.envelope.type ≠ .commitIdentity :=
    fun other c member same => ok.same c (cmds ▸ member) same ▸ other
  split at h <;> rename_i type
  · -- RESERVE
    have away : core ≠ owner := mine ▸ ok.target (by rw [type]; decide)
    have refuses := refuses (by rw [type]; decide)
    cases h
    unfold handleMigrateReserve
    split
    · rename_i e there
      rw [entities] at there
      split <;> exact ⟨P.respond fun _ => refuses, by simp [MigSystem.respond, entities, there]⟩
    rename_i absent
    rw [entities] at absent
    split
    · rename_i free
      refine ⟨(P.setOther away rfl).respond fun _ => refuses, ?_⟩
      simp only [type, mine, absent, free, and_self, decide_true, Bool.true_eq_false,
        and_false, iff_false, not_forall]
      exact ⟨core, away, by simp [MigSystem.respond, setEntity]⟩
    · rename_i full
      exact ⟨P.respond fun _ => refuses, by simp [MigSystem.respond, entities, full]⟩
  · -- STAGE
    have away : core ≠ owner := mine ▸ ok.target (by rw [type]; decide)
    have refuses := refuses (by rw [type]; decide)
    cases h
    unfold handleMigrateStage
    split
    · exact ⟨P.respond nofun, by simp [MigSystem.respond, entities, type]⟩
    rename_i e there
    split
    · exact ⟨P.respond nofun, by simp [MigSystem.respond, entities, type]⟩
    split
    · have idle := P.others core away e there
      rw [entities] at there
      refine ⟨(P.setOther away (by exact idle)).respond fun _ => refuses, ?_⟩
      have taken : ¬ ∀ c, c ≠ owner → s.entity c = none :=
        fun all => by rw [all core away] at there; cases there
      simp only [taken, false_and, iff_false, not_forall]
      exact ⟨core, away, by simp [MigSystem.respond, setEntity]⟩
    · exact ⟨P.respond fun _ => refuses, by simp [MigSystem.respond, entities, type]⟩
  · -- COMMIT_IDENTITY: the epoch is not newer, and the owner is not the target
    cases h
    have notNewer : ¬ p.thread.migrationEpoch < env.migrationEpoch := by
      rw [threads]
      exact BitVec.not_lt.mpr ok.epoch
    have notOwner : ¬ (p.thread.migrationEpoch = env.migrationEpoch ∧
        p.thread.ownerCpu = env.targetCpu) := by
      rintro ⟨-, same⟩
      exact ok.target (by rw [type]; decide) (same.symm.trans P.isOwner)
    unfold handleMigrateCommitIdentity
    rw [if_neg notNewer, if_neg notOwner]
    exact ⟨P.respond nofun, by simp [MigSystem.respond, entities, type]⟩
  · exact absurd type ok.type.1
  · exact absurd type ok.type.2
  · -- MIGRATE_PREPARE
    obtain ⟨out, called, rfl⟩ := map_eq_some_iff.mp h
    rw [ok.prepare type] at called
    have same := schedMigrateTask_owner P.isOwner called
    rw [same]
    exact ⟨P.respond fun _ => refuses (by rw [type]; decide), by
      simp [MigSystem.respond, entities, type]⟩

/-! ## The end of a phase -/

/-- The phase of `env` is over: no other command of it is pending, and the next phase, if any,
has begun. -/
structure Next (owner : Nat) (asked : Prop) (s : MigSystem) (env : MigEnvelope) (t : MigSystem) : Prop where
  frame : Frame owner t
  others : ∀ core, core ≠ owner → t.entity core = s.entity core
  phase : ∃ later, t.chain = env :: later ∧ (∀ env' ∈ later, env'.handle ≠ env.handle) ∧
    t.Fits owner asked later

theorem Local.next (h : Local owner s t) (N : Next owner asked t env u) :
    Next owner asked s env u :=
  ⟨N.frame, fun core other => (N.others core other).trans (h.others core other), N.phase⟩

section

variable (F : Frame owner s)

include F

theorem next_sent {type : MigCmdType} {dst : Nat} {ring : Bool}
    (chained : s.chain = [env]) (fresh : env.handle < s.nextHandle)
    (aimed : s.thread.migrationTargetCpu ≠ owner)
    (phase : (type = .stage ∧ s.thread.migrationState = .targetPrepared) ∨
      (type = .commitIdentity ∧ s.thread.migrationState = .ownerCommitSent))
    (given : s.submit cfg owner dst type s.thread.migrationTargetCpu ring = some t) :
    Next owner asked s env t := by
  have later : type ≠ .prepare ∧ type ≠ .activate ∧ type ≠ .queryState := by
    rcases phase with ⟨rfl, -⟩ | ⟨rfl, -⟩ <;> decide
  obtain ⟨F', threads, entities, chain'⟩ := submit_spec F given later.2
    (fun prepare => absurd prepare later.1) fun _ => aimed
  refine ⟨F', fun core _ => by rw [entities],
    [⟨s.nextHandle, type, owner, s.thread.migrationTargetCpu, s.thread.migrationEpoch⟩], ?_, ?_, ?_⟩
  · rw [chain', chained, filter_cons_of_pos (by simpa using later.1)]
    rfl
  · intro env' member
    rw [mem_singleton.mp member]
    exact Nat.ne_of_gt fresh
  · refine ⟨by rw [threads], rfl, by rw [threads]; exact aimed, .inr ?_⟩
    rw [threads]
    exact phase

section

variable (valid : owner < cfg.count)

include valid

theorem next_resumed {expected next : SchedMig}
    (chained : s.chain = [env]) (state : s.thread.migrationState = expected)
    (ends : next = .none ∨ next = .failed)
    (h : (s.resumeSource cfg owner room).transition cfg owner expected next = some t) :
    Next owner asked s env t := by
  obtain ⟨L, state', e, found, runs⟩ := resumeSource_spec F valid room
  rw [transition_eq (state'.trans state)] at h
  cases h
  have L' := L.trans (local_toState L.own next)
  exact ⟨L'.frame F, L'.others, [], L'.chain.trans chained, nofun, ⟨e, found, runs⟩,
    ends.imp_right .inl⟩

/-- The command of the next phase is sent, or the source goes on. -/
theorem next_phase {type : MigCmdType} {expected next : SchedMig} (dst : MigSystem → Nat)
    (chained : s.chain = [env]) (fresh : env.handle < s.nextHandle)
    (aimed : s.thread.migrationTargetCpu ≠ owner) (state : s.thread.migrationState = expected)
    (phase : type = .stage ∧ next = .targetPrepared ∨
      type = .commitIdentity ∧ next = .ownerCommitSent)
    (h : ((s.transition cfg owner expected next).bind fun s =>
      let s := s.modifyEntity cfg ({ · with migrationState := next })
      match s.submit cfg owner (dst s) type s.thread.migrationTargetCpu room.ring with
      | some s => some s
      | none => (s.resumeSource cfg owner room).transition cfg owner next .failed) = some t) :
    Next owner asked s env t := by
  rw [transition_eq state, bind_some] at h
  have L₁ := local_toState F.own next
  obtain ⟨e, found⟩ := isSome_iff_exists.mp L₁.own
  rw [modifyEntity_eq (L₁.frame F) valid found] at h
  have L₂ := L₁.trans (local_setEntity { e with migrationState := next })
  generalize moved : (s.toState next).setEntity owner (some { e with migrationState := next }) = v
    at h L₂
  have state₂ : v.thread.migrationState = next := by rw [← moved]; rfl
  dsimp only at h
  split at h
  · rename_i given
    cases h
    exact L₂.next (next_sent (L₂.frame F) (L₂.chain.trans chained) (L₂.nextHandle ▸ fresh)
      (L₂.target ▸ aimed) (by rwa [state₂]) given)
  · exact L₂.next (next_resumed (L₂.frame F) valid (L₂.chain.trans chained) state₂ (.inr rfl) h)

theorem next_reserveDone {acked : Bool} {e : MigEntity}
    (chained : s.chain = [env]) (fresh : env.handle < s.nextHandle)
    (aimed : s.thread.migrationTargetCpu ≠ owner) (state : s.thread.migrationState = .reserveSent)
    (found : s.entity owner = some e) (runs : e.runnable = true)
    (h : s.reserveDone cfg owner acked room = some t) : Next owner asked s env t := by
  unfold reserveDone at h
  split at h
  · rw [modifyEntity_eq F valid found] at h
    generalize (⟨.sourceFrozen, e.migrationEpoch, false⟩ : MigEntity) = frozen at h
    have L := @local_setEntity owner s frozen
    have state₁ : (s.setEntity owner (some frozen)).thread.migrationState = .reserveSent := state
    rw [transition_eq state₁, bind_some] at h
    have L₁ := L.trans (local_toState (L.frame F).own .sourceFrozen)
    have F₁ := L₁.frame F
    split at h
    · exact L₁.next (next_phase F₁ valid (·.thread.migrationTargetCpu) (L₁.chain.trans chained)
        (L₁.nextHandle ▸ fresh) (L₁.target ▸ aimed) rfl (.inl ⟨rfl, rfl⟩) h)
    · exact L₁.next (next_resumed F₁ valid (L₁.chain.trans chained) rfl (.inr rfl) h)
  · rw [modifyEntity_eq F valid found] at h
    have L := @local_setEntity owner s { e with migrationState := .none }
    have state₁ : (s.setEntity owner (some { e with
      migrationState := .none })).thread.migrationState = .reserveSent := state
    rw [transition_eq state₁] at h
    cases h
    have L₁ := L.trans (local_toState (L.frame F).own .none)
    exact ⟨L₁.frame F, L₁.others, [], L₁.chain.trans chained, nofun,
      ⟨{ e with migrationState := .none }, by simp [toState, setEntity], runs⟩, .inl rfl⟩

theorem next_stageDone {acked : Bool}
    (chained : s.chain = [env]) (fresh : env.handle < s.nextHandle)
    (aimed : s.thread.migrationTargetCpu ≠ owner)
    (state : s.thread.migrationState = .targetPrepared)
    (h : s.stageDone cfg owner acked room = some t) : Next owner asked s env t := by
  unfold stageDone at h
  split at h
  · split at h
    · exact next_phase F valid (fun _ => cfg.home) chained fresh aimed state (.inr ⟨rfl, rfl⟩) h
    · exact next_resumed F valid chained state (.inr rfl) h
  · exact next_resumed F valid chained state (.inl rfl) h

end

end

/-- The command of a phase is over. -/
theorem Next.release (N : Next owner asked s env t) :
    Kept owner asked s (t.release env.handle) := by
  obtain ⟨later, chained, fresh, phase⟩ := N.phase
  refine ⟨⟨release_frame N.frame _, ?_⟩, N.others⟩
  have left : (t.release env.handle).chain = later := by
    rw [release_chain, chained, filter_cons_of_neg (by simp),
      filter_eq_self.mpr fun env' member => by simpa using fresh env' member]
  rw [left]
  exact phase

/-- A command that does not belong to a phase is over. -/
theorem Sound.release_prepare (S : Sound owner asked s) {c : MigCmd} (member : c ∈ s.cmds)
    (prepare : c.envelope.type = .prepare) : Kept owner asked s (s.release c.envelope.handle) := by
  refine ⟨⟨release_frame S.toFrame _, ?_⟩, fun _ _ => rfl⟩
  have left : (s.release c.envelope.handle).chain = s.chain := by
    rw [release_chain, filter_eq_self]
    intro env inChain
    obtain ⟨inMap, phase⟩ := mem_filter.mp inChain
    obtain ⟨c', member', rfl⟩ := List.mem_map.mp inMap
    rw [decide_eq_true_iff]
    intro same
    have equal : c' = c := inj_on_of_nodup_map S.nodup member' member same
    rw [equal, prepare] at phase
    exact absurd phase (by decide)
  rw [left]
  exact S.phase

theorem Sound.finish (S : Sound owner asked s) (valid : owner < cfg.count) {handle : Nat}
    {timedOut : Bool} (h : s.finish cfg handle timedOut room = some t) : Kept owner asked s t := by
  obtain ⟨c, found, h⟩ := bind_eq_some_iff.mp h
  obtain ⟨⟨acked, result⟩, outcome, h⟩ := bind_eq_some_iff.mp h
  obtain ⟨u, after, rfl⟩ := map_eq_some_iff.mp h
  have member := mem_of_find?_eq_some found
  have handled : c.envelope.handle = handle := by simpa using find?_some found
  subst handled
  by_cases prepare : c.envelope.type = .prepare
  · have same : u = s := by
      unfold MigSystem.after at after
      rw [prepare] at after
      split at after <;> exact (some.inj after).symm
    rw [same]
    exact S.release_prepare member prepare
  have inChain : c.envelope ∈ s.chain :=
    mem_filter.mpr ⟨List.mem_map_of_mem member, by simpa using prepare⟩
  have fresh := S.handles c member
  have phase := S.phase
  match chained : s.chain, phase with
  | [], _ => rw [chained] at inChain; cases inChain
  | [env], phase =>
    rw [chained, mem_singleton] at inChain
    subst inChain
    obtain ⟨epoch, source, aimed, phase⟩ := phase
    unfold MigSystem.after at after
    rw [if_neg (not_not.mpr epoch.symm), source] at after
    rcases phase with ⟨type, state, e, there, runs⟩ | ⟨type, state⟩ | ⟨type, state⟩ <;>
      rw [type] at after
    · exact (next_reserveDone S.toFrame valid chained fresh aimed state there runs after).release
    · exact (next_stageDone S.toFrame valid chained fresh aimed state after).release
    have nacked : acked = false := by
      cases acked with
      | false => rfl
      | true =>
        split at outcome
        · cases outcome
        · exact absurd outcome (S.refused c member type result)
    subst nacked
    exact (next_resumed S.toFrame valid chained state (.inl rfl) after).release
  | _ :: _ :: _, phase => exact phase.elim

/-! ## Whole runs -/

theorem sound_boot (owner : Nat) (asked : Prop) (mask : BitVec 32) :
    Sound owner asked (boot owner mask) where
  isOwner := rfl
  state := rfl
  ownerState := rfl
  own := by simp [boot]
  others core other e found := by simp [boot, other] at found
  env := nofun
  handles := nofun
  refused := nofun
  nodup := nodup_nil
  phase := ⟨⟨⟨.none, 0, true⟩, by simp [boot], rfl⟩, .inl rfl⟩

theorem Sound.step (S : Sound owner asked s) (valid : owner < cfg.count) {a : MigAction}
    (fits : s.wraps cfg a = false)
    (may : ∀ core newNode room, a = .migrate core newNode room → s.begins cfg a = true →
      core ≠ owner → asked) (h : s.step cfg a = some t) : Sound owner asked t ∧
      ((∀ c, c ≠ owner → t.entity c = none) ↔
        (∀ c, c ≠ owner → s.entity c = none) ∧ s.grants a = false) := by
  have kept : Kept owner asked s t → s.grants a = false → Sound owner asked t ∧
      ((∀ c, c ≠ owner → t.entity c = none) ↔
        (∀ c, c ≠ owner → s.entity c = none) ∧ s.grants a = false) := by
    rintro ⟨S', others⟩ nothing
    refine ⟨S', ?_⟩
    rw [nothing, eq_self, and_true]
    exact forall₂_congr fun c other => by rw [others c other]
  cases a with
  | migrate core newNode room =>
    obtain ⟨⟨t', r⟩, called, rfl⟩ := map_eq_some_iff.mp h
    exact kept (S.schedMigrateTask valid fits (may core newNode room rfl) called) rfl
  | handle core room => exact S.handle h
  | finish handle timedOut room => exact kept (S.finish valid h) rfl

/-- No core but the owner has an entity of the thread after a run iff none was given one. -/
theorem Sound.exec (S : Sound owner True s) (valid : owner < cfg.count) {actions : List MigAction}
    (fits : never (wraps cfg) cfg s actions = true)
    (h : exec (MigSystem.step cfg) s actions = some t) : Sound owner True t ∧
      ((∀ c, c ≠ owner → t.entity c = none) ↔
        (∀ c, c ≠ owner → s.entity c = none) ∧ never grants cfg s actions = true) := by
  induction actions generalizing s with
  | nil =>
    cases h
    exact ⟨S, by simp [never]⟩
  | cons a rest ih =>
    obtain ⟨s', now, later⟩ := bind_eq_some_iff.mp h
    rw [never, now, Bool.and_eq_true, Bool.not_eq_true'] at fits
    obtain ⟨S', first⟩ := S.step valid fits.1 (fun _ _ _ _ _ _ => trivial) now
    obtain ⟨T, more⟩ := ih S' fits.2 later
    refine ⟨T, ?_⟩
    rw [more, first, never, now, and_assoc, Bool.and_eq_true, Bool.not_eq_true']

/-- As long as the epoch does not wrap, no two cores have a runnable entity of the thread. When no
command is outstanding, the thread is quarantined or has one entity, a runnable one of its owner,
iff in the whole run no core gave it a reserved entity. -/
theorem migration_keeps_one (valid : owner < cfg.count) {mask : BitVec 32}
    {actions : List MigAction} (h : exec (step cfg) (boot owner mask) actions = some s)
    (fits : never (wraps cfg) cfg (boot owner mask) actions = true) :
    (∀ c c' e e', s.entity c = some e → s.entity c' = some e' →
      e.runnable = true → e'.runnable = true → c = c') ∧
    (¬ s.Outstanding → ((s.thread.stateQuarantined = true ∨ s.OneEntity) ↔
      never grants cfg (boot owner mask) actions = true)) := by
  obtain ⟨S, others⟩ := (sound_boot owner True mask).exec valid fits h
  have atOwner : ∀ c e, s.entity c = some e → e.runnable = true → c = owner := by
    intro c e found runs
    by_contra other
    rw [S.others c other e found] at runs
    cases runs
  refine ⟨fun c c' e e' found found' runs runs' =>
    (atOwner c e found runs).trans (atOwner c' e' found' runs').symm, fun quiet => ?_⟩
  have nobody : ∀ c, c ≠ owner → (boot owner mask).entity c = none := fun c other => by
    simp [boot, other]
  have done : s.cmds = [] := by
    by_contra pending
    exact quiet (.inl pending)
  have idle : s.chain = [] := by
    rw [chain, done]
    rfl
  have phase := S.phase
  rw [idle] at phase
  rw [S.state, OneEntity, S.isOwner, others]
  simp only [Bool.false_eq_true, false_or]
  exact ⟨fun one => one.2.2, fun never => ⟨phase.1, nobody, never⟩⟩

/-- The target has no free entity, and the migration ends where it began. -/
theorem migration_keeps_one_refused :
    ∃ s, exec (step ⟨2, 0, false⟩) (boot 0 3) [.migrate 0 1 ⟨true, true, true, true⟩,
        .handle 1 ⟨true, true, false, true⟩, .finish 0 false ⟨true, true, true, true⟩] = some s ∧
      ¬ s.Outstanding ∧ (s.thread.stateQuarantined = true ∨ s.OneEntity) := by
  have run := @migration_keeps_one ⟨2, 0, false⟩ 0 _ (by decide) 3
    [.migrate 0 1 ⟨true, true, true, true⟩, .handle 1 ⟨true, true, false, true⟩,
      .finish 0 false ⟨true, true, true, true⟩] rfl (by decide)
  refine ⟨_, rfl, ?quiet, (run.2 ?quiet).mpr (by decide)⟩
  rintro (pending | ⟨core, waiting⟩)
  · exact pending rfl
  · refine waiting ?_
    by_cases here : core = 1
    · rw [here]
      rfl
    · exact (update_of_ne here _ _).trans (update_of_ne here _ _)

/-- The target reserves an entity, is told the state of the thread, and keeps the entity when the
source can not send the commit to itself. -/
theorem migration_leaves_entity :
    ∃ s, exec (step ⟨2, 0, false⟩) (boot 0 3) [.migrate 0 1 ⟨true, true, true, true⟩,
        .handle 1 ⟨true, true, true, true⟩, .finish 0 false ⟨true, true, true, true⟩,
        .handle 1 ⟨true, true, true, true⟩, .finish 1 false ⟨true, true, true, true⟩] = some s ∧
      ¬ s.Outstanding ∧ ¬ (s.thread.stateQuarantined = true ∨ s.OneEntity) := by
  refine ⟨_, rfl, ?_, ?_⟩
  · rintro (pending | ⟨core, waiting⟩)
    · exact pending rfl
    · refine waiting ?_
      by_cases here : core = 1
      · rw [here]
        rfl
      · exact (update_of_ne here _ _).trans <| (update_of_ne here _ _).trans <|
          (update_of_ne here _ _).trans (update_of_ne here _ _)
  · rintro (quarantined | ⟨-, alone⟩)
    · cases quarantined
    · have kept := alone 1 (by decide)
      cases kept

end MigSystem

end BharatOS
