import BharatOS.Sched.Rings

/-!
# The slots of the outbound commands

A command holds one of the slots of its core until the core has seen its reply or its time is
over.
-/

namespace BharatOS

open List

namespace SchedSystem

open SchedCmdType

variable {cfg : SchedConfig} {core handle : Nat} {s u : SchedSystem} {cmd : SchedCmd}

/-- A slot that is taken waits for a reply and has a deadline, or its command was refused and is of
a kind that is not released then. -/
def Submitted (s : SchedSystem) : Prop :=
  ∀ cmd ∈ s.mail.cmds, cmd.pending = true ∨ cmd.envelope.type.unreleased = true

theorem Submitted.posts {sends : SchedCmdType → Prop} (h : Submitted s)
    (posts : Posts core sends s u) : Submitted u := by
  intro cmd member
  rcases posts.cmds cmd member with ⟨old, present, same, pending⟩ | ⟨-, -, new⟩
  · rw [← same, ← pending]
    exact h old present
  · exact new

theorem submitted_run {policy : Nat → SchedPolicy}
    (run : SchedRun cfg (fun _ _ => True) (boot policy) s) : Submitted s := by
  refine run.invariant _ nofun fun s a u h _ step => ?_
  have within : Within (fun _ => True) s := ⟨fun _ _ _ => trivial, fun _ _ => trivial⟩
  exact h.posts (posts_act closed_all within (.inr fun _ => trivial) (act_of_step step))

/-- A command whose time is over does not keep its slot. -/
theorem finishCommand_frees (h : s.finishCommand cfg core handle true = some u)
    (member : cmd ∈ u.mail.cmds) (own : cmd.envelope.originCpu = core)
    (pending : cmd.pending = true) : cmd.envelope.handle ≠ handle := by
  have released : ∀ {m : SchedSystem}, cmd ∈ (m.schedRemoteCmdRelease handle).mail.cmds →
      cmd.envelope.handle ≠ handle := fun kept => of_decide_eq_true (mem_filter.mp kept).2
  unfold finishCommand at h
  split at h
  · rename_i unknown
    cases h
    simpa [own, pending] using find?_eq_none.mp unknown cmd member
  · split at h
    · obtain ⟨m, -, rfl⟩ := Option.map_eq_some_iff.mp h
      exact released member
    · obtain ⟨m, -, rfl⟩ := Option.map_eq_some_iff.mp h
      exact released member

/-- What is pending after a poll was sent by it, or was pending before and was not late. -/
theorem pending_after_poll {polled : List (Nat × Bool)}
    (h : schedRemoteCmdPollTimeouts cfg core polled s = some u) (member : cmd ∈ u.mail.cmds)
    (own : cmd.envelope.originCpu = core) (pending : cmd.pending = true) :
    s.mail.nextHandle ≤ cmd.envelope.handle ∧ cmd.envelope.type.continues = true ∨
      (cmd.envelope.handle, true) ∉ polled ∧
      ∃ old ∈ s.mail.cmds, old.envelope = cmd.envelope ∧ old.pending = true := by
  induction polled generalizing s with
  | nil =>
    cases h
    exact .inr ⟨not_mem_nil, cmd, member, rfl, pending⟩
  | cons first rest ih =>
    obtain ⟨m, finished, h⟩ := Option.bind_eq_some_iff.mp h
    have posts := (quiet_finishCommand finished).toPosts
    rcases ih h with ⟨later, type⟩ | ⟨early, old, present, same, held⟩
    · exact .inl ⟨posts.handles.trans later, type⟩
    rcases posts.cmds old present with ⟨before, there, same', held'⟩ | ⟨type, later, -⟩
    · refine .inr ⟨fun listed => ?_, before, there, same'.trans same, held'.trans held⟩
      rcases mem_cons.mp listed with rfl | listed
      · exact finishCommand_frees finished present (same ▸ own) held (by rw [same])
      · exact early listed
    · exact .inl (same ▸ ⟨later, type⟩)

/-- Between the calls every slot that is taken waits for a reply and has a deadline, unless it
holds a steal request or a query that was refused. When the deadlines of a core have passed, a poll
frees the slots that wait; what it sends itself, to go on with a migration, holds a slot
afterwards. -/
theorem slots_released {policy : Nat → SchedPolicy}
    (run : SchedRun cfg (fun _ _ => True) (boot policy) s) : Submitted s ∧ ∀ core polled u,
      (∀ cmd ∈ s.mail.cmds, cmd.envelope.originCpu = core → (cmd.envelope.handle, true) ∈ polled) →
      schedRemoteCmdPollTimeouts cfg core polled s = some u →
      ∀ cmd ∈ u.mail.cmds, cmd.envelope.originCpu = core →
        cmd.pending = false ∧ cmd.envelope.type.unreleased = true ∨
          s.mail.nextHandle ≤ cmd.envelope.handle ∧ cmd.envelope.type.continues = true := by
  have submitted := submitted_run run
  refine ⟨submitted, fun core polled u late polls cmd member own => ?_⟩
  have after := submitted.posts (quiet_schedRemoteCmdPollTimeouts polls).toPosts cmd member
  cases pending : cmd.pending with
  | false => exact .inl ⟨rfl, after.resolve_left (by simp [pending])⟩
  | true =>
    rcases pending_after_poll polls member own pending with later | ⟨early, old, present, same, -⟩
    · exact .inr later
    have listed := late old present (same ▸ own)
    rw [same] at listed
    exact absurd listed early

/-- A thread of core 0 is to migrate to core 1, which has reserved an entity for it. -/
def reserved : List SchedAction :=
  [.create 0 true, .enqueue 0 ⟨0, 0⟩ 0, .migrate 0 ⟨1, 0, 0⟩ 1, .reschedule 1 []]

/-- The time of the only command of core 0 is over, and a poll frees its slot. -/
theorem slots_released_reserved : ∃ s u,
    SchedRun (.open 2) (fun _ _ => True) (boot fun _ => .roundRobin) s ∧
    s.mail.cmds.map (·.envelope.handle) = [0] ∧
    schedRemoteCmdPollTimeouts (.open 2) 0 [(0, true)] s = some u ∧
    ∀ cmd ∈ u.mail.cmds, cmd.envelope.originCpu = 0 →
      cmd.pending = false ∧ cmd.envelope.type.unreleased = true ∨
        s.mail.nextHandle ≤ cmd.envelope.handle ∧ cmd.envelope.type.continues = true := by
  obtain ⟨s, ends, taken, u, polls⟩ :
      ∃ s, exec (step (.open 2)) (boot fun _ => .roundRobin) reserved = some s ∧
      s.mail.cmds.map (·.envelope.handle) = [0] ∧
      ∃ u, schedRemoteCmdPollTimeouts (.open 2) 0 [(0, true)] s = some u := by decide +kernel
  have run := run_of_exec ends
  refine ⟨s, u, run, taken, polls, (slots_released run).2 0 _ u (fun cmd member _ => ?_) polls⟩
  have handle : cmd.envelope.handle ∈ s.mail.cmds.map (·.envelope.handle) :=
    List.mem_map_of_mem member
  rw [taken] at handle
  rw [mem_singleton.mp handle]
  exact mem_singleton.mpr rfl

/-- Core 1 has reserved an entity in time, and core 0 polls when every deadline has passed. It
goes on with the migration: a command takes a slot again. -/
theorem slot_taken_by_poll : ∃ s u,
    SchedRun (.open 2) (fun _ _ => True) (boot fun _ => .roundRobin) s ∧
    s.mail.cmds.map (fun c => (c.envelope.type, c.envelope.handle)) = [(.migrateReserve, 0)] ∧
    schedRemoteCmdPollTimeouts (.open 2) 0 [(0, true)] s = some u ∧
    u.mail.cmds.map (fun c => (c.envelope.type, c.envelope.originCpu, c.pending)) =
      [(.migrateStage, 0, true)] := by
  simp only [exists_and_left]
  exact found_run reserved (by decide +kernel)

end SchedSystem

end BharatOS
