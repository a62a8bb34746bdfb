import BharatOS.Sched.Steady

/-!
# What is in the rings

Which commands the calls send. The calls that create, run and end threads send `plain` commands
only, and as long as all commands are plain, so are those that the polls and the handlers send.
-/

namespace BharatOS

open Option

def SchedCmdType.plain : SchedCmdType → Bool
  | .enqueue | .wake | .terminate | .reap | .stealReq => true
  | _ => false

/-- The calls that do not begin to change the attributes of a thread or to move it. -/
def SchedAction.plain : SchedAction → Bool
  | .setPriority .. | .setAffinity .. | .setConstraints .. | .quarantine .. | .handoff ..
  | .migrate .. => false
  | _ => true

/-- Types of commands that contain the plain ones, and with any other one all of them. -/
structure SchedCmdType.Closed (sends : SchedCmdType → Prop) : Prop where
  plain : ∀ type, type.plain = true → sends type
  other : ∀ type, sends type → type.plain = false → ∀ type', sends type'

theorem SchedCmdType.closed_all : Closed fun _ => True := ⟨fun _ _ => trivial, fun _ _ _ _ => trivial⟩

theorem SchedCmdType.closed_plain : Closed (·.plain = true) :=
  ⟨fun _ => id, fun _ plain other => absurd plain (by simp [other])⟩

namespace SchedSystem

open Scope SchedCmdType

/-- All commands are of these types. -/
structure Within (sends : SchedCmdType → Prop) (s : SchedSystem) : Prop where
  rings : ∀ c, ∀ env ∈ s.mail.inbox c, sends env.type
  cmds : ∀ cmd ∈ s.mail.cmds, sends cmd.envelope.type

variable {cfg : SchedConfig} {core : Nat} {s u : SchedSystem} {t : ThreadRef}
  {sends : SchedCmdType → Prop} {env : SchedEnvelope}

theorem Within.posts (within : Within sends s) (h : Posts core sends s u) : Within sends u where
  rings c env member := (h.sent c env member).elim (within.rings c env) (·.2.1)
  cmds cmd member := by
    rcases h.cmds cmd member with ⟨old, present, same, -⟩ | new
    · rw [← same]; exact within.cmds old present
    · exact new.1

variable {scope : Scope} {moves : ThreadRef → Prop} {acked ack : Bool}
  {ok : SchedSystem → SchedAction → Prop} {policy : Nat → SchedPolicy}

theorem Quiet.posts (h : Quiet core scope s u) (sub : ∀ type, scope.sends type → sends type) :
    Posts core sends s u :=
  h.toPosts.weaken sub

theorem Quiet.posts_nothing (h : Quiet core (moving moves) s u) : Posts core sends s u :=
  h.posts fun _ => False.elim

/-! ## Polls -/

variable {result code : Int} {polled : List (Nat × Bool)} {a : SchedAction} {goesOn : Bool}

/-- The end of a plain command moves nothing on. -/
theorem afterCommand_plain (plain : env.type.plain = true)
    (h : s.afterCommand cfg core env acked result = some u) : u = s := by
  unfold afterCommand at h
  split at h
  · cases h; rfl
  split_ifs at h
  · cases h; rfl
  split at h
  all_goals first
    | (rename_i type; rw [type] at plain; cases plain)
    | (cases h; rfl)

/-! ## Work that changes neither a current thread nor a budget -/

/-- What the core executes stays, and it sends only such commands. -/
structure Works (core : Nat) (sends : SchedCmdType → Prop) (s u : SchedSystem) : Prop extends
    Steady s u, Posts core sends s u

namespace Works

theorem of_mail (steady : Steady s u) (same : u.mail = s.mail) : Works core sends s u :=
  ⟨steady, .of_mail same⟩

protected theorem refl (s : SchedSystem) : Works core sends s s := .of_mail (.refl s) rfl

theorem trans {m : SchedSystem} (first : Works core sends s m) (second : Works core sends m u) :
    Works core sends s u :=
  ⟨first.toSteady.trans second.toSteady, first.toPosts.trans second.toPosts⟩

instance : IsPreorder SchedSystem (Works core sends) where
  refl := .refl
  trans _ _ _ := .trans

theorem starts {P Q : Prop} (h : Works core sends s u) :
    Posts core sends s u ∧ (P → Still s u ∨ Q) :=
  ⟨h.toPosts, fun _ => .inl h.toStill⟩

end Works

theorem Quiet.works (h : Quiet core scope s u) (sub : ∀ type, scope.sends type → sends type) :
    Works core sends s u :=
  ⟨h.steady, h.posts sub⟩

theorem Quiet.works_nothing (h : Quiet core (moving moves) s u) : Works core sends s u :=
  ⟨h.steady, h.posts_nothing⟩

theorem works_schedEnqueueReap : Works core sends s (s.schedEnqueueReap cfg t).1 := by
  unfold schedEnqueueReap
  simp only
  split_ifs
  · exact .refl s
  · exact .refl s
  dsimp only
  exact .of_mail ((Steady.modifySlot ⟨rfl, rfl⟩).trans (.modifyRq ⟨rfl, rfl, rfl⟩)) rfl

/-- A handler of a plain command that neither terminates nor reaps a thread may wake one. -/
theorem quiet_handleCommand_plain
    (wakes : Ends (Quiet core scope) (·.1) s (s.schedHandleRemoteWake cfg core env))
    (plain : env.type.plain = true) (type : env.type ≠ .terminate ∧ env.type ≠ .reap) :
    Ends (Quiet core scope) (·.1) s (s.handleCommand cfg core env) := by
  cases sent : env.type with
  | wake => simpa only [handleCommand, sent] using wakes
  | stealReq =>
    simp only [handleCommand, sent]
    exact .ite .same .never
  | enqueue =>
    simp only [handleCommand, sent]
    exact .same
  | terminate => exact absurd sent type.1
  | reap => exact absurd sent type.2
  | _ => rw [sent] at plain; cases plain

/-- An envelope is taken out of the ring. -/
theorem posts_take (core : Nat) {c : Nat} {rest : List SchedEnvelope}
    (head : s.mail.inbox c = env :: rest) : Posts core sends s
      { s with mail := { s.mail with inbox := Function.update s.mail.inbox c rest } } where
  sent d env' member := by
    by_cases same : d = c
    · subst same
      rw [head]
      exact .inl (List.mem_cons_of_mem _ (by simpa using member))
    · exact .inl (by simpa [same] using member)
  cmds cmd member := .inl ⟨cmd, member, rfl, rfl⟩
  handles := Nat.le_refl _

theorem works_freeStack (cfg : SchedConfig) (s : SchedSystem) (t : ThreadRef) :
    Works core sends s (s.freeStack cfg t) := by
  unfold freeStack
  split_ifs
  · have cleared : Steady s (s.modifyThread t ({ · with kernelStack := false })) :=
      .modifyThread ⟨rfl, rfl⟩
    exact .of_mail (cleared.trans { Steady.refl _ with }) rfl
  · exact .refl s

theorem works_reclaim {r : ThreadRef} : Works core sends s (s.reclaim cfg core t r) := by
  have freed : Works core sends s (((s.freeEntityOf cfg (s.thread t).ownerCpu t).freeStack cfg
      t).modifySlot r ({ · with inUse := false, reapPending := false })) :=
    (quiet_freeEntityOf s _ t : Quiet core nobody _ _).works_nothing.trans
      ((works_freeStack cfg _ t).trans (.of_mail (.modifySlot ⟨rfl, rfl⟩) rfl))
  unfold reclaim
  simp only
  split_ifs
  · exact freed
  · exact freed.trans (.of_mail (.modifyRq ⟨rfl, rfl, rfl⟩) rfl)

theorem works_threadDestroy :
    Ends (Works core sends) (·.1) s (s.threadDestroy cfg core t) := by
  rintro ⟨u, _⟩ h
  obtain ⟨rfl, _⟩ | ⟨r, m, _, _, _, _, relinks, rfl⟩ := threadDestroy_cases h
  · exact .refl u
  have pending : Works core sends s (s.modifySlot r ({ · with reapPending := true })) :=
    .of_mail (.modifySlot ⟨rfl, rfl⟩) rfl
  exact pending.trans ((relinks.quiet : Quiet core nobody _ _).works_nothing.trans works_reclaim)

theorem works_reapLoop {fuel : Nat} : Ends (Works core sends) (·) s (reapLoop cfg core fuel s) := by
  induction fuel generalizing s with
  | zero => exact .same
  | succ fuel ih =>
    unfold reapLoop
    split
    · exact .same
    rename_i idx rest _
    have popped : Steady s ((s.modifyRq core ({ · with reapQueue := rest })).modifySlot ⟨core, idx⟩
        ({ · with reapPending := false })) :=
      (Steady.modifyRq ⟨rfl, rfl, rfl⟩).trans (.modifySlot ⟨rfl, rfl⟩)
    exact .after (.of_mail popped rfl) (.bind works_threadDestroy fun _ => ih)

theorem posts_dispatchNext (h : s.dispatchNext cfg core = some u) : Posts core sends s u := by
  rcases dispatchNext_cases h with ⟨quiet, -⟩ | ⟨n, m, -, -, quiet, rfl⟩
  · exact quiet.posts_nothing
  · exact quiet.posts_nothing.trans (.of_mail rfl)

/-! ## Whole calls -/

theorem Charges.posts (h : Charges core t s u) : Posts core sends s u := by
  obtain ⟨consumed, attr, quiet⟩ := h
  have paid : Posts core sends s (s.setBudget t consumed attr) := .of_mail rfl
  exact paid.trans quiet.posts_nothing

theorem posts_threadCreateDetached {c : Nat} {fits : Bool} :
    Posts core sends s (s.threadCreateDetached c fits) := by
  refine .of_mail ?_
  unfold threadCreateDetached
  split
  · rfl
  split_ifs <;> rfl

section

variable (closed : Closed sends)

include closed

theorem posts_afterCommand (type : sends env.type)
    (h : s.afterCommand cfg core env acked result = some u) : Posts core sends s u := by
  cases plain : env.type.plain with
  | true => rw [afterCommand_plain plain h]; exact .of_mail rfl
  | false => exact (quiet_afterCommand h).posts fun type' _ => closed.other _ type plain type'

theorem works_handToReaper : Works core sends s (s.handToReaper cfg core t).1 := by
  unfold handToReaper
  split_ifs
  · exact works_schedEnqueueReap
  · refine Quiet.works (?_ : Quiet core (sending (· = .reap)) s _) ?_
    · exact quiet_schedRemoteSubmit (addressed_plain rfl rfl (by simp)) rfl
    · rintro _ rfl
      exact closed.plain _ rfl
  · exact .refl s

theorem works_schedMarkThreadTerminated
    (h : s.schedMarkThreadTerminated cfg core t = some (u, code)) : Works core sends s u := by
  obtain ⟨_, ⟨rfl, _⟩ | ⟨_, _, rfl⟩ | ⟨_, _, m, relinks, rfl⟩⟩ :=
    schedMarkThreadTerminated_cases h
  · exact .refl u
  · exact works_schedEnqueueReap
  have marked : Works core sends s (s.terminating t) := .of_mail (.modifyThread ⟨rfl, rfl⟩) rfl
  exact marked.trans ((relinks.quiet : Quiet core nobody _ _).works_nothing.trans
    (works_handToReaper closed))

theorem works_handleCommand
    (valid : schedValidateRemoteEnvelope cfg core env = true) (type : sends env.type)
    (h : s.handleCommand cfg core env = some (u, ack, result)) : Works core sends s u := by
  obtain rfl | ⟨terminate, reap, quiet⟩ | ⟨t, _, _, marked⟩ | ⟨t, rfl⟩ :=
    handleCommand_cases valid h
  · exact .refl u
  · cases plain : env.type.plain with
    | true => exact (quiet_handleCommand_plain quiet_schedHandleRemoteWake plain
        ⟨terminate, reap⟩ h).works_nothing
    | false => exact quiet.works fun type' _ => closed.other _ type plain type'
  · exact works_schedMarkThreadTerminated closed marked
  · exact works_schedEnqueueReap

theorem works_receive (type : sends env.type)
    (h : s.receive cfg core env = some u) : Works core sends s u := by
  unfold receive at h
  split_ifs at h with valid
  · obtain ⟨⟨m, ack, result⟩, hm, rfl⟩ := map_eq_some_iff.mp h
    exact (works_handleCommand closed valid type hm).trans
      (quiet_respond : Quiet core nobody _ _).works_nothing
  · cases h; exact .refl _

theorem posts_wakes : ∀ type, type = .wake ∨ type = .enqueue → sends type := by
  rintro _ (rfl | rfl) <;> exact closed.plain _ rfl

/-- What the quiet calls send is plain, or the call is not. -/
theorem scope_sends (calls : a.plain = true ∨ ∀ type, sends type)
    (quiet : a.scope = some scope) (type : SchedCmdType) (sent : scope.sends type) :
    sends type := by
  rcases calls with plain | all
  · cases a with
    | enqueue => cases quiet; cases sent; exact closed.plain _ rfl
    | wake => cases quiet; exact posts_wakes closed type sent
    | block | reschedule | time | isolate => cases quiet; cases sent
    | setPriority | setAffinity | setConstraints | quarantine | handoff | migrate => cases plain
    | _ => cases quiet
  · exact all type

variable (within : Within sends s)

include within

theorem posts_finishCommand {handle : Nat}
    {late : Bool} (h : s.finishCommand cfg core handle late = some u) : Posts core sends s u := by
  obtain rfl | ⟨cmd, member, _, _, m, after, rfl⟩ := finishCommand_cases h
  · exact .of_mail rfl
  exact (posts_afterCommand closed (within.cmds cmd member) after).trans
    (quiet_schedRemoteCmdRelease : Quiet core nobody _ _).posts_nothing

theorem posts_schedRemoteCmdPollTimeouts
    (h : schedRemoteCmdPollTimeouts cfg core polled s = some u) : Posts core sends s u := by
  induction polled generalizing s with
  | nil => cases h; exact .of_mail rfl
  | cons first rest ih =>
    obtain ⟨m, hm, h⟩ := bind_eq_some_iff.mp h
    have posts := posts_finishCommand closed within hm
    exact posts.trans (ih (within.posts posts) h)

theorem works_schedRemoteCmdPollTimeouts
    (h : schedRemoteCmdPollTimeouts cfg core polled s = some u) : Works core sends s u :=
  ⟨(quiet_schedRemoteCmdPollTimeouts h).steady, posts_schedRemoteCmdPollTimeouts closed within h⟩

theorem works_drain {budget : Nat}
    (h : drain cfg core budget s = some u) : Works core sends s u := by
  induction budget generalizing s with
  | zero => cases h; exact .refl _
  | succ budget ih =>
    unfold drain at h
    split at h
    · cases h; exact .refl _
    rename_i env rest head
    obtain ⟨m, hm, h⟩ := bind_eq_some_iff.mp h
    have type := within.rings core env (by rw [head]; exact List.mem_cons_self)
    have works := Works.trans ⟨.withMail, posts_take core head⟩ (works_receive closed type hm)
    exact works.trans (ih (within.posts works.toPosts) h)

/-- A core polls, reaps and drains before it chooses the next thread. -/
theorem schedReschedule_cases (h : s.schedReschedule cfg core polled = some u) :
    ∃ m, Works core sends s m ∧ m.dispatchNext cfg core = some u := by
  obtain ⟨m₁, polls, h⟩ := bind_eq_some_iff.mp h
  obtain ⟨m₂, reaps, h⟩ := bind_eq_some_iff.mp h
  obtain ⟨m₃, drains, h⟩ := bind_eq_some_iff.mp h
  have before := (works_schedRemoteCmdPollTimeouts closed within polls).trans (works_reapLoop reaps)
  exact ⟨m₃, before.trans (works_drain closed (within.posts before.toPosts) drains), h⟩

theorem works_tickHousekeeping
    (h : s.tickHousekeeping cfg core polled = some u) : Works core sends s u := by
  obtain ⟨m₁, m₂, m₃, polls, wakes, reaps, balances⟩ := tickHousekeeping_cases h
  refine (works_schedRemoteCmdPollTimeouts closed within polls).trans
    ((wakes.works (posts_wakes closed)).trans ((works_reapLoop reaps).trans (balances.works ?_)))
  rintro _ rfl
  exact closed.plain _ rfl

/-- Every call but a computation of the running thread leaves the registers and the current
threads alone up to `sched_reschedule`, except that some calls forget the current thread. -/
theorem start_cases
    (calls : a.plain = true ∨ ∀ type, sends type) (h : s.start cfg a = some (u, goesOn)) :
    Posts a.core sends s u ∧ ((∀ c regs extRegs, a ≠ .compute c regs extRegs) → Still s u ∨
      a.forgets cfg s ∧ goesOn = true ∧ Still (s.setCurrent a.core none) u) := by
  cases quiet : a.scope with
  | some scope => exact ((quiet_start quiet h).works (scope_sends closed calls quiet)).starts
  | none =>
    cases a with
    | create c fits =>
      cases h
      exact ⟨posts_threadCreateDetached, fun _ => .inl still_threadCreateDetached⟩
    | destroy c t => obtain ⟨-, _, h⟩ := returns_status h; exact (works_threadDestroy h).starts
    | terminate c tid =>
      obtain ⟨-, _, h⟩ := returns_status h
      obtain quiet | ⟨t, -, marked⟩ := schedTerminateTid_cases h
      · refine (quiet.works ?_).starts
        rintro _ rfl
        exact closed.plain _ rfl
      · exact (works_schedMarkThreadTerminated closed marked).starts
    | sleep c millis polled =>
      rcases schedSleep_cases h with ⟨rfl, -⟩ | ⟨t, m, current, idle, found, goesOn, slept, rfl⟩
      · exact (Works.refl _).starts
      exact ⟨slept.posts_nothing.trans (.of_mail rfl),
        fun _ => .inr ⟨⟨t, current, idle, found⟩, goesOn, slept.steady.toStill.setCurrent⟩⟩
    | tick c early polled =>
      obtain ⟨m, housekeeping, ends⟩ := schedOnTimerTick_cases h
      have steady := works_tickHousekeeping closed within housekeeping
      obtain rfl | ⟨t, n, v, current, charges, charges', ends⟩ := ends
      · exact steady.starts
      have still := steady.toStill.trans (charges.still.trans charges'.still)
      have posts := steady.toPosts.trans (charges.posts.trans charges'.posts)
      obtain rfl | ⟨rfl, goesOn, edf, idle, used⟩ := ends
      · exact ⟨posts, fun _ => .inl still⟩
      rw [steady.currents] at current
      rw [steady.policies] at edf
      rw [steady.idles] at idle
      rw [(steady.budgets t).1, (steady.budgets t).2] at used
      exact ⟨posts.trans (.of_mail rfl),
        fun _ => .inr ⟨⟨edf, t, current, idle, used⟩, goesOn, still.setCurrent⟩⟩
    | exit c polled =>
      obtain ⟨rfl, -⟩ | ⟨t, m, _, current, goesOn, marked, rfl⟩ := schedThreadExitTrampoline_cases h
      · exact (Works.refl _).starts
      have steady := works_schedMarkThreadTerminated closed marked
      exact ⟨steady.toPosts.trans (.of_mail rfl), fun _ =>
        .inr ⟨by simp [SchedAction.forgets, current], goesOn, steady.toStill.setCurrent⟩⟩
    | raiseFault | configure => cases h; exact ⟨.of_mail rfl, fun _ => .inl .modifyThread⟩
    | compute c regs extRegs => cases h; exact ⟨.of_mail rfl, fun calls => absurd rfl (calls _ _ _)⟩
    | throttle c on => cases h; exact ⟨.of_mail rfl, fun _ => .inl (.modifyRq ⟨rfl, rfl⟩)⟩
    | _ => cases quiet

theorem posts_act (calls : a.plain = true ∨ ∀ type, sends type) (h : s.act cfg a = some u) :
    Posts a.core sends s u := by
  rcases act_split h with starts | ⟨m, starts, reschedules⟩
  · exact (start_cases closed within calls starts).1
  have first := (start_cases closed within calls starts).1
  obtain ⟨n, works, dispatch⟩ := schedReschedule_cases closed (within.posts first) reschedules
  exact first.trans (works.toPosts.trans (posts_dispatchNext dispatch))

end

theorem within_all : Within (fun _ => True) s := ⟨fun _ _ _ => trivial, fun _ _ => trivial⟩

theorem start_still (calls : ∀ c regs extRegs, a ≠ .compute c regs extRegs)
    (h : s.start cfg a = some (u, goesOn)) : Still s u ∨
      a.forgets cfg s ∧ goesOn = true ∧ Still (s.setCurrent a.core none) u :=
  (start_cases closed_all within_all (.inr fun _ => trivial) h).2 calls

/-- A step of the core `core` that ends with the choice of the next thread. -/
def Dispatches (cfg : SchedConfig) (core : Nat) (s u : SchedSystem) : Prop :=
  ∃ m, Still s m ∧ m.dispatchNext cfg core = some u

theorem dispatches_schedReschedule {m : SchedSystem} (first : Still s m)
    (h : m.schedReschedule cfg core polled = some u) :
    Dispatches cfg core s u := by
  obtain ⟨n, works, dispatch⟩ := schedReschedule_cases closed_all within_all h
  exact ⟨n, first.trans works.toStill, dispatch⟩

/-- Every step but a computation of the running thread leaves the registers and the current
threads alone and then perhaps switches. Some steps forget the current thread before. -/
theorem act_cases (h : s.act cfg a = some u) : (∃ c regs extRegs, a = .compute c regs extRegs) ∨
    Still s u ∨ Dispatches cfg a.core s u ∨
      a.forgets cfg s ∧ Dispatches cfg a.core (s.setCurrent a.core none) u := by
  by_cases computes : ∃ c regs extRegs, a = .compute c regs extRegs
  · exact .inl computes
  have calls := fun c regs extRegs same => computes ⟨c, regs, extRegs, same⟩
  refine .inr ?_
  rcases act_split h with starts | ⟨m, starts, reschedules⟩
  · rcases start_still calls starts with still | ⟨-, no, -⟩
    · exact .inl still
    · cases no
  rcases start_still calls starts with still | ⟨forgets, -, still⟩
  · exact .inr (.inl (dispatches_schedReschedule still reschedules))
  · exact .inr (.inr ⟨forgets, dispatches_schedReschedule still reschedules⟩)

/-- The states that a call of the core gets through before it switches; it may be without a current
thread in them. -/
def Amid (core : Nat) (s m : SchedSystem) : Prop :=
  Still s m ∨ Still (s.setCurrent core none) m

/-! ## No entity is ever asleep -/

/-- The threads that sleep or wait say so in their own record only. -/
def EntitiesReady (s : SchedSystem) : Prop := ∀ e, (s.ent e).state = .ready

section

variable (ready : EntitiesReady s)

include ready

theorem EntitiesReady.still (h : Still s u) : EntitiesReady u :=
  fun e => (h.entities e).elim id (·.trans (ready e))

theorem EntitiesReady.amid (h : Amid core s u) : EntitiesReady u :=
  h.elim ready.still fun h => EntitiesReady.still (s := s.setCurrent core none) ready h

theorem EntitiesReady.dispatches (h : Dispatches cfg core s u) : EntitiesReady u := by
  obtain ⟨m, still, dispatch⟩ := h
  have ready' := ready.still still
  rcases dispatchNext_cases dispatch with ⟨quiet, -⟩ | ⟨n, m', -, -, quiet, rfl⟩
  · exact ready'.still quiet.steady.toStill
  have : EntitiesReady m' := ready'.still quiet.steady.toStill
  exact this

theorem EntitiesReady.act (h : s.act cfg a = some u) : EntitiesReady u := by
  rcases act_cases h with ⟨c, regs, extRegs, rfl⟩ | still | dispatches | ⟨-, dispatches⟩
  · cases h; exact ready
  · exact ready.still still
  · exact ready.dispatches dispatches
  · exact EntitiesReady.dispatches (s := s.setCurrent a.core none) ready dispatches
end

theorem entitiesReady (run : SchedRun cfg ok (boot policy) s) : EntitiesReady s :=
  run.invariant EntitiesReady (fun _ => rfl) fun _ _ _ ready _ h => ready.act (act_of_step h)

/-! ## Runs -/

theorem within_boot (sends : SchedCmdType → Prop) : Within sends (boot policy) where
  rings _ _ h := by cases h
  cmds _ h := by cases h

/-- Every envelope in a ring is there because another core has sent it, as `Addressed` says. -/
def RingsAddressed (cfg : SchedConfig) (s : SchedSystem) : Prop :=
  ∀ c, ∀ env ∈ s.mail.inbox c,
    env.originCpu < cfg.count ∧ env.originCpu ≠ c ∧ Addressed env.originCpu c env

theorem ringsAddressed (run : SchedRun cfg ok (boot policy) s) : RingsAddressed cfg s := by
  refine run.invariant _ nofun fun s a u rings _ h c env member => ?_
  have active : a.core < cfg.count := by
    unfold step at h
    split_ifs at h
    assumption
  rcases (posts_act closed_all within_all (.inr fun _ => trivial) (act_of_step h)).sent c env member with
    old | ⟨away, -, origin, addressed⟩
  · exact rings c env old
  rw [origin]
  exact ⟨active, away.symm, addressed⟩

end SchedSystem

end BharatOS
