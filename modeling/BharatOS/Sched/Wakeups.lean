import BharatOS.Sched.Rings

/-!
# Wake-ups from another core (`sched_handle_remote_wake`)

A thread that sleeps has that state in its own record. The handler looks at the entity instead,
and no entity is ever asleep.
-/

namespace BharatOS

open Option

namespace SchedSystem

variable {cfg : SchedConfig} {core c : Nat} {s u : SchedSystem} {t : ThreadRef}
  {env : SchedEnvelope}

/-- The priority of an entity is no part of how it is found. -/
theorem raiseEntityPriority_findEntity (cfg : SchedConfig) (s : SchedSystem) (t : ThreadRef)
    (e : EntityRef) (priority : Nat) :
    (s.raiseEntityPriority e priority).findEntity cfg t = s.findEntity cfg t := by
  have held : (s.raiseEntityPriority e priority).holdsEntity = s.holdsEntity := by
    funext tid f
    unfold raiseEntityPriority
    split_ifs
    · by_cases same : f = e
      · subst same; simp [holdsEntity]
      · simp [holdsEntity, same]
    · rfl
  have threads : (s.raiseEntityPriority e priority).thread t = s.thread t := by
    unfold raiseEntityPriority
    split_ifs <;> rfl
  unfold findEntity findEntityLocal
  rw [threads]
  simp only [held]

/-- A wake-up command leaves every thread as it was, and in or out of the runqueue. -/
theorem receive_wake_same (ready : EntitiesReady s) (wakes : env.type = .wake)
    (h : s.receive cfg core env = some u) :
    u.thread t = s.thread t ∧ u.isLinked cfg core t = s.isLinked cfg core t := by
  unfold receive at h
  split_ifs at h
  · obtain ⟨⟨m, ack, result⟩, handled, rfl⟩ := map_eq_some_iff.mp h
    simp only [handleCommand, wakes, schedHandleRemoteWake] at handled
    split at handled
    · cases handled; exact ⟨rfl, rfl⟩
    split at handled
    · cases handled; exact ⟨rfl, rfl⟩
    rename_i r _ e _
    obtain ⟨m', woken, handled⟩ := map_eq_some_iff.mp handled
    rw [wakeEntity_ready ((raiseEntityPriority_state).trans (ready _))] at woken
    cases woken
    cases handled
    have found := raiseEntityPriority_findEntity cfg s t e env.priority
    have same : (s.raiseEntityPriority e env.priority).thread t = s.thread t ∧
        (s.raiseEntityPriority e env.priority).runEntities core = s.runEntities core := by
      unfold raiseEntityPriority
      split_ifs <;> exact ⟨rfl, rfl⟩
    refine ⟨same.1, ?_⟩
    change ((s.raiseEntityPriority e env.priority).findEntity cfg t).any
      (· ∈ (s.raiseEntityPriority e env.priority).runEntities core) = _
    rw [found, same.2]
    rfl
  · cases h; exact ⟨rfl, rfl⟩

/-- A core that wakes a thread of another core and gets 0 has put one command into the ring of the
owner. -/
theorem schedWakeTidWithPriority_sends {tid : Tid} {priority : Nat} {s₁ : SchedSystem}
    (found : s.findThread cfg tid = some t) (remote : (s.thread t).ownerCpu ≠ c)
    (call : s.schedWakeTidWithPriority cfg c tid priority = some (s₁, 0)) :
    ∃ env, env.type = .wake ∧ s₁.mail.inbox (s.thread t).ownerCpu =
      s.mail.inbox (s.thread t).ownerCpu ++ [env] := by
  simp only [schedWakeTidWithPriority, found, remote, ne_eq, not_false_eq_true, if_true,
    some.injEq] at call
  simp only [sendCommand, schedRemoteSubmit] at call
  split_ifs at call <;> cases call
  exact ⟨_, by rfl, Function.update_self _ _ _⟩

/-- In every run, a thread that another core has woken is ready and linked after its owner has taken
the command from its ring just if it was so before. -/
theorem remote_wake_wakes_nobody {policy : Nat → SchedPolicy} {tid : Tid} {priority : Nat}
    {s₀ s₁ s₂ m : SchedSystem} {rest : List SchedEnvelope}
    (before : SchedRun cfg (fun _ _ => True) (boot policy) s₀)
    (found : s₀.findThread cfg tid = some t) (remote : (s₀.thread t).ownerCpu = core ∧ core ≠ c)
    (call : s₀.schedWakeTidWithPriority cfg c tid priority = some (s₁, 0))
    (sent : s₁.mail.inbox core = s₀.mail.inbox core ++ [env])
    (later : SchedRun cfg (fun _ _ => True) s₁ s₂) (amid : Amid core s₂ m)
    (next : m.mail.inbox core = env :: rest) (drained : drain cfg core 1 m = some u) :
    (u.thread t).state = .ready ∧ u.isLinked cfg core t = true ↔
      (m.thread t).state = .ready ∧ m.isLinked cfg core t = true := by
  obtain ⟨rfl, other⟩ := remote
  obtain ⟨cmd, wakes, one⟩ := schedWakeTidWithPriority_sends found other call
  obtain rfl : env = cmd := by simpa [sent] using one
  have ready₁ : EntitiesReady s₁ :=
    (entitiesReady before).still (quiet_schedWakeTidWithPriority call).steady.toStill
  have ready₂ : EntitiesReady s₂ :=
    later.invariant EntitiesReady ready₁ fun _ _ _ ready _ h => ready.act (act_of_step h)
  simp only [drain, next] at drained
  obtain ⟨u', received, drained⟩ := bind_eq_some_iff.mp drained
  cases drained
  -- taking the command out of the ring is no change to any thread or entity
  have ready : EntitiesReady m := ready₂.amid amid
  have taken : ∀ mail, EntitiesReady { m with mail := mail } := fun _ => ready
  have same := receive_wake_same (t := t) (taken _) wakes received
  rw [same.1, same.2]
  rfl

/-- Core 0 has woken its thread itself by the time it takes the command. -/
theorem remote_wake_wakes_nobody_twice :
    ∃ m u, (m.thread ⟨0, 0⟩).state = .ready ∧ m.isLinked (.open 2) 0 ⟨0, 0⟩ = true ∧
      drain (.open 2) 0 1 m = some u ∧
      (u.thread ⟨0, 0⟩).state = .ready ∧ u.isLinked (.open 2) 0 ⟨0, 0⟩ = true := by
  obtain ⟨s, ends, found, owner, empty, s₁, call, one, m, wakes, same, state, linked, u, drained⟩ :
      ∃ s, exec (step (.open 2)) (boot fun _ => .roundRobin)
        [.create 0 true, .enqueue 0 ⟨0, 0⟩ 0, .reschedule 0 [], .block 0 0 []] = some s ∧
      s.findThread (.open 2) ⟨1, 0, 0⟩ = some ⟨0, 0⟩ ∧ (s.thread ⟨0, 0⟩).ownerCpu = 0 ∧
      s.mail.inbox 0 = [] ∧ ∃ s₁, s.schedWakeTid (.open 2) 1 ⟨1, 0, 0⟩ = some (s₁, 0) ∧
      (s₁.mail.inbox 0).length = 1 ∧ ∃ m, s₁.step (.open 2) (.wake 0 ⟨1, 0, 0⟩ 0) = some m ∧
      m.mail.inbox 0 = s₁.mail.inbox 0 ∧ (m.thread ⟨0, 0⟩).state = .ready ∧
      m.isLinked (.open 2) 0 ⟨0, 0⟩ ∧ ∃ u, drain (.open 2) 0 1 m = some u := by
    decide +kernel
  obtain ⟨env, single⟩ := List.length_eq_one_iff.mp one
  have woken := (remote_wake_wakes_nobody (run_of_exec ends) found
    ⟨owner, by decide⟩ call (by rw [single, empty]; rfl) (.tail .refl trivial wakes)
    (.inl (.refl m)) (same.trans single) drained).mpr ⟨state, linked⟩
  exact ⟨m, u, state, linked, drained, woken⟩

/-- Core 1 wakes the thread that waits on core 0 and gets 0. Core 0 takes the command and
acknowledges it; nothing is left to handle, and the thread waits on. -/
theorem remote_wake_lost : ∃ s s₁ u, exec (step (.open 2)) (boot fun _ => .roundRobin)
        [.create 0 true, .enqueue 0 ⟨0, 0⟩ 0, .reschedule 0 [], .block 0 0 []] = some s ∧
      (s.thread ⟨0, 0⟩).state = .blocked ∧ (s.thread ⟨0, 0⟩).ownerCpu = 0 ∧
      s.schedWakeTid (.open 2) 1 (s.thread ⟨0, 0⟩).threadId = some (s₁, 0) ∧
      s₁.step (.open 2) (.reschedule 0 []) = some u ∧
      u.mail.inbox 0 = [] ∧ u.mail.cmds.map (·.completion) = [some (true, 0)] ∧
      (u.thread ⟨0, 0⟩).state = .blocked ∧ u.isLinked (.open 2) 0 ⟨0, 0⟩ = false := by
  simp only [exists_and_left]
  decide +kernel

end SchedSystem

end BharatOS
