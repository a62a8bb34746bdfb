import BharatOS.Sched.Rings

/-!
# Saved contexts (`sched_switch_to`)

The switch takes the outgoing thread from `current_thread`. A core that forgets its current thread
before it switches saves nothing.
-/

namespace BharatOS

namespace SchedSystem

variable {cfg : SchedConfig} {core : Nat} {s u : SchedSystem} {a : SchedAction}

/-- Each core executes its current thread, and has an idle thread to fall back on. -/
structure Aware (s : SchedSystem) : Prop where
  current : ∀ c, (s.rq c).currentThread = some (s.machine.executing c)
  idle : ∀ c, (s.rq c).idleThread ≠ none

/-- The registers of the core are in the context of the thread, and so is its extended state, if
the thread has memory for it. -/
def Saved (s u : SchedSystem) (core : Nat) (t : ThreadRef) : Prop :=
  u.machine.context (u.thread t).cpuContext = s.machine.regs core ∧
    ((u.slot t).isBootstrap = false → u.machine.ext.saved t = s.machine.ext.regs core)

theorem aware_boot {policy : Nat → SchedPolicy} : Aware (boot policy) where
  current _ := rfl
  idle _ := by simp [boot]

theorem Aware.still (aware : Aware s) (h : Still s u) : Aware u where
  current c := by rw [h.currents, h.executing, aware.current]
  idle c := by rw [h.idles]; exact aware.idle c

variable {c : Nat} {next : ThreadRef} {prev : Option ThreadRef}

theorem switched_executing : (s.switched cfg core prev next).machine.executing c =
      if c = core then next else s.machine.executing c := by
  simp [switched, archContextSwitch, setCurrent, Function.update_apply]

theorem switched_currentThread : ((s.switched cfg core prev next).rq c).currentThread =
      if c = core then some next else (s.rq c).currentThread := by
  simp only [switched, archContextSwitch, setCurrent, modifyRq_rq, modifyThread_rq]
  split_ifs <;> rfl

theorem switched_idleThread :
    ((s.switched cfg core prev next).rq c).idleThread = (s.rq c).idleThread := by
  simp only [switched, archContextSwitch, setCurrent, modifyRq_rq, modifyThread_rq]
  split_ifs with same
  · rw [same]
  · rfl

theorem archContextSwitch_saves (records : cfg.arch.Records) {prev : ThreadRef}
    (plain : ((s.archContextSwitch cfg core (some prev) next).slot prev).isBootstrap = false) :
    (s.archContextSwitch cfg core (some prev) next).machine.ext.saved prev =
      s.machine.ext.regs core := by
  change (s.slot prev).isBootstrap = false at plain
  simp only [archContextSwitch, plain, Bool.false_eq_true, if_false]
  split_ifs
  · exact records.save core prev _
  · rw [records.restore]
    exact records.save core prev _

theorem switched_saves (records : cfg.arch.Records) {prev : ThreadRef} :
    Saved s (s.switched cfg core (some prev) next) core prev := by
  constructor
  · simp only [switched, archContextSwitch, setCurrent, modifyRq_thread, thread]
    simp
  · unfold switched
    exact archContextSwitch_saves records

/-- The choice of the next thread, by a core that may have forgotten its current one. -/
theorem Dispatches.aware (others : ∀ c, c ≠ core →
      (s.rq c).currentThread = some (s.machine.executing c))
    (here : (s.rq core).currentThread = none ∨
      (s.rq core).currentThread = some (s.machine.executing core))
    (idle : ∀ c, (s.rq c).idleThread ≠ none) (h : Dispatches cfg core s u) : Aware u := by
  obtain ⟨m, still, dispatch⟩ := h
  simp only [← still.currents, ← still.idles, ← still.executing] at others here idle
  rcases dispatchNext_cases dispatch with ⟨quiet, stays⟩ | ⟨n, m', _, _, quiet, rfl⟩
  · refine ⟨fun c => ?_, fun c => quiet.idleThread c ▸ idle c⟩
    rw [quiet.currentThread, quiet.executing]
    by_cases other : c = core
    · subst other
      refine here.resolve_left fun absent => ?_
      exact stays.elim (· absent) (idle c)
    · exact others c other
  · refine ⟨fun c => ?_, fun c => ?_⟩
    · rw [switched_currentThread, switched_executing, quiet.currentThread, quiet.executing]
      split_ifs with same
      · rfl
      · exact others c same
    · rw [switched_idleThread, quiet.idleThread]
      exact idle c

/-- A core that knows which thread it executes saves it when it switches. -/
theorem Dispatches.saves (records : cfg.arch.Records) (aware : Aware s) (h : Dispatches cfg core s u)
    (leaves : u.machine.executing c ≠ s.machine.executing c) :
    Saved s u c (s.machine.executing c) := by
  obtain ⟨m, still, dispatch⟩ := h
  have aware' := aware.still still
  rcases dispatchNext_cases dispatch with ⟨quiet, -⟩ | ⟨n, m', -, -, quiet, rfl⟩
  · rw [quiet.executing, still.executing] at leaves
    exact absurd rfl leaves
  rw [switched_executing, quiet.executing, still.executing] at leaves
  have same : c = core := by
    by_contra other
    rw [if_neg other] at leaves
    exact leaves rfl
  subst same
  rw [aware'.current, still.executing]
  obtain ⟨context, extState⟩ := switched_saves records
  refine ⟨?_, ?_⟩
  · rw [context, quiet.regs, still.regs]
  · intro plain
    rw [extState plain, quiet.extRegs, still.extRegs]

/-- Without its current thread a core still executes one after the switch. -/
theorem Aware.forgotten (aware : Aware s)
    (h : Dispatches cfg core (s.setCurrent core none) u) : Aware u := by
  refine h.aware (fun c other => ?_) (.inl (by simp [setCurrent])) fun c => ?_
  · simpa [setCurrent, other] using aware.current c
  · by_cases same : c = core
    · subst same; simpa [setCurrent] using aware.idle c
    · simpa [setCurrent, same] using aware.idle c

theorem Aware.act (aware : Aware s) (h : s.act cfg a = some u) : Aware u := by
  rcases act_cases h with ⟨c, regs, extRegs, rfl⟩ | still | dispatches | ⟨-, dispatches⟩
  · cases h; exact ⟨aware.current, aware.idle⟩
  · exact aware.still still
  · exact dispatches.aware (fun c _ => aware.current c) (.inr (aware.current _)) aware.idle
  · exact aware.forgotten dispatches

/-- Whenever a core stops executing a thread in a step that does not forget it, the thread is
saved. -/
theorem act_saves (records : cfg.arch.Records) (aware : Aware s) (remembers : ¬ a.forgets cfg s) (h : s.act cfg a = some u)
    (leaves : u.machine.executing c ≠ s.machine.executing c) :
    Saved s u c (s.machine.executing c) := by
  rcases act_cases h with ⟨c, regs, extRegs, rfl⟩ | still | dispatches | ⟨forgets, -⟩
  · cases h; exact absurd rfl leaves
  · exact absurd (congrFun still.executing c) leaves
  · exact dispatches.saves records aware leaves
  · exact absurd forgets remembers

end SchedSystem

end BharatOS
