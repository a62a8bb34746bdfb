import BharatOS.Sched.QuietHandlers

/-!
# What linking and unlinking leave alone

`Requeues s u`: entities keep the thread they belong to, their priority and their other attributes,
and so do the threads.
-/

namespace BharatOS

open Option

/-- The fields of an entity that are not about its place in the runqueue. -/
def SchedEntity.attrs (e : SchedEntity) :
    Tid × ThreadState × Nat × BitVec 32 × ExecConstraints × BitVec 32 × SchedMig × Bool :=
  (e.tid, e.state, e.priority, e.affinityMask, e.constraints, e.migrationEpoch, e.migrationState,
    e.runnable)

def BhThread.attrs (thread : BhThread) : Tid × Nat × BitVec 32 × ExecConstraints × Nat × Nat :=
  (thread.threadId, thread.priority, thread.affinityMask, thread.constraints, thread.boundCoreId,
    thread.locatorSlot)

namespace SchedSystem

structure Requeues (s u : SchedSystem) : Prop where
  inUse : ∀ e, (u.entity e).inUse = (s.entity e).inUse
  entities : ∀ e, (u.ent e).attrs = (s.ent e).attrs
  threads : ∀ r, (u.thread r).attrs = (s.thread r).attrs

variable {cfg : SchedConfig} {core : Nat} {s u : SchedSystem} {t : ThreadRef} {e : EntityRef}
  {prio : Nat}

namespace Requeues

variable {m : SchedSystem}

protected theorem refl (s : SchedSystem) : Requeues s s := ⟨fun _ => rfl, fun _ => rfl, fun _ => rfl⟩

theorem trans (first : Requeues s m) (second : Requeues m u) : Requeues s u where
  inUse e := (second.inUse e).trans (first.inUse e)
  entities e := (second.entities e).trans (first.entities e)
  threads r := (second.threads r).trans (first.threads r)

instance : IsPreorder SchedSystem Requeues where
  refl := .refl
  trans _ _ _ := .trans

theorem modifyThread {change : BhThread → BhThread}
    (same : (change (s.thread t)).attrs = (s.thread t).attrs) :
    Requeues s (s.modifyThread t change) where
  inUse _ := rfl
  entities _ := rfl
  threads r := by
    by_cases hr : r = t
    · subst hr; simpa using same
    · simp [hr]

theorem relinks (h : Relinks s u) : Requeues s u where
  inUse e := by rw [h.entity]
  entities e := by rw [ent, ent, h.entity]
  threads r := by rw [h.threads]

theorem modifyEntity {change : SchedEntity → SchedEntity}
    (same : (change (s.ent e)).attrs = (s.ent e).attrs) : Requeues s (s.modifyEntity e change) where
  inUse f := by
    by_cases hf : f = e
    · subst hf; simp
    · simp [hf]
  entities f := by
    by_cases hf : f = e
    · subst hf; simpa using same
    · simp [hf]
  threads _ := rfl

theorem modifyLists {c : Nat} {change : RunLists → RunLists} :
    Requeues s (s.modifyLists c change) :=
  { Requeues.refl s with }

section Keeps

variable (h : Requeues s u)

include h

theorem thread_priority (r : ThreadRef) : (u.thread r).priority = (s.thread r).priority :=
  congrArg (·.2.1) (h.threads r)

theorem runnable (e : EntityRef) : (u.ent e).runnable = (s.ent e).runnable :=
  congrArg (·.2.2.2.2.2.2.2) (h.entities e)

end Keeps

end Requeues

/-! ## The functions -/

variable {c : Nat}

theorem requeues_schedCfsEnqueue : Requeues s (s.schedCfsEnqueue cfg c t) := by
  unfold schedCfsEnqueue
  split
  · exact .refl s
  refine Requeues.trans ?_ .modifyLists
  unfold boundVruntime
  split_ifs
  · exact (Requeues.modifyEntity rfl).trans (.modifyThread rfl)
  · exact .refl s

theorem requeues_schedEdfEnqueue : Requeues s (s.schedEdfEnqueue cfg c t) := by
  have clocked : Requeues s (s.clockDeadline t) := by
    unfold clockDeadline
    split_ifs
    · exact .modifyThread rfl
    · exact .refl s
  unfold schedEdfEnqueue
  simp only
  split
  · exact clocked
  · exact clocked.trans ((Requeues.modifyEntity rfl).trans .modifyLists)

theorem requeues_linkByPolicy : Requeues s (s.linkByPolicy cfg c t e prio) := by
  unfold linkByPolicy
  split
  · exact requeues_schedCfsEnqueue
  · exact requeues_schedEdfEnqueue
  · exact .modifyLists

theorem requeues_linkEntity : Requeues s (s.linkEntity cfg c t e prio) :=
  ((requeues_linkByPolicy).trans (.modifyEntity rfl)).trans .modifyLists

theorem requeues_schedQuarantineThread : Ends Requeues (·) s (s.schedQuarantineThread cfg c t) :=
  .after (.modifyThread (by rfl)) (relinks_schedQuarantineThread.mono .relinks)

/-- A quarantined thread says so in its record. -/
theorem schedQuarantineThread_state (h : s.schedQuarantineThread cfg c t = some u) :
    (u.thread t).state = .quarantined := by
  rw [(relinks_schedQuarantineThread h).threads]
  simp

theorem requeues_schedInvariantOnEnqueue :
    Ends Requeues (·) s (s.schedInvariantOnEnqueue cfg core t) := by
  refine .bind (.ite requeues_schedQuarantineThread .same) fun _ => ?_
  exact .map (.ite requeues_schedQuarantineThread .same) fun _ => .modifyThread rfl

theorem requeues_putOn : Ends Requeues (·) s (s.putOn cfg core t e) :=
  .map requeues_schedInvariantOnEnqueue fun _ => requeues_linkEntity

theorem requeues_takeOff : Ends Requeues (·) s (s.takeOff cfg core t e) := by
  refine .ite (.bind (.map (.ite .same requeues_schedQuarantineThread) fun _ => .modifyThread rfl)
    fun _ => .map (relinks_unlinkByPolicy.mono .relinks) fun _ => ?_) .same
  exact (Requeues.modifyEntity rfl).trans .modifyLists

end SchedSystem

end BharatOS
