import BharatOS.Ipc.EndpointRefs
import BharatOS.Ipc.Actions

/-!
# Messages and the incarnation of an endpoint

A call looks at the generation of its endpoint once; later, under the endpoint's lock, it checks no
more than that the slot is ready. A slot that was opened again in between is ready, too.
-/

namespace BharatOS

open Option

/-- The stages in which a call has not stored or claimed a message yet, and may do so. -/
def Stage.undecided : Stage → Bool
  | .checking | .blocking | .asleep => true
  | _ => false

theorem Moves.undecided {thread : Nat} {refused : Bool} {s st : IpcState} {v : Visit}
    {event : IpcEvent} {stage : Stage} (h : Moves thread refused s v st event (some stage))
    (now : stage.undecided = true) : v.stage.undecided = true := by
  -- what is left open at the end are moves into a stage that has decided
  generalize goes : some stage = next at h
  cases h with
  | stays => exact some.inj goes ▸ now
  | waits checking => rw [checking]; rfl
  | blocks blocking => rw [blocking]; rfl
  | looks asleep => rw [asleep]; rfl
  | claims | closes => cases goes; cases now
  | stores | requeues | clears =>
    obtain ⟨woken, -, rfl⟩ := map_eq_some_iff.mp goes.symm
    cases now
  | ends | quits | passes | counts | leaves | wakes => cases goes

namespace IpcSystem

/-- A call that may still store or claim finds the incarnation its capability names,
if it finds the endpoint ready. -/
def Authorised (s : IpcSystem) : Prop :=
  ∀ thread v, s.visit thread = some v → v.stage.undecided = true →
    (s.endpoint v.place).state = .ready →
    (s.endpoint v.place).generation = (endpointUnpackRef v.objectRef).generation

/-- `ipc_endpoint_create` opens no slot that a call has found and not come to yet. -/
def SparesVisitors (s : IpcSystem) : IpcAction → Prop
  | .create _ core _ => ∀ slot, s.system.kernel.endpoints.freeSlot core = some slot →
    ∀ thread v, s.visit thread = some v → v.stage.undecided = true → v.place ≠ (core, slot)
  | _ => True

variable {bound : Core → Bool} {pmmInitialized : Bool}

variable {objectRef : BitVec 64} {p : Place} {s : IpcSystem} {a : IpcAction}

theorem authorised_step {s' : IpcSystem} (h : Authorised s) (spares : s.SparesVisitors a)
    (step : Steps s a s') : Authorised s' := by
  obtain ⟨t, event, performs, rfl⟩ := steps_performs step
  intro thread v visit undecided ready
  rw [endpoint_wakeLetGo] at ready ⊢
  rcases performs.ready ready with rfl | ⟨was, generation⟩
  · -- the slot was opened just now, so this call had not found it before
    obtain ⟨creator, table, rfl, free⟩ := performs.opened
    rcases performs.visit visit with before | ⟨v₀, _, _, _, before, move, rfl⟩ | ⟨silent, -⟩
    · exact absurd rfl (spares _ free thread v before undecided)
    · exact absurd rfl (spares _ free thread v₀ before (move.undecided undecided))
    · cases silent
  · rw [generation]
    rcases performs.visit visit with before | ⟨v₀, _, _, _, before, move, rfl⟩ | ⟨-, -, -, found⟩
    · exact h thread v before undecided was
    · exact h thread v₀ before (move.undecided undecided) was
    · exact (congrArg EndpointRef.generation (EndpointPool.endpointByRef_eq_some.mp found).2).symm

theorem authorised_run (run : Run Steps SparesVisitors (boot bound pmmInitialized) s) :
    Authorised s :=
  run.invariant Authorised (fun _ _ visit => by cases visit) fun _ _ _ h spares step =>
    authorised_step h spares step

/-- A send that stores and a receive that claims have just found the endpoint ready. -/
theorem Performs.decides {t : IpcSystem} {event : IpcEvent} (h : Performs s a t event)
    (decides : (∃ parcel, event = .stored p objectRef parcel) ∨ event = .claimed p objectRef) :
    ∃ thread v, s.visit thread = some v ∧ v.stage.undecided = true ∧ v.place = p ∧
      v.objectRef = objectRef ∧ (s.endpoint p).state = .ready := by
  cases h with
  | @moves thread expired call v st event stage next was visit awake move _ _ _ =>
    have now : s.visit thread = some v := by rw [IpcSystem.visit, was, bind_some, visit]
    cases move with
    | stores checking _ ready | claims checking _ ready =>
      rcases decides with ⟨parcel, e⟩ | e <;> cases e
      exact ⟨thread, v, now, by rw [checking]; rfl, rfl, rfl, ready⟩
    | clears _ _ event' =>
      rcases event' with rfl | ⟨receipt, rfl⟩ <;> rcases decides with ⟨parcel, e⟩ | e <;> cases e
    | _ => rcases decides with ⟨parcel, e⟩ | e <;> cases e
  | _ => rcases decides with ⟨parcel, e⟩ | e <;> cases e

/-- As long as no slot is opened again under a call that has found it and not come to it
yet, a send stores and a receive claims only in the incarnation of the endpoint that
the caller's capability names. -/
theorem message_stays_in_incarnation {bound : Core → Bool} {pmmInitialized : Bool}
    {s s' : IpcSystem} {a : IpcAction} {event : IpcEvent}
    (run : Run Steps SparesVisitors (boot bound pmmInitialized) s)
    (step : s.step a = some (s', event)) :
    (∀ p objectRef parcel, event = .stored p objectRef parcel →
      (s.endpoint p).generation = (endpointUnpackRef objectRef).generation) ∧
    ∀ p objectRef, event = .claimed p objectRef →
      (s.endpoint p).generation = (endpointUnpackRef objectRef).generation := by
  obtain ⟨t, performs, -⟩ := step_performs step
  have authorised := authorised_run run
  constructor
  · intro p objectRef parcel stored
    obtain ⟨thread, v, visit, undecided, rfl, rfl, ready⟩ := performs.decides (.inl ⟨_, stored⟩)
    exact authorised thread v visit undecided ready
  · intro p objectRef claimed
    obtain ⟨thread, v, visit, undecided, rfl, rfl, ready⟩ := performs.decides (.inr claimed)
    exact authorised thread v visit undecided ready

/-! ## A send that finds its slot opened again -/

/-- Both handles are revoked, which frees the slot, and another endpoint is created. -/
def reopenFirst : List IpcAction :=
  .act (.revoke 2 0 ⟨0, 0⟩ 0x10001) :: List.replicate 5 (.act (.resume 2 false)) ++
    .act (.revoke 2 0 ⟨0, 0⟩ 0x10002) :: List.replicate 5 (.act (.resume 2 false)) ++
    [.create 0 0 ⟨0, 0⟩]

/-- The generation in the caller's reference and the one of the slot, when the next
section of thread 1 stores a message. -/
def storedAt (s : IpcSystem) : Option (BitVec 32 × BitVec 32) :=
  match s.step (.resume 1 false) with
  | some (_, .stored p objectRef _) =>
    some ((endpointUnpackRef objectRef).generation, (s.endpoint p).generation)
  | _ => none

theorem storedAt_some {wanted found : BitVec 32} (h : s.storedAt = some (wanted, found)) :
    ∃ s' p objectRef parcel,
      s.step (.resume 1 false) = some (s', .stored p objectRef parcel) ∧
      (endpointUnpackRef objectRef).generation = wanted ∧ (s.endpoint p).generation = found := by
  unfold storedAt at h
  split at h
  · rename_i step
    cases h
    exact ⟨_, _, _, _, step, rfl, rfl⟩
  · cases h

theorem spares_idle (idle : ∀ thread, s.calls thread = none) : s.SparesVisitors a := by
  cases a with
  | create =>
    intro slot free thread v visit
    rw [IpcSystem.visit, idle thread] at visit
    cases visit
  | _ => trivial

theorem spares_others (h : creates a = false) : s.SparesVisitors a := by
  cases a with
  | create => cases h
  | _ => trivial

/-- A send whose slot is left alone stores in the incarnation it was authorised for. -/
theorem message_stays_in_incarnation_first : ∃ s s' p objectRef parcel,
    Run Steps SparesVisitors (boot (fun _ => false) false) s ∧
    s.step (.resume 1 false) = some (s', .stored p objectRef parcel) ∧
    (s.endpoint p).generation = (endpointUnpackRef objectRef).generation := by
  have ran : ((exec next (boot (fun _ => false) false) (openFirst ++ sendToFirst)).bind
      storedAt).isSome = true := by decide +kernel
  obtain ⟨⟨wanted, found⟩, reached⟩ := isSome_iff_exists.mp ran
  obtain ⟨s, went, stored⟩ := bind_eq_some_iff.mp reached
  obtain ⟨s', p, objectRef, parcel, step, -⟩ := storedAt_some stored
  obtain ⟨s₁, first, went⟩ := bind_eq_some_iff.mp went
  obtain ⟨s₂, second, went⟩ := bind_eq_some_iff.mp went
  have idle : ∀ thread, s₁.calls thread = none := by
    cases first
    exact fun _ => rfl
  have begun : Run Steps SparesVisitors (boot (fun _ => false) false) s₂ :=
    .tail (.tail .refl (spares_others rfl) first) (spares_idle idle) second
  have later : Run Steps SparesVisitors s₂ s := exec_run (fun a listed s => spares_others (by
      have none' : (List.replicate 2 (IpcAction.resume 0 false) ++ sendToFirst).all
        (!creates ·) = true := rfl
      simpa using List.all_eq_true.mp none' a listed)) went
  have run := begun.trans later
  exact ⟨s, s', p, objectRef, parcel, run, step,
    (message_stays_in_incarnation run step).1 p objectRef parcel rfl⟩

/-- Two steps before its lock the send still has its capability. Then the endpoint goes,
another one comes into its slot, and the message is stored there. -/
theorem message_enters_next_incarnation : ∃ s s' p objectRef parcel,
    Run Steps (fun _ _ => True) (boot (fun _ => false) false) s ∧
    s.step (.resume 1 false) = some (s', .stored p objectRef parcel) ∧
    (endpointUnpackRef objectRef).generation = 1 ∧ (s.endpoint p).generation = 3 := by
  have ran : (exec next (boot (fun _ => false) false)
      (openFirst ++ sendToFirst ++ reopenFirst)).bind storedAt = some (1, 3) := by decide +kernel
  obtain ⟨s, went, stored⟩ := bind_eq_some_iff.mp ran
  obtain ⟨s', p, objectRef, parcel, step, wanted, found⟩ := storedAt_some stored
  exact ⟨s, s', p, objectRef, parcel, run_of_exec went, step, wanted, found⟩

end IpcSystem

end BharatOS
