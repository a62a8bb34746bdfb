import BharatOS.Ipc.Handover

/-!
# The actions of the threads on endpoints

What an action of the system does, said once: to the endpoints, to the stages of the
threads and to the scheduler. The invariants of the endpoints are proved from this.
-/

namespace BharatOS

open IpcState IpcCall Option

namespace IpcSystem

/-- What the thread's call in progress is at its endpoint, if it is at one. -/
def visit (s : IpcSystem) (thread : Nat) : Option Visit := (s.calls thread).bind IpcCall.visit

section

variable (s : IpcSystem)

variable (st : IpcState) (thread : Nat) (call : Option IpcCall) (event : IpcEvent) (p : Place)

@[simp] theorem endpoint_setState :
    (s.setState st).endpoint p = st.endpoint p := rfl

@[simp] theorem endpoint_setCall : (s.setCall thread call).endpoint p = s.endpoint p := rfl

@[simp] theorem endpoint_note : (s.note event).endpoint p = s.endpoint p := by
  cases event <;> rfl

@[simp] theorem endpoint_state : s.state.endpoint p = s.endpoint p := rfl

@[simp] theorem visit_setState :
    (s.setState st).visit thread = s.visit thread := rfl

@[simp] theorem visit_note (thread : Nat) : (s.note event).visit thread = s.visit thread := by
  cases event <;> rfl

@[simp] theorem visit_setCall : (s.setCall thread call).visit thread = call.bind IpcCall.visit := by
  simp [visit, setCall]
end

variable {thread : Nat} {s s' : IpcSystem} {a : IpcAction} {call : IpcCall}

variable {t : IpcSystem}

@[simp] theorem endpoint_wakeLetGo {p : Place} :
    (s.wakeLetGo t).endpoint p = t.endpoint p := rfl

@[simp] theorem visit_wakeLetGo :
    (s.wakeLetGo t).visit thread = t.visit thread := rfl

/-- The actions, by what they do before the threads of a closed endpoint are woken. -/
inductive Performs (s : IpcSystem) : IpcAction → IpcSystem → IpcEvent → Prop
  | acts {a : Action} {system : System} (shifts : s.system.kernel.Shifts system.kernel) :
      Performs s (.act a) { s with system := system } .silent
  | starts {a : IpcAction} {thread : Nat} {call : Option IpcCall} (idle : s.calls thread = none)
      (outside : call.bind IpcCall.visit = none) :
      Performs s a (s.setCall thread call) .silent
  | opens {thread : Nat} {core : Core} {table : TableRef} {slot : EndpointSlot} {call : IpcCall}
      (idle : s.calls thread = none) (free : s.system.kernel.endpoints.freeSlot core = some slot)
      (outside : call.visit = none) :
      Performs s (.create thread core table)
        (((s.setState (s.state.setEndpoint (core, slot)
          ((s.endpoint (core, slot)).opened core))).setCall thread (some call)).note
            (.opened (core, slot))) (.opened (core, slot))
  | resolves {thread : Nat} {expired : Bool} {call : IpcCall} {next : Option IpcCall}
      (was : s.calls thread = some call) (outside : call.visit = none)
      (found : ∀ v, next.bind IpcCall.visit = some v → v.stage = .checking ∧
        s.system.kernel.endpoints.endpointByRef v.objectRef = some v.place) :
      Performs s (.resume thread expired) (s.setCall thread next) .silent
  | creates {thread : Nat} {expired : Bool} {call : IpcCall} {next : Option IpcCall} {k : Kernel}
      (was : s.calls thread = some call) (outside : call.visit = none)
      (stays : next.bind IpcCall.visit = none) (shifts : s.system.kernel.Shifts k) :
      Performs s (.resume thread expired)
        ((s.setState (s.state.setKernel k)).setCall thread next) .silent
  | discards {thread : Nat} {expired : Bool} {call : IpcCall} {p : Place}
      (was : s.calls thread = some call) (outside : call.visit = none) :
      Performs s (.resume thread expired)
        ((s.setState (s.state.setEndpoint p (s.endpoint p).discarded)).setCall thread none) .silent
  | moves {thread : Nat} {expired : Bool} {call : IpcCall} {v : Visit} {st : IpcState}
      {event : IpcEvent} {stage : Option Stage} {next : Option IpcCall}
      (was : s.calls thread = some call) (visit : call.visit = some v)
      (awake : v.stage = .asleep → (s.sched thread).blocked = false)
      (move : Moves thread (call.refused s.state) s.state v st event stage)
      (goes : next.bind IpcCall.visit = stage.map fun stage => { v with stage := stage })
      (honest : call.Honest → ∀ c, next = some c → c.Honest)
      (taken : call.Honest → ∀ p r, event = .taken p r → ∃ claim, v.stage = .holding claim ∧
        p = v.place ∧ r.Matches { (s.endpoint p).parcel with enclosure := claim }) :
      Performs s (.resume thread expired) (((s.setState st).setCall thread next).note event) event
  | losesWake {thread woken : Nat} {call : IpcCall} {v : Visit} (was : s.calls thread = some call)
      (visit : call.visit = some v) (waking : v.stage = .waking woken) :
      Performs s (.loseWake thread)
        ((s.setState (s.state.setSleeper woken
          { s.sched woken with wakeupReason := 0, armed := false, turn := false })).setCall thread
            none) .silent
  | wakesUp {thread : Nat} (waking : (s.sched thread).waking = true) :
      Performs s (.wakeUp thread)
        (s.setState (s.state.setSleeper thread
          { s.sched thread with blocked := false, waking := false })) .silent
  | ownerCloses {p : Place} :
      Performs s (.ownerClose p)
        (s.setState (s.state.setEndpoint p (s.endpoint p).ownerClose.1)) .silent
  | cancels {p : Place} {thread : Nat} {reason : Int} :
      Performs s (.cancel p thread reason)
        (s.setState (s.state.cancelWaiter p thread reason)) .silent
  | timesOut {thread : Nat} {st : IpcState} (blocked : (s.sched thread).blocked = true)
      (armed : (s.sched thread).armed = true)
      (queues : st = s.state.setSleeper thread
          { s.sched thread with blocked := false, wakeupReason := -3, armed := false } ∨
        ∃ v, s.visit thread = some v ∧ st = (s.state.setSleeper thread
          { s.sched thread with blocked := false, wakeupReason := -3, armed := false }).setEndpoint
            v.place ((s.endpoint v.place).setQueues (cutBehind thread (s.endpoint v.place).senders)
              (cutBehind thread (s.endpoint v.place).receivers))) :
      Performs s (.timeout thread) (s.setState st) .silent
  | relinks {p : Place} {senders receivers : List Nat} :
      Performs s (.relink p senders receivers)
        (s.setState (s.state.setEndpoint p ((s.endpoint p).setQueues senders receivers))) .silent

theorem visit_place : call.place = call.visit.map Visit.place := by
  cases call <;> rfl

theorem idle_calls (h : s.idle thread = true) : s.calls thread = none := by
  simp only [idle, Bool.and_eq_true, isNone_iff_eq_none] at h
  exact h.1

/-- A call that fails at once leaves the thread as it was. -/
theorem starts_fails (h : s.idle thread = true) : Performs s a s .silent := by
  have same : s.setCall thread none = s := by
    unfold setCall
    rw [show (none : Option IpcCall) = s.calls thread from (idle_calls h).symm,
      Function.update_eq_self]
  have starts : Performs s a (s.setCall thread none) .silent := .starts (idle_calls h) rfl
  rwa [same] at starts

theorem wakes_visit {woken : Nat} {code : Int} (h : wakes call = some (woken, code)) :
    ∃ v, call.visit = some v ∧ v.stage = .waking woken := by
  unfold wakes at h
  split at h
  · cases h; exact ⟨_, rfl, rfl⟩
  · cases h; exact ⟨_, rfl, rfl⟩
  · cases h

variable {v : Visit} {expired : Bool} {event : IpcEvent}

theorem asleep_awake (visit : call.visit = some v)
    (h : ¬ (call.isAsleep = true ∧ (s.sched thread).blocked = true)) :
    v.stage = .asleep → (s.sched thread).blocked = false := by
  intro asleep
  have : call.isAsleep = true := by
    cases call with
    | send call | receive call =>
      cases visit
      obtain ⟨f, pc⟩ := call
      cases pc <;> first | rfl | cases asleep
    | resolveSend | resolveReceive | create => cases visit
  simpa [this] using h

theorem moves_performs (was : s.calls thread = some call) (visit : call.visit = some v)
    (awake : v.stage = .asleep → (s.sched thread).blocked = false)
    (h : MovesOn thread s.state call v (call.step thread expired s.state)) :
    Performs s (.resume thread expired) (s.afterStep thread (call.step thread expired s.state))
      (call.step thread expired s.state).event := by
  obtain ⟨stage, move, goes⟩ := h
  refine .moves was visit awake move ?_ (fun honest c next => ?_)
    (fun honest p r taken => step_taken honest visit taken)
  · generalize call.step thread expired s.state = done at goes
    obtain ⟨state, event, call' | code⟩ := done <;> cases stage with
    | none => first | rfl | cases goes
    | some stage => first | exact goes | cases goes
  · refine @IpcCall.step_honest thread expired s.state call c honest ?_
    cases goes' : (call.step thread expired s.state).next with
    | inl call' => rw [goes'] at next; exact congrArg Sum.inl (some.inj next)
    | inr code => rw [goes'] at next; cases next

/-- A section of a create call takes or gives back references, or gives the slot up. -/
theorem create_performs {call : EndpointCreateCall} (was : s.calls thread = some (.create call)) :
    Performs s (.resume thread expired)
      (s.afterStep thread (ofStep .create (call.step expired s.state)))
      (ofStep .create (call.step expired s.state)).event := by
  have works : ∀ {k : Kernel} (next : EndpointCreateCall ⊕ Int), s.system.kernel.Shifts k →
      Performs s (.resume thread expired)
        (s.afterStep thread (ofStep .create ⟨s.state.setKernel k, .silent, next⟩))
        .silent := by
    intro k next shifts
    refine .creates was rfl ?_ shifts
    cases next <;> rfl
  obtain ⟨f, pc⟩ := call
  cases pc with
  | grantSend | grantRecv =>
    simp only [EndpointCreateCall.step, state]
    split <;> rename_i done <;> exact
      works _ (.ends (Kernel.grant_acts : Kernel.Acts _ _ .plain fun _ => True).shifts done)
  | undo sendCap revoking =>
    cases revoking with
    | none =>
      simp only [EndpointCreateCall.step, state]
      split <;> rename_i done <;> exact works _ (.ends (Kernel.revoke_shifts ..) done)
    | some revoking =>
      simp only [EndpointCreateCall.step, state]
      split <;> rename_i done <;>
        exact works _ (.ends (Kernel.revoke_step_writes).shifts done)
  | discard => exact .discards was rfl

theorem resume_performs (was : s.calls thread = some call)
    (awake : ¬ (call.isAsleep = true ∧ (s.sched thread).blocked = true)) :
    Performs s (.resume thread expired) (s.afterStep thread (call.step thread expired s.state))
      (call.step thread expired s.state).event := by
  cases call with
  | resolveSend args objectRef =>
    simp only [IpcCall.step]
    split
    · exact .resolves was rfl fun _ visit => by cases visit
    rename_i f found
    refine .resolves was rfl fun v visit => ?_
    cases visit
    unfold SendArgs.resolve at found
    split at found
    · cases found
    rename_i place named
    split at found
    · cases found; exact ⟨rfl, named⟩
    · cases found
  | resolveReceive args objectRef =>
    simp only [IpcCall.step]
    split
    · exact .resolves was rfl fun _ visit => by cases visit
    rename_i f found
    refine .resolves was rfl fun v visit => ?_
    cases visit
    unfold ReceiveArgs.resolve at found
    split at found
    · cases found
    rename_i place named
    cases found; exact ⟨rfl, named⟩
  | send call | receive call =>
    exact moves_performs was rfl (asleep_awake rfl awake) call.step_moves
  | create call => exact create_performs was

theorem perform_performs (h : s.perform a = some (s', event)) : Performs s a s' event := by
  cases a with
  | act a =>
    obtain ⟨⟨system, e⟩, done, eq⟩ := map_eq_some_iff.mp h
    cases eq
    exact .acts (System.step_shifts ⟨e, done⟩)
  | create thread core table =>
    simp only [perform] at h
    split at h
    · rename_i idle
      cases h
      unfold EndpointCreateCall.start
      split
      · exact .starts (idle_calls idle) rfl
      split
      · exact .starts (idle_calls idle) rfl
      split
      · exact .starts (idle_calls idle) rfl
      rename_i slot free
      exact .opens (idle_calls idle) free rfl
    · cases h
  | send thread args | receive thread args =>
    simp only [perform] at h
    split at h
    · rename_i idle
      split at h
      · cases h
        exact starts_fails idle
      · cases h
        exact .starts (idle_calls idle) rfl
    · cases h
  | resume thread expired =>
    simp only [perform] at h
    split at h
    · cases h
    rename_i call was
    split at h
    · cases h
    rename_i awake
    cases h
    exact resume_performs was awake
  | loseWake thread =>
    simp only [perform] at h
    split at h
    · cases h
    rename_i woken code found
    cases h
    obtain ⟨call, was, wakes⟩ := bind_eq_some_iff.mp found
    obtain ⟨v, visit, stage⟩ := wakes_visit wakes
    exact .losesWake was visit stage
  | wakeUp thread =>
    simp only [perform] at h
    split at h
    · rename_i waking
      cases h
      exact .wakesUp waking
    · cases h
  | ownerClose p =>
    cases h
    exact .ownerCloses
  | cancel p thread reason =>
    cases h
    exact .cancels
  | timeout thread =>
    simp only [perform] at h
    split at h
    · rename_i may
      split at h
      · cases h
        exact .timesOut may.1 may.2 (.inl rfl)
      rename_i p found
      cases h
      obtain ⟨call, was, place⟩ := bind_eq_some_iff.mp found
      rw [visit_place, map_eq_some_iff] at place
      obtain ⟨v, visit, rfl⟩ := place
      exact .timesOut may.1 may.2 (.inr ⟨v, by simp [IpcSystem.visit, was, visit], rfl⟩)
    · cases h
  | relink p senders receivers =>
    cases h
    exact .relinks

/-- An action is its effect and the wake-ups after it. -/
theorem step_performs (h : s.step a = some (s', event)) :
    ∃ t, Performs s a t event ∧ s' = s.wakeLetGo t := by
  obtain ⟨⟨t, e⟩, performed, eq⟩ := map_eq_some_iff.mp h
  cases eq
  exact ⟨t, perform_performs performed, rfl⟩

theorem steps_performs (h : Steps s a s') :
    ∃ t event, Performs s a t event ∧ s' = s.wakeLetGo t := by
  obtain ⟨⟨t, event⟩, step, rfl⟩ := map_eq_some_iff.mp h
  obtain ⟨t, performs, eq⟩ := step_performs step
  exact ⟨t, event, performs, eq⟩

end IpcSystem

/-- The endpoint that an event is about. -/
def IpcEvent.place : IpcEvent → Option Place
  | .silent => none
  | .opened p | .stored p .. | .claimed p _ | .taken p _ => some p

theorem Moves.event_place {thread : Nat} {refused : Bool} {s st : IpcState} {v : Visit}
    {event : IpcEvent} {stage : Option Stage} (h : Moves thread refused s v st event stage) :
    event.place = none ∨ event.place = some v.place := by
  cases h with
  | stores | claims => exact .inr rfl
  | clears _ _ event' =>
    rcases event' with rfl | ⟨receipt, rfl⟩
    · exact .inl rfl
    · exact .inr rfl
  | _ => exact .inl rfl

namespace Moves

open IpcEndpoint

variable {thread : Nat} {refused : Bool} {s st : IpcState} {v : Visit} {event : IpcEvent}
  {stage : Option Stage}

/-- A move does not open the endpoint again. -/
theorem ready (h : Moves thread refused s v st event stage)
    (ready : (st.endpoint v.place).state = .ready) : (s.endpoint v.place).state = .ready ∧
      (st.endpoint v.place).generation = (s.endpoint v.place).generation := by
  cases h with
  | stays shifts => exact (shifts.endpoint v.place.1 v.place.2).drifts.ready ready
  | ends | quits | passes | blocks | wakes => exact ⟨ready, rfl⟩
  | counts _ _ counted =>
    rw [endpoint_setEndpoint] at ready ⊢
    rcases counted with rfl | rfl <;> exact ⟨ready, rfl⟩
  | claims => rw [endpoint_setEndpoint] at ready ⊢; exact ⟨ready, rfl⟩
  | stores _ _ was | requeues _ was | clears _ was =>
    rw [endpoint_dequeueAt, setQueue_generation]
    exact ⟨was, rfl⟩
  | closes _ was =>
    rw [endpoint_setEndpoint] at ready
    exact absurd ((reclaim_shift _).drifts.ready ready).1 was
  | waits => exact (enqueueAt_drifts (s.endTurn thread) ..).ready ready
  | leaves => exact (leaveQueue_drifts ..).ready ready
  | looks => exact (countTurn_drifts ..).ready ready

end Moves

namespace IpcSystem

open IpcEndpoint

variable {s t : IpcSystem} {a : IpcAction} {event : IpcEvent} {p : Place}

/-- Only `ipc_endpoint_create` opens a slot, the first one that is free. -/
theorem Performs.opened (h : Performs s a t (.opened p)) :
    ∃ thread table, a = .create thread p.1 table ∧
      s.system.kernel.endpoints.freeSlot p.1 = some p.2 := by
  generalize opened : IpcEvent.opened p = event at h
  cases h with
  | opens idle free => cases opened; exact ⟨_, _, rfl, free⟩
  | moves was visit awake move =>
    subst opened
    cases move with
    | clears _ _ event' => rcases event' with e | ⟨receipt, e⟩ <;> cases e
  | _ => cases opened

/-- An action that changes one endpoint, and that one only by drifting. -/
theorem setEndpoint_drifts {st : IpcState} {q : Place} {ep : IpcEndpoint}
    (kernel : st.kernel = s.system.kernel) (h : (s.endpoint q).Drifts ep) (p : Place) :
    (s.endpoint p).Drifts ((s.setState (st.setEndpoint q ep)).endpoint p) := by
  obtain ⟨k, sched⟩ := st
  obtain rfl : k = s.system.kernel := kernel
  exact @IpcState.setEndpoint_drifts ⟨s.system.kernel, sched⟩ q ep h p

/-- What an action does to an endpoint: it drifts, it is opened, or a call moves at it. -/
theorem Performs.endpoint (h : Performs s a t event) (p : Place) :
    (s.endpoint p).Drifts (t.endpoint p) ∧ event.place ≠ some p ∨
    event = .opened p ∧ t.endpoint p = (s.endpoint p).opened p.1 ∨
    ∃ thread refused v st stage, Moves thread refused s.state v st event stage ∧ v.place = p ∧
      t.endpoint p = st.endpoint p := by
  cases h with
  | acts shifts | creates _ _ _ shifts => exact .inl ⟨(shifts.endpoint p.1 p.2).drifts, nofun⟩
  | starts | resolves | losesWake | wakesUp => exact .inl ⟨.refl _, nofun⟩
  | @opens _ core _ slot =>
    simp only [endpoint_note, endpoint_setCall, endpoint_setState]
    by_cases same : p = (core, slot)
    · subst same
      exact .inr (.inl ⟨rfl, IpcState.endpoint_setEndpoint ..⟩)
    · rw [IpcState.endpoint_setEndpoint_ne _ _ same]
      exact .inl ⟨.refl _, fun place => same (some.inj place).symm⟩
  | discards => exact .inl ⟨setEndpoint_drifts rfl (drifts_discarded _) p, nofun⟩
  | @moves thread expired call v st event stage next was visit awake move =>
    simp only [endpoint_note, endpoint_setCall, endpoint_setState]
    by_cases same : v.place = p
    · exact .inr (.inr ⟨_, _, v, _, _, move, same, rfl⟩)
    refine .inl ⟨move.elsewhere (Ne.symm same), fun place => ?_⟩
    rcases move.event_place with none' | here
    · cases none'.symm.trans place
    · exact same (some.inj (here.symm.trans place))
  | ownerCloses => exact .inl ⟨setEndpoint_drifts rfl (ownerClose_shift _).drifts p, nofun⟩
  | cancels => exact .inl ⟨IpcState.cancelWaiter_drifts s.state .., nofun⟩
  | timesOut blocked armed queues =>
    rcases queues with rfl | ⟨v, -, rfl⟩
    · exact .inl ⟨.refl _, nofun⟩
    · exact .inl ⟨setEndpoint_drifts rfl (drifts_setQueues ..) p, nofun⟩
  | relinks => exact .inl ⟨setEndpoint_drifts rfl (drifts_setQueues ..) p, nofun⟩

/-- An endpoint is ready after an action only if it was before, or was opened by it. -/
theorem Performs.ready (h : Performs s a t event) (ready : (t.endpoint p).state = .ready) :
    event = .opened p ∨ (s.endpoint p).state = .ready ∧
      (t.endpoint p).generation = (s.endpoint p).generation := by
  rcases h.endpoint p with ⟨drifts, -⟩ | ⟨opened, -⟩ | ⟨_, _, v, st, _, move, rfl, same⟩
  · exact .inr (drifts.ready ready)
  · exact .inl opened
  · rw [same] at ready ⊢
    exact .inr (move.ready ready)

variable {thread : Nat}

/-- Where a thread's visit to an endpoint comes from: it was there before and the action
was another's, it moved, or it has just found the endpoint. -/
theorem Performs.visit (h : Performs s a t event) {v : Visit} (now : t.visit thread = some v) :
    s.visit thread = some v ∨
    (∃ v₀ refused st stage, s.visit thread = some v₀ ∧
      Moves thread refused s.state v₀ st event (some stage) ∧ v = { v₀ with stage := stage }) ∨
    event = .silent ∧ s.visit thread = none ∧ v.stage = .checking ∧
      s.system.kernel.endpoints.endpointByRef v.objectRef = some v.place := by
  -- an action that replaces the call of `actor` leaves the visits of the other threads alone
  have others : ∀ {actor : Nat} {u : IpcSystem} {call : Option IpcCall}, u.calls = s.calls →
      (thread = actor → call.bind IpcCall.visit = none) →
      (u.setCall actor call).visit thread = some v → s.visit thread = some v := by
    intro actor u call same outside now
    by_cases mine : thread = actor
    · subst mine
      rw [visit_setCall, outside rfl] at now
      cases now
    · rw [← now]
      simp [IpcSystem.visit, IpcSystem.setCall, mine, same]
  cases h with
  | acts | wakesUp | ownerCloses | cancels | timesOut | relinks => exact .inl now
  | starts idle outside => exact .inl (others rfl (fun _ => outside) now)
  | opens idle free outside =>
    exact .inl (others rfl (fun _ => by exact outside) now)
  | @resolves actor expired call next was outside found =>
    by_cases same : thread = actor
    · subst same
      rw [visit_setCall] at now
      exact .inr (.inr ⟨rfl, by rw [IpcSystem.visit, was, bind_some, outside], found v now⟩)
    · exact .inl (others rfl (absurd · same) now)
  | creates was outside stays => exact .inl (others rfl (fun _ => stays) now)
  | discards | losesWake => exact .inl (others rfl (fun _ => rfl) now)
  | @moves actor expired call v₀ st event stage next was visit awake move goes _ _ =>
    rw [visit_note] at now
    by_cases same : thread = actor
    · subst same
      rw [visit_setCall, goes, map_eq_some_iff] at now
      obtain ⟨stage, rfl, rfl⟩ := now
      exact .inr (.inl ⟨v₀, _, _, stage, by rw [IpcSystem.visit, was, bind_some, visit], move, rfl⟩)
    · exact .inl (others rfl (absurd · same) now)

/-! ## A first endpoint -/

/-- A table on core 0, and an endpoint in the first slot of that core; the table's first
handle can send to it, the second one can receive. -/
def openFirst : List IpcAction :=
  .act (.create 0 true) :: .create 0 0 ⟨0, 0⟩ :: List.replicate 2 (.resume 0 false)

/-- A send by thread 1, up to the endpoint's lock. -/
def sendToFirst : List IpcAction :=
  .send 1 ⟨0, ⟨0, 0⟩, 0x10001, [7], .forever, 0, 0, none⟩ :: List.replicate 6 (.resume 1 false)

/-- Whether the action may open a slot. -/
def creates : IpcAction → Bool
  | .create .. => true
  | _ => false

end IpcSystem

end BharatOS
