import BharatOS.Ipc.IpcSystem

/-!
# The protocol of an endpoint

Seen from the endpoint, a thread that sends or receives is in one of a few stages, and a section
of its call is one of a few moves.
-/

namespace BharatOS

open IpcCall IpcState

/-- What a thread is about at an endpoint: it checks its capabilities on the way to the
endpoint, waits there, holds a claim on the message, wakes another thread, or takes
back what it installed. -/
inductive Stage where
  | checking
  | blocking
  | asleep
  | holding (claim : Enclosure)
  | waking (thread : Nat)
  | leaving
  deriving DecidableEq, Repr

structure Visit where
  place : Place
  side : Side
  objectRef : BitVec 64
  stage : Stage
  deriving DecidableEq, Repr

/-- What a thread of this side waits for. -/
def Side.wants : Side → MsgSlot
  | .send => .empty
  | .receive => .queued

def SendPc.stage : SendPc → Stage
  | .block => .blocking
  | .asleep => .asleep
  | .wake receiver => .waking receiver
  | _ => .checking

def ReceivePc.stage : ReceivePc → Stage
  | .recheck | .enter => .checking
  | .block => .blocking
  | .asleep => .asleep
  | .install claim | .installReply claim _ | .rollback claim .. | .commit claim _ => .holding claim
  | .undo .. => .leaving
  | .wake thread _ => .waking thread

namespace IpcCall

def visit : IpcCall → Option Visit
  | .send call => some ⟨call.frame.place, .send, call.frame.objectRef, call.pc.stage⟩
  | .receive call => some ⟨call.frame.place, .receive, call.frame.objectRef, call.pc.stage⟩
  | _ => none

/-- Whether the next section ends the call because of the caller: a capability is not
what it was, or the buffer is too small for the message. -/
def refused (s : IpcState) : IpcCall → Bool
  | .send ⟨f, .capture⟩ => (SendCall.captured s.kernel f).toOption.isNone
  | .send ⟨f, .checkReply⟩ =>
    f.replyCapToSend != 0 && !SendCall.replyChecked s.kernel (SendCall.withReplyRights f)
  | .send ⟨f, .captureReply⟩ => (SendCall.capturedReply s.kernel f).toOption.isNone
  | .send ⟨f, .recheck⟩ =>
    !stillNames s.kernel f.args.table f.args.sendCap capRightEndpointSend f.objectRef
  | .send ⟨f, .recapture⟩ =>
    f.args.capToSend != 0 && (SendCall.captured s.kernel f).toOption.isNone
  | .send ⟨f, .recaptureReply⟩ =>
    f.replyCapToSend != 0 && (SendCall.capturedReply s.kernel f).toOption.isNone
  | .receive ⟨f, .recheck⟩ =>
    !stillNames s.kernel f.args.table f.args.recvCap capRightEndpointReceive f.objectRef
  | .receive ⟨f, .enter⟩ => decide (f.args.capacity < (s.endpoint f.place).msg.msgLen)
  | _ => false

end IpcCall

/-- A section of a call at an endpoint, by what it does there: the state it leaves, what
it lets others see, and the stage it goes on in. -/
inductive Moves (thread : Nat) (refused : Bool) (s : IpcState) (v : Visit) :
    IpcState → IpcEvent → Option Stage → Prop
  | stays {k : Kernel} (shifts : s.kernel.Shifts k) :
      Moves thread refused s v (s.setKernel k) .silent (some v.stage)
  | ends (leaving : v.stage = .leaving) : Moves thread refused s v s .silent none
  | quits (checking : v.stage = .checking) (why : refused = true) :
      Moves thread refused s v (s.endTurn thread) .silent none
  | passes (checking : v.stage = .checking)
      (why : (s.endpoint v.place).state ≠ .ready ∨ (s.endpoint v.place).hasMsg ≠ v.side.wants) :
      Moves thread refused s v (s.endTurn thread) .silent none
  | counts {ep : IpcEndpoint} (checking : v.stage = .checking)
      (why : (s.endpoint v.place).hasMsg ≠ v.side.wants)
      (counted : ep = (s.endpoint v.place).countDropped ∨ ep = (s.endpoint v.place).countTimeout) :
      Moves thread refused s v ((s.endTurn thread).setEndpoint v.place ep) .silent none
  | waits {armed : Bool} (checking : v.stage = .checking)
      (ready : (s.endpoint v.place).state = .ready)
      (why : (s.endpoint v.place).hasMsg ≠ v.side.wants) :
      Moves thread refused s v ((s.endTurn thread).enqueueAt v.place v.side thread armed) .silent
        (some .blocking)
  | stores {payload : List (BitVec 8)} {e : Enclosure} (checking : v.stage = .checking)
      (sends : v.side = .send) (ready : (s.endpoint v.place).state = .ready)
      (empty : (s.endpoint v.place).hasMsg = .empty)
      (fits : payload.length ≤ ipcEndpointPayloadMax) :
      Moves thread refused s v
        ((s.endTurn thread).dequeueAt v.place ((s.endpoint v.place).store payload e) .receive).1
        (.stored v.place v.objectRef ⟨payload, BitVec.ofNat 32 payload.length, e⟩)
        (((s.endTurn thread).dequeueAt v.place ((s.endpoint v.place).store payload e)
          .receive).2.map .waking)
  | claims (checking : v.stage = .checking) (receives : v.side = .receive)
      (ready : (s.endpoint v.place).state = .ready)
      (queued : (s.endpoint v.place).hasMsg = .queued) :
      Moves thread refused s v ((s.endTurn thread).setEndpoint v.place (s.endpoint v.place).claim)
        (.claimed v.place v.objectRef) (some (.holding (s.endpoint v.place).enclosure))
  | blocks (blocking : v.stage = .blocking) :
      Moves thread refused s v (s.block thread) .silent (some .asleep)
  | leaves (asleep : v.stage = .asleep) (woken : (s.sched thread).wakeupReason ≠ 0) :
      Moves thread refused s v (s.leaveQueue v.place v.side thread) .silent none
  | looks (asleep : v.stage = .asleep) (woken : (s.sched thread).wakeupReason = 0) :
      Moves thread refused s v (s.countTurn v.place) .silent (some .checking)
  | closes {claim : Enclosure} (holding : v.stage = .holding claim)
      (closed : (s.endpoint v.place).state ≠ .ready) :
      Moves thread refused s v
        (s.setEndpoint v.place (s.endpoint v.place).unclaim.clearMsgLocked.tryReclaimLocked) .silent
        (some .leaving)
  | requeues {claim : Enclosure} (holding : v.stage = .holding claim)
      (ready : (s.endpoint v.place).state = .ready) :
      Moves thread refused s v
        (s.dequeueAt v.place { (s.endpoint v.place).unclaim with hasMsg := .queued } .receive).1
        .silent
        ((s.dequeueAt v.place { (s.endpoint v.place).unclaim with hasMsg := .queued }
          .receive).2.map .waking)
  | clears {claim : Enclosure} {event : IpcEvent} (holding : v.stage = .holding claim)
      (ready : (s.endpoint v.place).state = .ready)
      (event' : event = .silent ∨ ∃ receipt : Receipt, event = .taken v.place receipt) :
      Moves thread refused s v
        (s.dequeueAt v.place (s.endpoint v.place).unclaim.clearMsgLocked .send).1 event
        ((s.dequeueAt v.place (s.endpoint v.place).unclaim.clearMsgLocked .send).2.map .waking)
  | wakes {woken : Nat} (waking : v.stage = .waking woken) :
      Moves thread refused s v (s.wake woken) .silent none

/-! ## Endpoints and threads after an update -/

namespace IpcEndpoint

variable (ep : IpcEndpoint)

variable (side : Side) (queue : List Nat)

@[simp] theorem setQueue_state : (ep.setQueue side queue).state = ep.state := by
  cases side <;> rfl

@[simp] theorem setQueue_generation : (ep.setQueue side queue).generation = ep.generation := by
  cases side <;> rfl

@[simp] theorem setQueue_hasMsg : (ep.setQueue side queue).hasMsg = ep.hasMsg := by
  cases side <;> rfl

@[simp] theorem setQueue_activeClaims :
    (ep.setQueue side queue).activeClaims = ep.activeClaims := by
  cases side <;> rfl

@[simp] theorem setQueue_parcel : (ep.setQueue side queue).parcel = ep.parcel := by
  cases side <;> rfl

end IpcEndpoint

namespace IpcState

variable (s : IpcState)

variable (p : Place) (ep : IpcEndpoint) (thread : Nat) (side : Side)

@[simp] theorem endpoint_setEndpoint : (s.setEndpoint p ep).endpoint p = ep :=
  EndpointPool.set_self ..

variable {p q : Place}

theorem endpoint_setEndpoint_ne (ne : q ≠ p) : (s.setEndpoint p ep).endpoint q = s.endpoint q :=
  EndpointPool.set_other ep fun h => ne (Prod.ext h.1 h.2)

@[simp] theorem endpoint_setSleeper (sleeper : Sleeper) (p : Place) :
    (s.setSleeper thread sleeper).endpoint p = s.endpoint p := rfl

@[simp] theorem endpoint_dequeueAt :
    (s.dequeueAt p ep side).1.endpoint p =
      ep.setQueue side (dequeue s.sched (ep.queue side)).2 := by
  unfold dequeueAt
  simp only
  split <;> simp

theorem endpoint_dequeueAt_ne (ne : q ≠ p) :
    (s.dequeueAt p ep side).1.endpoint q = s.endpoint q := by
  unfold dequeueAt
  simp only
  split
  · exact endpoint_setEndpoint_ne s _ ne
  · exact endpoint_setEndpoint_ne s _ ne

end IpcState

/-- How the rest of a call goes on at the endpoint. -/
def Continues (v : Visit) (next : IpcCall ⊕ Int) (stage : Option Stage) : Prop :=
  match next, stage with
  | .inl call, some stage => call.visit = some { v with stage := stage }
  | .inr _, none => True
  | _, _ => False

/-- The section is one of the moves, and the call goes on in the stage it leads to. -/
def MovesOn (thread : Nat) (s : IpcState) (call : IpcCall) (v : Visit) (done : IpcStep IpcCall) :
    Prop :=
  ∃ stage, Moves thread (call.refused s) s v done.state done.event stage ∧
    Continues v done.next stage

section Sections

variable {thread : Nat} {expired : Bool} {s : IpcState} {call : IpcCall} {v : Visit} {code : Int}

/-- A section that stays in its stage and changes nothing. -/
theorem moves_stay {call' : IpcCall} (visit : call'.visit = some v) :
    MovesOn thread s call v ⟨s, .silent, .inl call'⟩ :=
  ⟨some v.stage, .stays (.same rfl), visit⟩

theorem moves_quit (checking : v.stage = .checking) (why : call.refused s = true) :
    MovesOn thread s call v ⟨s.endTurn thread, .silent, .inr code⟩ :=
  ⟨none, .quits checking why, trivial⟩

/-- The thread that was dequeued is the one to wake. -/
theorem continues_wake {φ : Type} {wrap : φ → IpcCall} {waking : Nat → φ} {event : IpcEvent}
    {out : IpcState × Option Nat}
    (visit : ∀ t, (wrap (waking t)).visit = some { v with stage := .waking t }) :
    Continues v (ofStep wrap (wakeAndReturn waking event code out)).next (out.2.map .waking) := by
  obtain ⟨state, none | t⟩ := out
  · trivial
  · exact visit t

namespace SendCall

theorem described_visit (k : Kernel) (f : SendFrame) :
    (described k f).place = f.place ∧ (described k f).objectRef = f.objectRef := by
  unfold described
  split <;> exact ⟨rfl, rfl⟩

theorem enter_moves (f : SendFrame) :
    MovesOn thread s (.send ⟨f, .enter⟩) ⟨f.place, .send, f.objectRef, .checking⟩
      (ofStep .send (enter thread expired s f)) := by
  unfold enter
  simp only
  split
  · rename_i closed
    exact ⟨none, .passes rfl (.inl closed), trivial⟩
  rename_i ready
  simp only [ne_eq, not_not] at ready
  split
  · rename_i empty
    exact ⟨_, .stores rfl rfl ready empty f.fits, continues_wake fun _ => rfl⟩
  rename_i full
  split
  · exact ⟨none, .counts rfl full (.inl rfl), trivial⟩
  split
  · exact ⟨none, .counts rfl full (.inr rfl), trivial⟩
  · exact ⟨some .blocking, .waits rfl ready full, rfl⟩

theorem step_moves (call : SendCall) :
    MovesOn thread s (.send call) ⟨call.frame.place, .send, call.frame.objectRef, call.pc.stage⟩
      (ofStep .send (call.step thread expired s)) := by
  obtain ⟨f, pc⟩ := call
  cases pc with
  | describe =>
    simp only [step]
    split
    · exact moves_stay rfl
    obtain ⟨place, objectRef⟩ := described_visit s.kernel f
    refine moves_stay ?_
    simp only [visit, place, objectRef]
    rfl
  | capture | captureReply =>
    simp only [step]
    split
    · rename_i failed
      exact moves_quit rfl (by simp [refused, failed, Except.toOption])
    · exact moves_stay rfl
  | checkReply =>
    simp only [step]
    split
    · exact moves_stay rfl
    rename_i asked
    split
    · exact moves_stay rfl
    rename_i failed
    exact moves_quit rfl (by simpa [refused, failed] using asked)
  | recheck =>
    simp only [step]
    split
    · exact moves_stay rfl
    rename_i failed
    exact moves_quit rfl (by simp [refused, failed])
  | recapture | recaptureReply =>
    simp only [step]
    split
    · exact moves_stay rfl
    rename_i asked
    split
    · rename_i failed
      exact moves_quit rfl (by simpa [refused, failed, Except.toOption] using asked)
    · exact moves_stay rfl
  | enter => exact enter_moves f
  | block => exact ⟨some .asleep, .blocks rfl, rfl⟩
  | asleep =>
    simp only [step]
    split
    · rename_i woken
      exact ⟨none, .leaves rfl woken, trivial⟩
    · rename_i woken
      exact ⟨some .checking, .looks rfl (by simpa using woken), rfl⟩
  | wake receiver => exact ⟨none, .wakes rfl, trivial⟩

end SendCall

namespace ReceiveCall

theorem enter_moves (f : ReceiveFrame) :
    MovesOn thread s (.receive ⟨f, .enter⟩) ⟨f.place, .receive, f.objectRef, .checking⟩
      (ofStep .receive (enter thread expired s f)) := by
  unfold enter
  simp only
  split
  · rename_i closed
    exact ⟨none, .passes rfl (.inl closed), trivial⟩
  rename_i ready
  simp only [ne_eq, not_not] at ready
  split
  · rename_i queued
    split
    · rename_i small
      exact moves_quit rfl (by simpa [refused] using small)
    · exact ⟨_, .claims rfl rfl ready queued, rfl⟩
  · rename_i empty
    split
    · exact ⟨none, .passes rfl (.inr empty), trivial⟩
    split
    · exact ⟨none, .counts rfl empty (.inr rfl), trivial⟩
    · exact ⟨some .blocking, .waits rfl ready empty, rfl⟩

variable {claim : Enclosure} {k : Kernel} {cap : Option Installation}

theorem commit_moves {f : ReceiveFrame} {outcome : Except Int Installed} :
    MovesOn thread s (.receive ⟨f, .commit claim outcome⟩)
      ⟨f.place, .receive, f.objectRef, .holding claim⟩
      (ofStep .receive (commit s f claim outcome)) := by
  unfold commit
  simp only
  split
  · rename_i closed
    exact ⟨some .leaving, .closes rfl closed, rfl⟩
  rename_i ready
  replace ready : (s.endpoint f.place).state = .ready := not_not.mp ready
  split
  · split
    · exact ⟨_, .requeues rfl ready, continues_wake fun _ => rfl⟩
    · exact ⟨_, .clears rfl ready (.inl rfl), continues_wake fun _ => rfl⟩
  · exact ⟨_, .clears rfl ready (.inr ⟨_, rfl⟩), continues_wake fun _ => rfl⟩

/-- A section that works on the tables and stays in its stage. -/
theorem moves_shift {call' : IpcCall} (shifts : s.kernel.Shifts k) (visit : call'.visit = some v) :
    MovesOn thread s call v ⟨s.setKernel k, .silent, .inl call'⟩ :=
  ⟨some v.stage, .stays shifts, visit⟩

theorem installCap_shifts {args : ReceiveArgs} {source : BhCapLocator} {rights : CapRightsMask} :
    k.Shifts (installCap k args source rights).1 := by
  unfold installCap
  split <;> rename_i done <;> exact
    .ends (Kernel.transferInstall_acts : Kernel.Acts _ _ .plain fun _ => True).shifts done

theorem afterInstall_stage {kind : ReceiveKind} :
    (afterInstall kind claim cap).stage = .holding claim := by
  cases kind <;> rfl

theorem afterReply_stage : (afterReply claim cap code).stage = .holding claim := by
  unfold afterReply
  split <;> rfl

theorem step_moves (call : ReceiveCall) : MovesOn thread s (.receive call)
      ⟨call.frame.place, .receive, call.frame.objectRef, call.pc.stage⟩
      (ofStep .receive (call.step thread expired s)) := by
  obtain ⟨f, pc⟩ := call
  cases pc with
  | recheck =>
    simp only [step]
    split
    · exact moves_stay rfl
    rename_i failed
    exact moves_quit rfl (by simp [refused, failed])
  | enter => exact enter_moves f
  | block => exact ⟨some .asleep, .blocks rfl, rfl⟩
  | asleep =>
    simp only [step]
    split
    · rename_i woken
      exact ⟨none, .leaves rfl woken, trivial⟩
    · rename_i woken
      exact ⟨some .checking, .looks rfl (by simpa using woken), rfl⟩
  | install claim =>
    simp only [step]
    split
    · split <;> rename_i done
      · refine moves_shift (.ends installCap_shifts done) ?_
        simp only [visit, afterInstall_stage]
        rfl
      · exact moves_shift (.ends installCap_shifts done) rfl
    · refine moves_shift (.same rfl) ?_
      simp only [visit, afterInstall_stage]
      rfl
  | installReply claim cap =>
    simp only [step]
    split
    · split <;> rename_i done
      · exact moves_shift (.ends installCap_shifts done) rfl
      · refine moves_shift (.ends installCap_shifts done) ?_
        simp only [visit, afterReply_stage]
        rfl
    · exact moves_stay rfl
  | rollback claim code capId revoking =>
    cases revoking with
    | none =>
      simp only [step]
      split <;> rename_i done <;> exact moves_shift (.ends (Kernel.revoke_shifts ..) done) rfl
    | some revoking =>
      simp only [step]
      split <;> rename_i done <;>
        exact moves_shift (.ends (Kernel.revoke_step_writes).shifts done) rfl
  | commit claim outcome => exact commit_moves
  | undo pending revoking =>
    cases revoking with
    | none =>
      cases pending with
      | nil => exact ⟨none, .ends rfl, trivial⟩
      | cons capId rest =>
        simp only [step]
        split <;> rename_i done <;> exact moves_shift (.ends (Kernel.revoke_shifts ..) done) rfl
    | some revoking =>
      simp only [step]
      split <;> rename_i done <;>
        exact moves_shift (.ends (Kernel.revoke_step_writes).shifts done) rfl
  | wake woken code => exact ⟨none, .wakes rfl, trivial⟩

end ReceiveCall

end Sections

/-! ## What a move leaves alone -/

namespace IpcEndpoint

theorem Drifts.refl (ep : IpcEndpoint) : Drifts ep ep :=
  ⟨rfl, fun ready => ⟨ready, rfl⟩, .inl ⟨rfl, rfl⟩⟩

variable {ep ep' : IpcEndpoint}

theorem Drifts.of_eq (h : ep' = ep) : Drifts ep ep' := h ▸ .refl ep

theorem Drifts.parcel_kept (h : ep.Drifts ep') (full : ep'.hasMsg ≠ .empty) :
    ep'.parcel = ep.parcel := by
  rcases h.message with ⟨-, parcel⟩ | ⟨empty, -⟩
  · exact parcel
  · exact absurd empty full

/-- Queues and counters do not matter. -/
theorem drifts_fields (claims : ep'.activeClaims = ep.activeClaims) (state : ep'.state = ep.state)
    (generation : ep'.generation = ep.generation) (hasMsg : ep'.hasMsg = ep.hasMsg)
    (parcel : ep'.parcel = ep.parcel) : Drifts ep ep' :=
  ⟨claims, fun ready => ⟨state.symm.trans ready, generation⟩, .inl ⟨hasMsg, parcel⟩⟩

variable (ep : IpcEndpoint)

theorem drifts_discarded : Drifts ep ep.discarded := ⟨rfl, nofun, .inl ⟨rfl, rfl⟩⟩

theorem drifts_countQueued : Drifts ep ep.countQueued := drifts_fields rfl rfl rfl rfl rfl

theorem drifts_uncountQueued : Drifts ep ep.uncountQueued := drifts_fields rfl rfl rfl rfl rfl

theorem drifts_setQueues (senders receivers : List Nat) :
    Drifts ep (ep.setQueues senders receivers) :=
  drifts_fields rfl rfl rfl rfl rfl

theorem drifts_setQueue (side : Side) (queue : List Nat) : Drifts ep (ep.setQueue side queue) :=
  drifts_fields (by simp) (by simp) (by simp) (by simp) (by simp)

end IpcEndpoint

namespace IpcState

open IpcEndpoint

/-- One endpoint drifts and the others are not touched. -/
theorem setEndpoint_drifts {s : IpcState} {p : Place} {ep : IpcEndpoint}
    (h : (s.endpoint p).Drifts ep) (q : Place) :
    (s.endpoint q).Drifts ((s.setEndpoint p ep).endpoint q) := by
  by_cases same : q = p
  · subst same
    rw [endpoint_setEndpoint]
    exact h
  · rw [endpoint_setEndpoint_ne s ep same]
    exact .refl _

variable (s : IpcState) (p : Place) (side : Side) (thread : Nat) (q : Place)

theorem leaveQueue_drifts : (s.endpoint q).Drifts ((s.leaveQueue p side thread).endpoint q) := by
  refine setEndpoint_drifts (.trans ?_ (reclaim_shift _).drifts) q
  refine .trans (drifts_setQueue _ side (((s.endpoint p).queue side).erase thread)) ?_
  split
  · exact drifts_fields rfl rfl rfl rfl rfl
  · exact .refl _

theorem countTurn_drifts : (s.endpoint q).Drifts ((s.countTurn p).endpoint q) :=
  setEndpoint_drifts (drifts_uncountQueued _) q

theorem enqueueAt_drifts (armed : Bool) (q : Place) :
    (s.endpoint q).Drifts ((s.enqueueAt p side thread armed).endpoint q) :=
  setEndpoint_drifts ((drifts_setQueue _ side _).trans (drifts_countQueued _)) q

theorem cancelWaiter_drifts (reason : Int) (q : Place) :
    (s.endpoint q).Drifts ((s.cancelWaiter p thread reason).endpoint q) := by
  have unlinked : ∀ side, (s.endpoint p).Drifts (((s.endpoint p).setQueue side
      (((s.endpoint p).queue side).erase thread)).uncountQueued.tryReclaimLocked) := fun side =>
    ((drifts_setQueue _ side _).trans (drifts_uncountQueued _)).trans (reclaim_shift _).drifts
  unfold cancelWaiter
  simp only
  split
  · exact setEndpoint_drifts (unlinked .send) q
  split
  · exact setEndpoint_drifts (unlinked .receive) q
  · exact setEndpoint_drifts (reclaim_shift _).drifts q

end IpcState

namespace Moves

open IpcEndpoint

variable {thread : Nat} {refused : Bool} {s st : IpcState} {v : Visit} {event : IpcEvent}
  {stage : Option Stage}

/-- Only the endpoint of the call is worked on. -/
theorem elsewhere (h : Moves thread refused s v st event stage) {q : Place} (ne : q ≠ v.place) :
    (s.endpoint q).Drifts (st.endpoint q) := by
  cases h with
  | stays shifts => exact (shifts.endpoint q.1 q.2).drifts
  | ends | quits | passes | blocks | wakes => exact .refl _
  | counts | claims | closes => exact .of_eq (endpoint_setEndpoint_ne _ _ ne)
  | stores | requeues | clears => exact .of_eq (endpoint_dequeueAt_ne _ _ _ ne)
  | waits => exact enqueueAt_drifts (s.endTurn thread) ..
  | leaves => exact leaveQueue_drifts ..
  | looks => exact countTurn_drifts ..

end Moves

end BharatOS
