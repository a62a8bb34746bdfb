import BharatOS.Ipc.Calls

/-!
# Threads on endpoints

The capability system together with the threads that send to endpoints, receive from them and wait
at them.
-/

namespace BharatOS

open Function

inductive IpcCall where
  | resolveSend (args : SendArgs) (objectRef : BitVec 64)
  | send (call : SendCall)
  | resolveReceive (args : ReceiveArgs) (objectRef : BitVec 64)
  | receive (call : ReceiveCall)
  | create (call : EndpointCreateCall)

namespace IpcCall

/-- The endpoint that a call works on. -/
def place : IpcCall → Option Place
  | .send call => some call.frame.place
  | .receive call => some call.frame.place
  | _ => none

def isAsleep : IpcCall → Bool
  | .send ⟨_, .asleep⟩ | .receive ⟨_, .asleep⟩ => true
  | _ => false

/-- A section of one kind of call as a section of a call. -/
def ofStep {φ : Type} (wrap : φ → IpcCall) (done : IpcStep φ) : IpcStep IpcCall :=
  ⟨done.state, done.event, done.next.map wrap id⟩

def step (thread : Nat) (expired : Bool) (s : IpcState) : IpcCall → IpcStep IpcCall
  | .resolveSend args objectRef =>
    match args.resolve s.kernel objectRef with
    | .error code => ⟨s, .silent, .inr code⟩
    | .ok f => ⟨s, .silent, .inl (.send ⟨f, .describe⟩)⟩
  | .send call => ofStep .send (call.step thread expired s)
  | .resolveReceive args objectRef =>
    match args.resolve s.kernel objectRef with
    | .error code => ⟨s, .silent, .inr code⟩
    | .ok f => ⟨s, .silent, .inl (.receive ⟨f, .recheck⟩)⟩
  | .receive call => ofStep .receive (call.step thread expired s)
  | .create call => ofStep .create (call.step expired s)

end IpcCall

namespace IpcState

/-- The lock section of `ipc_endpoint_cancel_waiter` and of each round of
`ipc_endpoint_cancel_all_for_thread`. -/
def cancelWaiter (s : IpcState) (p : Place) (thread : Nat) (cancelReason : Int) : IpcState :=
  let ep := s.endpoint p
  let unlink : Side → IpcState := fun side =>
    let left := (ep.setQueue side ((ep.queue side).erase thread)).uncountQueued
    (s.setEndpoint p left.tryReclaimLocked).setSleeper thread
      { s.sched thread with
        wakeupReason := if cancelReason ≠ 0 then cancelReason else -9
        armed := false
        waking := true }
  if thread ∈ ep.senders then unlink .send
  else if thread ∈ ep.receivers then unlink .receive
  else s.setEndpoint p ep.tryReclaimLocked

end IpcState

/-- A queue whose link behind the thread was cleared. -/
def cutBehind (thread : Nat) (queue : List Nat) : List Nat :=
  if thread ∈ queue then queue.takeWhile (· ≠ thread) ++ [thread] else queue

/-- All threads and all cores. `sends` and `receipts` are not in the code: the messages
stored in an endpoint since it was opened, and the successful receives with the number
of the message that was last stored when they succeeded. -/
structure IpcSystem where
  system : System
  sched : Nat → Sleeper
  calls : Nat → Option IpcCall
  sends : Place → List Parcel
  receipts : Place → List (Nat × Receipt)

/-- `resume` is the next section of a thread's call, `loseWake` the same section when
`sched_wakeup` has no command to send to the other core, `wakeUp` the arrival of a
wake-up. The deadline sweep of the scheduler is `timeout`. -/
inductive IpcAction where
  | act (a : Action)
  | create (thread : Nat) (core : Core) (table : TableRef)
  | send (thread : Nat) (args : SendArgs)
  | receive (thread : Nat) (args : ReceiveArgs)
  | resume (thread : Nat) (expired : Bool)
  | loseWake (thread : Nat)
  | wakeUp (thread : Nat)
  | ownerClose (place : Place)
  | cancel (place : Place) (thread : Nat) (cancelReason : Int)
  | timeout (thread : Nat)
  | relink (place : Place) (senders receivers : List Nat)

namespace IpcSystem

def boot (bound : Core → Bool) (pmmInitialized : Bool) : IpcSystem where
  system := .boot bound pmmInitialized
  sched := fun _ => .awake
  calls := fun _ => none
  sends := fun _ => []
  receipts := fun _ => []

def state (s : IpcSystem) : IpcState := ⟨s.system.kernel, s.sched⟩

def endpoint (s : IpcSystem) (p : Place) : IpcEndpoint := s.system.kernel.endpoints p.1 p.2

def setState (s : IpcSystem) (st : IpcState) : IpcSystem :=
  { s with system := s.system.setKernel st.kernel, sched := st.sched }

def setCall (s : IpcSystem) (thread : Nat) (call : Option IpcCall) : IpcSystem :=
  { s with calls := update s.calls thread call }

/-- Keep the log. -/
def note (s : IpcSystem) : IpcEvent → IpcSystem
  | .silent | .claimed .. => s
  | .opened p =>
    { s with
      sends := update s.sends p []
      receipts := update s.receipts p [] }
  | .stored p _ parcel => { s with sends := update s.sends p (s.sends p ++ [parcel]) }
  | .taken p receipt =>
    { s with
      receipts := update s.receipts p
        (s.receipts p ++ [((s.sends p).length - 1, receipt)]) }

/-- A section of a call as the system sees it. -/
def afterStep (s : IpcSystem) (thread : Nat) (done : IpcStep IpcCall) : IpcSystem :=
  ((s.setState done.state).setCall thread (done.next.elim some fun _ => none)).note done.event

/-- Whether the thread was in a queue that was emptied because the endpoint closed. -/
def letGo (before after : IpcEndpoint) (thread : Nat) : Bool :=
  before.state == .ready && after.state != .ready &&
    decide (thread ∈ before.senders ++ before.receivers) &&
    !decide (thread ∈ after.senders ++ after.receivers)

/-- A closing endpoint wakes the blocked threads of its queues. -/
def wakeLetGo (before after : IpcSystem) : IpcSystem :=
  { after with
    sched := fun thread =>
      match (before.calls thread).bind IpcCall.place with
      | none => after.sched thread
      | some p =>
        if letGo (before.endpoint p) (after.endpoint p) thread ∧ (before.sched thread).blocked then
          { after.sched thread with wakeupReason := -7, armed := false, waking := true }
        else after.sched thread }

/-- A thread that is in no call yet. -/
def idle (s : IpcSystem) (thread : Nat) : Bool :=
  (s.calls thread).isNone && (s.system.calls thread).isNone

/-- The thread that a call is about to wake. -/
def wakes : IpcCall → Option (Nat × Int)
  | .send ⟨_, .wake receiver⟩ => some (receiver, 0)
  | .receive ⟨_, .wake thread code⟩ => some (thread, code)
  | _ => none

/-- The effect of an action before the threads of a closed endpoint are woken. -/
def perform (s : IpcSystem) : IpcAction → Option (IpcSystem × IpcEvent)
  | .act a => (s.system.step a).map fun done => ({ s with system := done.1 }, .silent)
  | .create thread core table =>
    if s.idle thread then
      let done := IpcCall.ofStep .create (EndpointCreateCall.start s.state core table)
      some (s.afterStep thread done, done.event)
    else none
  | .send thread args =>
    if s.idle thread then
      match args.start s.state.kernel with
      | .error _ => some (s, .silent)
      | .ok objectRef => some (s.setCall thread (some (.resolveSend args objectRef)), .silent)
    else none
  | .receive thread args =>
    if s.idle thread then
      match args.start s.state.kernel with
      | .error _ => some (s, .silent)
      | .ok objectRef => some (s.setCall thread (some (.resolveReceive args objectRef)), .silent)
    else none
  | .resume thread expired =>
    match s.calls thread with
    | none => none
    | some call =>
      if call.isAsleep ∧ (s.sched thread).blocked then none
      else
        let done := call.step thread expired s.state
        some (s.afterStep thread done, done.event)
  | .loseWake thread =>
    match (s.calls thread).bind wakes with
    | none => none
    | some (woken, _) =>
      some ((s.setState (s.state.setSleeper woken
        { s.sched woken with wakeupReason := 0, armed := false, turn := false })).setCall thread
          none, .silent)
  | .wakeUp thread =>
    if (s.sched thread).waking then
      some (s.setState (s.state.setSleeper thread
        { s.sched thread with blocked := false, waking := false }), .silent)
    else none
  | .ownerClose p => some (s.setState (s.state.setEndpoint p (s.endpoint p).ownerClose.1), .silent)
  | .cancel p thread cancelReason =>
    some (s.setState (s.state.cancelWaiter p thread cancelReason), .silent)
  | .timeout thread =>
    if (s.sched thread).blocked ∧ (s.sched thread).armed then
      let woken := s.state.setSleeper thread
        { s.sched thread with blocked := false, wakeupReason := -3, armed := false }
      match (s.calls thread).bind IpcCall.place with
      | none => some (s.setState woken, .silent)
      | some p =>
        let ep := s.endpoint p
        some (s.setState (woken.setEndpoint p
          (ep.setQueues (cutBehind thread ep.senders) (cutBehind thread ep.receivers))), .silent)
    else none
  | .relink p senders receivers =>
    some (s.setState (s.state.setEndpoint p ((s.endpoint p).setQueues senders receivers)), .silent)

/-- The state after an action and what it did; `none` if it is not enabled. -/
def step (s : IpcSystem) (a : IpcAction) : Option (IpcSystem × IpcEvent) :=
  (s.perform a).map fun done => (s.wakeLetGo done.1, done.2)

def next (s : IpcSystem) (a : IpcAction) : Option IpcSystem := (s.step a).map Prod.fst

/-- One action of the system. -/
def Steps (s : IpcSystem) (a : IpcAction) (s' : IpcSystem) : Prop := s.next a = some s'

end IpcSystem

end BharatOS
