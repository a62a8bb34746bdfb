import BharatOS.Cap.Handler
import BharatOS.Cap.Revoke
import BharatOS.Lib.Runs

/-!
# The system

All cores together. An action is one lock section, one call that has only one, or the arrival of a
word. Any action that is enabled may be the next one.
-/

namespace BharatOS

open Function Option

inductive Call where
  | delegate (call : DelegateCall)
  | revoke (call : RevokeCall)

def Call.core : Call → Core
  | .delegate call => call.frame.core
  | .revoke call => call.frame.core

structure System where
  kernel : Kernel
  calls : Nat → Option Call
  handlers : Core → Option HandlerCall

/-- A call that takes more than one section belongs to a thread. -/
inductive Action where
  | create (core : Core) (kmalloc : Bool)
  | destroy (core : Core) (table : TableRef)
  | grant (core : Core) (table : TableRef) (type : CapType) (objectRef : BitVec 64)
      (rights : CapRightsMask)
  | delegate (thread : Nat) (core : Core) (src dst : TableRef) (capId : BitVec 32)
      (rights : CapRightsMask)
  | transfer (core : Core) (locator : BhCapLocator) (destination : TableRef)
      (rights : CapRightsMask)
  | revoke (thread : Nat) (core : Core) (table : TableRef) (capId : BitVec 32)
  | pin (table : TableRef) (req : CapValidationRequest)
  | unpin (table : TableRef) (pinnedSlot : Nat)
  | resume (thread : Nat) (expired : Bool)
  | post (core : Core) (message : Message)
  | receive (core : Core)
  | handle (core : Core)

/-- What a call returned, if one did. -/
inductive Event where
  | silent
  | made (table : TableRef) (result : Except Int (BitVec 32))
  | revoked (result : Int)
  deriving DecidableEq

namespace System

def boot (bound : Core → Bool) (pmmInitialized : Bool) : System where
  kernel := .boot bound pmmInitialized
  calls := fun _ => none
  handlers := fun _ => none

def setKernel (s : System) (k : Kernel) : System := { s with kernel := k }

def setCall (s : System) (thread : Nat) (call : Option Call) : System :=
  { s with calls := update s.calls thread call }

def setHandler (s : System) (core : Core) (handler : Option HandlerCall) : System :=
  { s with handlers := update s.handlers core handler }

/-- A section of a call as the system sees it: the thread stays in the call, or the
call returns. -/
def afterCall {γ ρ : Type} (s : System) (thread : Nat) (call : γ → Call) (event : ρ → Event)
    (done : Kernel × (γ ⊕ ρ)) : System × Event :=
  match done with
  | (k, .inl c) => ((s.setKernel k).setCall thread (some (call c)), .silent)
  | (k, .inr result) => ((s.setKernel k).setCall thread none, event result)

def afterDelegate (s : System) (thread : Nat) (dst : TableRef)
    (done : Kernel × (DelegateCall ⊕ Except Int (BitVec 32))) : System × Event :=
  s.afterCall thread .delegate (.made dst) done

def afterRevoke (s : System) (thread : Nat) (done : Kernel × (RevokeCall ⊕ Int)) :
    System × Event :=
  s.afterCall thread .revoke .revoked done

variable {γ ρ : Type} {s s' : System}

@[simp] theorem afterCall_kernel {s : System} {thread : Nat} {call : γ → Call} {event : ρ → Event}
    {done : Kernel × (γ ⊕ ρ)} : (s.afterCall thread call event done).1.kernel = done.1 := by
  obtain ⟨k, c | result⟩ := done <;> rfl

/-- The dispatch loop takes the oldest word. A request starts the handler, an
acknowledgement is dealt with at once. -/
def receive (s : System) (core : Core) (message : Message) (rest : List Message) : System :=
  let k := { s.kernel with inbox := update s.kernel.inbox core rest }
  let msg := urpcUnpackMsg message.raw
  if msg.type = UrpcMsgType.capDelegateReq.code ∨ msg.type = UrpcMsgType.capRevoke.code then
    (s.setKernel k).setHandler core (k.receiveReq core msg.payload message.source)
  else if msg.type = UrpcMsgType.capDelegateAck.code ∨
      msg.type = UrpcMsgType.capRevokeAck.code then
    s.setKernel (k.capHandleTxAck core msg.payload)
  else s.setKernel k

/-- The state after an action and what it returned; `none` if it is not enabled. -/
def step (s : System) : Action → Option (System × Event)
  | .create core kmalloc => some (s.setKernel (s.kernel.capTableCreate core kmalloc).1, .silent)
  | .destroy core table => some (s.setKernel (s.kernel.capTableDestroy core table).1, .silent)
  | .grant core table type objectRef rights =>
    let done := s.kernel.capTableGrant core table type objectRef rights
    some (s.setKernel done.1, .made table done.2)
  | .delegate thread core src dst capId rights =>
    if (s.calls thread).isSome then none
    else some (s.afterDelegate thread dst (s.kernel.capTableDelegate core src dst capId rights))
  | .transfer core locator destination rights =>
    let done := s.kernel.bhCapTransferInstall core locator destination rights
    some (s.setKernel done.1, .made destination done.2)
  | .revoke thread core table capId =>
    if (s.calls thread).isSome then none
    else some (s.afterRevoke thread (s.kernel.capTableRevoke core table capId))
  | .pin table req => some (s.setKernel (s.kernel.capValidateAndPin table req).1, .silent)
  | .unpin table pinnedSlot => some (s.setKernel (s.kernel.capUnpin table pinnedSlot), .silent)
  | .resume thread expired =>
    match s.calls thread with
    | none => none
    | some (.delegate call) =>
      some (s.afterDelegate thread call.frame.dst (call.step expired s.kernel))
    | some (.revoke call) => some (s.afterRevoke thread (call.step expired s.kernel))
  | .post core message =>
    some (s.setKernel { s.kernel with
      inbox := update s.kernel.inbox core (s.kernel.inbox core ++ [message]) }, .silent)
  | .receive core =>
    if (s.handlers core).isSome then none
    else
      match s.kernel.inbox core with
      | [] => none
      | message :: rest => some (s.receive core message rest, .silent)
  | .handle core =>
    match s.handlers core with
    | none => none
    | some call =>
      match call.step s.kernel with
      | (k, .inl call') => some ((s.setKernel k).setHandler core (some call'), .silent)
      | (k, .inr ()) => some ((s.setKernel k).setHandler core none, .silent)

/-- One action of the system, whatever it returned. -/
def Steps (s : System) (a : Action) (s' : System) : Prop := ∃ event, s.step a = some (s', event)

/-! ## Where a call and a handler come from -/

/-- How a thread comes to be in `call` after an action. -/
inductive InCall (s : System) (a : Action) (s' : System) (thread : Nat) : Call → Prop
  | before {call : Call} (was : s.calls thread = some call)
      (other : ∀ expired, a ≠ .resume thread expired) : InCall s a s' thread call
  | delegates {core : Core} {src dst : TableRef} {capId : BitVec 32} {rights : CapRightsMask}
      {call : DelegateCall} (start : a = .delegate thread core src dst capId rights)
      (first : s.kernel.capTableDelegate core src dst capId rights = (s'.kernel, .inl call)) :
      InCall s a s' thread (.delegate call)
  | revokes {core : Core} {table : TableRef} {capId : BitVec 32} {call : RevokeCall}
      (start : a = .revoke thread core table capId)
      (first : s.kernel.capTableRevoke core table capId = (s'.kernel, .inl call)) :
      InCall s a s' thread (.revoke call)
  | delegating {expired : Bool} {call call' : DelegateCall} (resumed : a = .resume thread expired)
      (was : s.calls thread = some (.delegate call))
      (next : call.step expired s.kernel = (s'.kernel, .inl call')) :
      InCall s a s' thread (.delegate call')
  | revoking {expired : Bool} {call call' : RevokeCall} (resumed : a = .resume thread expired)
      (was : s.calls thread = some (.revoke call))
      (next : call.step expired s.kernel = (s'.kernel, .inl call')) :
      InCall s a s' thread (.revoke call')

variable {done : Kernel × (γ ⊕ ρ)} {e : Event} {event : ρ → Event} {thread : Nat} {wrap : γ → Call}
  {a : Action}

/-- The section after which a call returned. -/
theorem afterCall_returned (h : s.afterCall thread wrap event done = (s', e)) (loud : e ≠ .silent) :
    ∃ result, done = (s'.kernel, .inr result) ∧ e = event result := by
  obtain ⟨k, c | result⟩ := done
  · exact absurd (Prod.mk.inj h).2.symm loud
  cases h
  exact ⟨result, rfl, rfl⟩

/-- How a core comes to be in `call` after an action. -/
inductive InHandler (s : System) (a : Action) (s' : System) (core : Core) : HandlerCall → Prop
  | before {call : HandlerCall} (was : s.handlers core = some call) (other : a ≠ .handle core) :
      InHandler s a s' core call
  | receives {message : Message} {rest : List Message} {call : HandlerCall}
      (start : a = .receive core) (idle : s.handlers core = none)
      (inbox : s.kernel.inbox core = message :: rest)
      (popped : s'.kernel =
        { s.kernel with inbox := update s.kernel.inbox core rest })
      (request : (urpcUnpackMsg message.raw).type = UrpcMsgType.capDelegateReq.code ∨
        (urpcUnpackMsg message.raw).type = UrpcMsgType.capRevoke.code)
      (first : s'.kernel.receiveReq core (urpcUnpackMsg message.raw).payload message.source =
        some call) : InHandler s a s' core call
  | handling {call call' : HandlerCall} (goes : a = .handle core)
      (was : s.handlers core = some call) (next : call.step s.kernel = (s'.kernel, .inl call')) :
      InHandler s a s' core call'

theorem afterCall_origin (h : s.afterCall thread wrap event done = (s', e))
    (mine : ∀ core, a ≠ .handle core) (other : ∀ t ≠ thread, ∀ expired, a ≠ .resume t expired)
    (goes : ∀ c, done = (s'.kernel, .inl c) → InCall s a s' thread (wrap c)) :
    (∀ thread call, s'.calls thread = some call → InCall s a s' thread call) ∧
    ∀ core call, s'.handlers core = some call → InHandler s a s' core call := by
  obtain ⟨k, c | result⟩ := done <;> cases h <;>
    refine ⟨fun t call now => ?_, fun _ _ now => .before now (mine _)⟩ <;>
    simp only [setCall, setKernel] at now <;> by_cases same : t = thread
  · subst same
    rw [update_self] at now
    cases now
    exact goes c rfl
  · rw [update_of_ne same] at now
    exact .before now (other t same)
  · subst same
    rw [update_self] at now
    cases now
  · rw [update_of_ne same] at now
    exact .before now (other t same)

theorem receive_handlers {core core' : Core} {message : Message} {rest : List Message}
    {call : HandlerCall} (start : a = .receive core') (idle : s.handlers core' = none)
    (inbox : s.kernel.inbox core' = message :: rest)
    (now : (s.receive core' message rest).handlers core = some call) :
    InHandler s a (s.receive core' message rest) core call := by
  subst start
  unfold receive at now ⊢
  simp only at now ⊢
  split at now
  · rename_i request
    rw [if_pos request]
    by_cases same : core = core'
    · subst same
      simp only [setHandler, update_self] at now
      exact .receives rfl idle inbox rfl request now
    · exact .before (by simpa [setHandler, setKernel, same] using now) (by simp)
  · refine .before ?_ (by simp)
    split at now <;> exact now

theorem step_origin (h : Steps s a s') :
    (∀ thread call, s'.calls thread = some call → InCall s a s' thread call) ∧
    ∀ core call, s'.handlers core = some call → InHandler s a s' core call := by
  obtain ⟨event, h⟩ := h
  cases a with
  | create | destroy | grant | transfer | pin | unpin | post =>
    cases h
    exact ⟨fun _ _ now => .before now (by simp), fun _ _ now => .before now (by simp)⟩
  | delegate thread core src dst capId rights =>
    simp only [step] at h
    split at h
    · cases h
    · exact afterCall_origin (some.inj h) (by simp) (by simp) fun _ done => .delegates rfl done
  | revoke thread core table capId =>
    simp only [step] at h
    split at h
    · cases h
    · exact afterCall_origin (some.inj h) (by simp) (by simp) fun _ done => .revokes rfl done
  | resume thread expired =>
    have other : ∀ t ≠ thread, ∀ e, Action.resume thread expired ≠ .resume t e := by
      intro t ne e same
      cases same
      exact ne rfl
    simp only [step] at h
    split at h
    · cases h
    · rename_i was
      exact afterCall_origin (some.inj h) (by simp) other fun _ done => .delegating rfl was done
    · rename_i was
      exact afterCall_origin (some.inj h) (by simp) other fun _ done => .revoking rfl was done
  | receive core' =>
    simp only [step] at h
    split at h
    · cases h
    rename_i idle
    split at h
    · cases h
    rename_i message rest inbox
    cases h
    refine ⟨fun thread call now => .before ?_ (by simp), fun core call now =>
      receive_handlers rfl (by simpa using idle) inbox now⟩
    unfold receive at now
    simp only at now
    repeat' split at now
    all_goals exact now
  | handle core' =>
    simp only [step] at h
    split at h
    · cases h
    rename_i c was
    split at h <;> rename_i next <;> cases h <;>
      refine ⟨fun _ _ now => .before now (by simp), fun core call now => ?_⟩ <;>
      by_cases same : core = core'
    · subst same
      simp only [setHandler, update_self] at now
      cases now
      exact .handling rfl was next
    · exact .before (by simpa [setHandler, setKernel, same] using now)
        (by simpa using fun e => same e.symm)
    · subst same
      simp only [setHandler, update_self] at now
      cases now
    · exact .before (by simpa [setHandler, setKernel, same] using now)
        (by simpa using fun e => same e.symm)

/-- Take the actions one after the other. -/
def exec : System → List Action → Option System
  | s, [] => some s
  | s, a :: rest => (s.step a).bind fun done => exec done.1 rest

theorem run_of_exec {actions : List Action} (h : s.exec actions = some s') :
    Run Steps (fun _ _ => True) s s' := by
  induction actions generalizing s with
  | nil => cases h; exact .refl
  | cons a rest ih =>
    obtain ⟨⟨s₁, event⟩, now, later⟩ := bind_eq_some_iff.mp h
    exact .trans (.tail .refl trivial ⟨event, now⟩) (ih later)

end System

end BharatOS
