import BharatOS.Fabric.Traffic

/-!
# Draining a core's lanes (`bh_mk_drain_local`) and the fabric at work

A drain forgets the pending bits of its core and then takes messages lane by lane until
its budget is used up or the lanes are empty. Other calls come between its accesses.
-/

namespace BharatOS

open Function

inductive DrainLoop where
  | control (count : Nat)
  | normal (count : Nat)
  | bulk (count : Nat)
  | rest (next : BhMkLane)
  deriving DecidableEq, Repr

/-- A drain in progress, with the message that it took and has not dispatched yet. That
message counts as processed already: the counter is the drain's own. -/
structure DrainCall where
  budget : BitVec 32
  processed : Nat
  loop : DrainLoop
  hand : Option BhMkWireMessage
  deriving DecidableEq, Repr

namespace DrainCall

def controlLimit (budget : BitVec 32) : BitVec 32 :=
  let limit := budget * 5 / 8
  if limit < 4 then 4 else limit

def normalLimit (budget : BitVec 32) : BitVec 32 :=
  let limit := budget * 3 / 8
  if limit < 2 then 2 else limit

def bulkLimit (budget : BitVec 32) : BitVec 32 :=
  let limit := budget - controlLimit budget - normalLimit budget
  if limit < 1 then 1 else limit

def goto (call : DrainCall) (loop : DrainLoop) : DrainCall ⊕ Unit := .inl { call with loop := loop }

/-- Take a message from a lane, or go on as said if there is none. -/
def take (F : Fabric) (core : FabricCore) (call : DrainCall) (k : BhMkLane) (found : DrainLoop)
    (otherwise : DrainCall ⊕ Unit) : Fabric × (DrainCall ⊕ Unit) :=
  match (F.lane core k).dequeue with
  | none => (F, otherwise)
  | some (msg, l) =>
    (F.setLane core k l, .inl ⟨call.budget, call.processed + 1, found, some msg⟩)

/-- One of the three loops that are limited by lane. -/
def limited (F : Fabric) (core : FabricCore) (call : DrainCall) (k : BhMkLane) (count : Nat)
    (limit : BitVec 32) (again next : DrainLoop) : Fabric × (DrainCall ⊕ Unit) :=
  if count < limit.toNat ∧ call.processed < call.budget.toNat then
    call.take F core k again (call.goto next)
  else (F, call.goto next)

def step (core : FabricCore) : Sections Fabric DrainCall Unit := fun F call =>
  match call.hand with
  | some msg => (F.bhMkDispatchInternal core msg, .inl { call with hand := none })
  | none =>
    match call.loop with
    | .control count =>
      call.limited F core .control count (controlLimit call.budget) (.control (count + 1)) (.normal 0)
    | .normal count =>
      call.limited F core .normal count (normalLimit call.budget) (.normal (count + 1)) (.bulk 0)
    | .bulk count =>
      call.limited F core .bulk count (bulkLimit call.budget) (.bulk (count + 1)) (.rest .control)
    | .rest .control =>
      if call.processed < call.budget.toNat then
        call.take F core .control (.rest .control) (call.goto (.rest .normal))
      else (F, .inr ())
    | .rest .normal => call.take F core .normal (.rest .control) (call.goto (.rest .bulk))
    | .rest .bulk => call.take F core .bulk (.rest .control) (.inr ())

/-- The drain took a message, or went on without one. -/
def Took (F : Fabric) (core : FabricCore) (call : DrainCall) (done : Fabric × (DrainCall ⊕ Unit)) :
    Prop :=
  (done.1 = F ∧ ∀ c ∈ done.2.getLeft?, c.hand = call.hand) ∨
    ∃ k msg l c, (F.lane core k).dequeue = some (msg, l) ∧ done = (F.setLane core k l, .inl c) ∧
      c.hand = some msg

variable {F : Fabric} {call : DrainCall} {core : FabricCore}

theorem take_took {k : BhMkLane} {found : DrainLoop} {otherwise : DrainCall ⊕ Unit}
    (keeps : ∀ c ∈ otherwise.getLeft?, c.hand = call.hand) :
    call.Took F core (call.take F core k found otherwise) := by
  unfold take
  split
  · exact .inl ⟨rfl, keeps⟩
  rename_i msg l is
  exact .inr ⟨k, msg, l, _, is, rfl, rfl⟩

theorem goto_keeps {loop : DrainLoop} : ∀ c ∈ (call.goto loop).getLeft?, c.hand = call.hand := by
  rintro c is
  cases is
  rfl

/-- A drain with a message in hand dispatches it; without one it looks for the next. -/
theorem step_took (free : call.hand = none) : call.Took F core (call.step core F) := by
  have limited_took : ∀ k count limit again next,
      call.Took F core (call.limited F core k count limit again next) := by
    intro k count limit again next
    unfold limited
    split
    · exact take_took goto_keeps
    · exact .inl ⟨rfl, goto_keeps⟩
  unfold step
  rw [free]
  dsimp only
  split
  · exact limited_took ..
  · exact limited_took ..
  · exact limited_took ..
  · split
    · exact take_took goto_keeps
    · exact .inl ⟨rfl, nofun⟩
  · exact take_took goto_keeps
  · exact take_took nofun

end DrainCall

/-! ## All cores together -/

/-- The fabric, the drains in progress, and whether a core's doorbell has rung since its
last drain began. -/
structure FabricSystem where
  fabric : Fabric
  drains : FabricCore → Option DrainCall
  rung : FabricCore → Bool

inductive FabricAction where
  | tick (delta : Nat)
  | bind (core : FabricCore) (messageClass opcode : BitVec 32)
  | unbind (core : FabricCore) (handle : BitVec 64)
  | reap (core : FabricCore) (handle : BhMkTxHandle)
  | send (core : FabricCore) (args : Fabric.SendArgs)
  | drain (core : FabricCore) (budget : BitVec 32)
  | resume (core : FabricCore)
  deriving DecidableEq, Repr

namespace FabricSystem

def start (profile : BharatProfile) : FabricSystem :=
  ⟨bhMkFabricInit profile, fun _ => none, fun _ => false⟩

/-- A notification rings the doorbell of a core that had no pending bit. -/
def become (s : FabricSystem) (F : Fabric) : FabricSystem :=
  { s with
    fabric := F
    rung := fun c => s.rung c || (s.fabric.pendingLanes c == 0 && F.pendingLanes c != 0) }

def setDrain (s : FabricSystem) (core : FabricCore) (call : Option DrainCall) : FabricSystem :=
  { s with drains := update s.drains core call }

variable {core d : FabricCore} {s : FabricSystem}

theorem drains_setDrain {call : Option DrainCall} {c : DrainCall}
    (is : (s.setDrain core call).drains d = some c) :
    d = core ∧ call = some c ∨ d ≠ core ∧ s.drains d = some c := by
  by_cases same : d = core
  · subst same
    simp only [setDrain, update_self] at is
    exact .inl ⟨rfl, is⟩
  · simp only [setDrain, update_of_ne same] at is
    exact .inr ⟨same, is⟩

theorem drains_setDrain_none {call : DrainCall}
    (none : (s.setDrain core (some call)).drains d = none) : d ≠ core ∧ s.drains d = .none := by
  by_cases same : d = core
  · subst same
    simp [setDrain] at none
  · simp only [setDrain, update_of_ne same] at none
    exact ⟨same, none⟩

/-- The atomic exchange that begins a drain. -/
def clearPending (s : FabricSystem) (core : FabricCore) : FabricSystem :=
  { s with
    fabric := { s.fabric with pendingLanes := update s.fabric.pendingLanes core 0 }
    rung := update s.rung core false }

/-- After a stretch of work of a drain. -/
def resumed (s : FabricSystem) (core : FabricCore) : Fabric × (DrainCall ⊕ Unit) → FabricSystem
  | (F, .inl call) => (s.become F).setDrain core (some call)
  | (F, .inr ()) => (s.become F).setDrain core none

def step (s : FabricSystem) : FabricAction → Option FabricSystem
  | .tick delta => some { s with
      fabric := { s.fabric with ticks := s.fabric.ticks + BitVec.ofNat 64 delta } }
  | .bind core messageClass opcode =>
    some (s.become (s.fabric.bhMkEndpointBind core messageClass opcode).1)
  | .unbind core handle => some (s.become (s.fabric.bhMkEndpointUnbind core handle).1)
  | .reap core handle => some (s.become (s.fabric.bhMkTxReap core handle).1)
  | .send core args => some (s.become (s.fabric.bhMkSend core args).1)
  | .drain core budget =>
    if (s.drains core).isSome then none
    else if (s.fabric.cores core).ready = false then some s
    else some ((s.clearPending core).setDrain core (some ⟨budget, 0, .control 0, none⟩))
  | .resume core =>
    match s.drains core with
    | none => none
    | some call => some (s.resumed core (call.step core s.fabric))

abbrev Steps (s : FabricSystem) (a : FabricAction) (t : FabricSystem) : Prop := s.step a = some t

end FabricSystem

end BharatOS
