import BharatOS.Fabric.Stranded

/-!
# A drain that no other call comes between

What is left to disturb it are the handlers it calls and the error replies it sends.
-/

namespace BharatOS

open DrainCall FabricSystem

def DrainLoop.lane : DrainLoop → BhMkLane
  | .control _ => .control
  | .normal _ => .normal
  | .bulk _ => .bulk
  | .rest next => next

/-- A message on its way to the dispatcher: the lane it was on, and the fabric it meets. -/
structure Dispatch where
  fabric : Fabric
  lane : BhMkLane
  msg : BhMkWireMessage

/-- What the handler of a message does to the fabric. The number, which counts the messages of
the drain, stands for all else that the handler looks at. -/
abbrev Handlers := Nat → Fabric → BhMkWireMessage → Fabric

/-- The rest of a drain, with the messages that it dispatches. -/
def DrainCall.alone (handlers : Handlers) (core : FabricCore) :
    Nat → Fabric → DrainCall → Option (Fabric × List Dispatch)
  | 0, _, _ => none
  | fuel + 1, F, call =>
    match call.step core F with
    | (G, .inr ()) => some (G, [])
    | (G, .inl next) =>
      match call.hand with
      | some msg => alone handlers core fuel (handlers call.processed G msg) next
      | none => (alone handlers core fuel G next).map fun (H, log) =>
          (H, (next.hand.map (⟨G, call.loop.lane, ·⟩)).toList ++ log)

/-- `bh_mk_drain_local`; on a core that is not ready it fails at once. -/
def Fabric.bhMkDrainLocal (F : Fabric) (handlers : Handlers) (core : FabricCore) (budget : BitVec 32)
    (fuel : Nat) : Option (Fabric × List Dispatch) :=
  if (F.cores core).ready = false then some (F, [])
  else
    DrainCall.alone handlers core fuel
      { F with pendingLanes := Function.update F.pendingLanes core 0 } ⟨budget, 0, .control 0, none⟩

/-- The dispatcher does not send the draining core itself an error reply. -/
def Dispatch.Outward (core : FabricCore) (d : Dispatch) : Prop :=
  d.fabric.Refused core d.msg → d.msg.header.srcCore.toNat ≠ core

/-- The messages of a lane, in the order in which they were dispatched. -/
def ofLane (log : List Dispatch) (k : BhMkLane) : List BhMkWireMessage :=
  (log.filter (·.lane = k)).map (·.msg)

theorem Dispatch.Outward.lane {core : FabricCore} {d : Dispatch} (h : d.Outward core) :
    (d.fabric.bhMkDispatchInternal core d.msg).lane core = d.fabric.lane core := by
  obtain ⟨answers, quiet | refused⟩ := Fabric.dispatch_answers d.fabric core d.msg
  · rw [quiet.lane]
  rcases answers with quiet | ⟨dst, src, rings | ⟨reply, -, puts⟩⟩
  · rw [quiet.lane]
  · rw [rings.lane]
  obtain ⟨l, -, lanes⟩ := puts.lane
  funext k
  rw [lanes, if_neg]
  rintro ⟨rfl, -⟩
  exact h refused src

section

variable (handlers : Handlers) (core : FabricCore) (budget : BitVec 32)

/-- From here the drain returns, and if it does not answer itself, it dispatches as many messages as
it may, those of each lane in order. -/
def Exact (F : Fabric) (processed : Nat) (loop : DrainLoop) : Prop :=
  ∃ fuel G log, DrainCall.alone handlers core fuel F ⟨budget, processed, loop, none⟩ = some (G, log) ∧
    ((∀ d ∈ log, d.Outward core) → log.length = min (budget.toNat - processed) (queued F core) ∧
      ∀ k, ofLane log k ++ (G.lane core k).messages = (F.lane core k).messages)

variable {handlers core budget} {F : Fabric} {processed : Nat} {loop next : DrainLoop}
  (away : ∀ n F msg, (handlers n F msg).lane core = F.lane core)

theorem Exact.returns (now : DrainCall.step core F ⟨budget, processed, loop, none⟩ = (F, .inr ()))
    (done : min (budget.toNat - processed) (queued F core) = 0) :
    Exact handlers core budget F processed loop :=
  ⟨1, F, [], by rw [alone, now], fun _ => ⟨done.symm, fun _ => rfl⟩⟩

theorem Exact.goes (next : DrainLoop) (now : DrainCall.step core F ⟨budget, processed, loop, none⟩ =
      (F, .inl ⟨budget, processed, next, none⟩))
    (later : Exact handlers core budget F processed next) :
    Exact handlers core budget F processed loop := by
  obtain ⟨fuel, G, log, is, exact⟩ := later
  exact ⟨fuel + 1, G, log, by rw [alone, now]; simp [is], exact⟩

include away

/-- A message is taken and dispatched, if there is one. -/
theorem Exact.tries {otherwise : DrainCall ⊕ Unit}
    (now : DrainCall.step core F ⟨budget, processed, loop, none⟩ =
      take F core ⟨budget, processed, loop, none⟩ loop.lane next otherwise)
    (room : processed < budget.toNat) (later : ∀ G, Exact handlers core budget G (processed + 1) next)
    (empty : (F.lane core loop.lane).messages = [] →
      DrainCall.step core F ⟨budget, processed, loop, none⟩ = (F, otherwise) →
      Exact handlers core budget F processed loop) :
    Exact handlers core budget F processed loop := by
  cases found : (F.lane core loop.lane).dequeue with
  | none => exact empty (Lane.dequeue_eq_none.mp found) (by rw [now, take, found])
  | some first =>
    obtain ⟨msg, l⟩ := first
    let taken := F.setLane core loop.lane l
    obtain ⟨fuel, G, log, is, exact⟩ := later
      (handlers (processed + 1) (taken.bhMkDispatchInternal core msg) msg)
    refine ⟨fuel + 2, G, ⟨taken, loop.lane, msg⟩ :: log, ?_, fun outward => ?_⟩
    · simp only [alone, now, take, found]
      simp only [DrainCall.step]
      simp [taken, is]
    obtain ⟨first, outward⟩ := List.forall_mem_cons.mp outward
    have lane := (away (processed + 1) _ msg).trans first.lane
    obtain ⟨length, order⟩ := exact outward
    have count : queued taken core + 1 = queued F core := queued_setLane found
    constructor
    · simp only [queued, lane] at length
      rw [List.length_cons, length]
      simp only [queued] at count ⊢
      omega
    · intro k
      have rest := order k
      rw [lane] at rest
      by_cases same : loop.lane = k
      · subst same
        simp only [ofLane, List.filter_cons, decide_true, if_true, List.map_cons, List.cons_append]
        rw [(Lane.dequeue_eq_some found).1]
        refine congrArg _ (rest.trans ?_)
        simp [taken, Fabric.lane_setLane]
      · simp only [ofLane, List.filter_cons, same, decide_false]
        refine rest.trans ?_
        simp [taken, Fabric.lane_setLane, Ne.symm same]

theorem exact_rest (F : Fabric) (processed : Nat) :
    Exact handlers core budget F processed (.rest .control) := by
  induction more : budget.toNat - processed generalizing F processed with
  | zero =>
    refine .returns ?_ (by omega)
    simp only [DrainCall.step]
    rw [if_neg (by omega)]
  | succ n ih =>
    have room : processed < budget.toNat := by omega
    have later G := ih G (processed + 1) (by omega)
    refine .tries away (if_pos room) room later fun control now => .goes (.rest .normal) now ?_
    refine .tries away rfl room later fun normal now => .goes (.rest .bulk) now ?_
    refine .tries away rfl room later fun bulk now => .returns now ?_
    simp only [DrainLoop.lane] at control normal bulk
    simp [queued, control, normal, bulk]

theorem exact_limited (limit : BitVec 32) (loop : Nat → DrainLoop)
    (now : ∀ F processed count, DrainCall.step core F ⟨budget, processed, loop count, none⟩ =
      limited F core ⟨budget, processed, loop count, none⟩ (loop count).lane count limit
        (loop (count + 1)) next)
    (later : ∀ F processed, Exact handlers core budget F processed next) (F : Fabric)
    (processed count : Nat) : Exact handlers core budget F processed (loop count) := by
  induction more : budget.toNat - processed using Nat.strongRecOn
    generalizing F processed count with
  | ind n ih =>
    have now := now F processed count
    unfold limited at now
    split_ifs at now with may
    · have room : processed < budget.toNat := may.2
      exact .tries away now room (fun G => ih _ (by omega) G _ (count + 1) rfl) fun _ now =>
        .goes next now (later F processed)
    · exact .goes next now (later F processed)

theorem exact_drain (F : Fabric) : Exact handlers core budget F 0 (.control 0) := by
  have bulk := exact_limited away (bulkLimit budget) .bulk (fun _ _ _ => rfl) (exact_rest away)
  have normal := exact_limited away (normalLimit budget) .normal (fun _ _ _ => rfl)
    fun F processed => bulk F processed 0
  exact exact_limited away (controlLimit budget) .control (fun _ _ _ => rfl)
    (fun F processed => normal F processed 0) F 0 0

end

/-- Where neither the handlers nor the dispatcher's error replies put messages on the lanes of
the draining core, a drain is exact. -/
theorem drain_exact (handlers : Handlers) (F : Fabric) (core : FabricCore) (budget : BitVec 32)
    (ready : (F.cores core).ready = true)
    (away : ∀ n F msg, (handlers n F msg).lane core = F.lane core) :
    ∃ fuel G log, F.bhMkDrainLocal handlers core budget fuel = some (G, log) ∧
      ((∀ d ∈ log, d.Outward core) → log.length = min budget.toNat (queued F core) ∧
        ∀ k, ofLane log k ++ (G.lane core k).messages = (F.lane core k).messages) := by
  have exact : Exact handlers core budget
      { F with pendingLanes := Function.update F.pendingLanes core 0 } 0 (.control 0) :=
    exact_drain away _
  obtain ⟨fuel, G, log, is, exact⟩ := exact
  refine ⟨fuel, G, log, ?_, exact⟩
  rw [Fabric.bhMkDrainLocal, if_neg (by simp [ready]), is]

/-- A request for an endpoint that is not bound waits for core 0. -/
def staleRequest (src : BitVec 32) : Fabric :=
  (bhMkFabricInit .other).setLane ⟨0, by decide⟩ .control
    ⟨1, [⟨⟨1, 96, 0, 0, 0, 0, src, 0, 0, 0, 0, 0, 0, 0, 0, 0, 0⟩, []⟩], Nat.le_refl 1⟩

theorem drain_exact_stale : ∃ fuel G log,
    (staleRequest 1).bhMkDrainLocal (fun _ F _ => F) ⟨0, by decide⟩ 5 fuel = some (G, log) ∧
    ((∀ d ∈ log, d.Outward ⟨0, by decide⟩) →
      log.length = min 5 (queued (staleRequest 1) ⟨0, by decide⟩) ∧
      ∀ k, ofLane log k ++ (G.lane ⟨0, by decide⟩ k).messages =
        ((staleRequest 1).lane ⟨0, by decide⟩ k).messages) :=
  drain_exact (fun _ F _ => F) (staleRequest 1) ⟨0, by decide⟩ 5 rfl (fun _ _ _ => rfl)

/-- The error reply to a request of core 0 itself is dispatched by the same drain. -/
theorem drain_answers_itself :
    ((staleRequest 0).cores ⟨0, by decide⟩).ready = true ∧ queued (staleRequest 0) ⟨0, by decide⟩ = 1 ∧
    ((staleRequest 0).bhMkDrainLocal (fun _ F _ => F) ⟨0, by decide⟩ 5 20).map (·.2.length) =
      some 2 := by
  decide +kernel

end BharatOS
