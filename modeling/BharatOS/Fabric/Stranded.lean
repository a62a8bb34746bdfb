import BharatOS.Fabric.Drain

/-!
# No message is left behind without its pending bit

A drain forgets the pending bits before it looks at the lanes. What lay there at that moment is
old; a message that comes later sets its bit again.
-/

namespace BharatOS

open Fabric Function Option List

namespace FabricSystem

/-- How many messages wait for a core. -/
def queued (F : Fabric) (d : FabricCore) : Nat :=
  (F.lane d .control).messages.length + (F.lane d .normal).messages.length +
    (F.lane d .bulk).messages.length

theorem queued_setLane {F : Fabric} {core : FabricCore} {k : BhMkLane} {msg : BhMkWireMessage}
    {l : Lane BhMkWireMessage} (found : (F.lane core k).dequeue = some (msg, l)) :
    queued (F.setLane core k l) core + 1 = queued F core := by
  have length : (F.lane core k).messages.length = l.messages.length + 1 := by
    rw [(Lane.dequeue_eq_some found).1, length_cons]
  simp only [queued, lane_setLane]
  cases k <;> simp [length] <;> omega

def left (call : DrainCall) : Nat := call.budget.toNat - call.processed

/-- The core on whose lanes an action may put a message. -/
def target (s : FabricSystem) : FabricAction → Option FabricCore
  | .send _ args =>
    match Fabric.routeOf args.destination with
    | .ok route => some route.dstCore
    | .error _ => none
  | .resume core =>
    match s.drains core with
    | some ⟨_, _, _, some msg⟩ =>
      if h : msg.header.srcCore.toNat < 256 then some ⟨msg.header.srcCore.toNat, h⟩ else none
    | _ => none
  | _ => none

/-- A drain has budget for everything that waits when it begins, and for what is put on the
lanes of its core until it ends. -/
def BudgetCovers (s : FabricSystem) (a : FabricAction) : Prop :=
  match a with
  | .drain core budget => queued s.fabric core ≤ budget.toNat
  | a => ∀ d ∈ s.target a, ∀ call ∈ s.drains d, queued s.fabric d < left call

instance (s : FabricSystem) (a : FabricAction) : Decidable (s.BudgetCovers a) := by
  unfold BudgetCovers
  split <;> infer_instance

/-- The lanes that the last loop has found empty in this turn. -/
def passedOver : DrainLoop → BhMkLane → Prop
  | .rest .normal, .control => True
  | .rest .bulk, .control => True
  | .rest .bulk, .normal => True
  | _, _ => False

/-- The first `old d k` messages of a lane were there when the last drain of `d` began. -/
structure Tracked (s : FabricSystem) (old : FabricCore → BhMkLane → Nat) : Prop where
  le : ∀ d k, old d k ≤ (s.fabric.lane d k).messages.length
  bit : ∀ d k, old d k < (s.fabric.lane d k).messages.length →
    (s.fabric.pendingLanes d).getLsbD k.code = true
  rung : ∀ d, s.fabric.pendingLanes d ≠ 0 → s.rung d = true
  idle : ∀ d, s.drains d = none → ∀ k, old d k = 0
  room : ∀ d call, s.drains d = some call →
    queued s.fabric d + call.processed ≤ call.budget.toNat
  skipped : ∀ d call, s.drains d = some call → ∀ k, passedOver call.loop k → old d k = 0

theorem tracked_start {profile : BharatProfile} : Tracked (start profile) fun _ _ => 0 :=
  ⟨fun _ _ => Nat.zero_le _, fun _ _ more => absurd more (lt_irrefl 0), fun _ ne => absurd rfl ne,
    fun _ _ _ => rfl, nofun, nofun⟩

namespace Tracked

variable {s : FabricSystem} {old : FabricCore → BhMkLane → Nat} {F : Fabric}

theorem rung_become (h : Tracked s old) (d : FabricCore) (ne : F.pendingLanes d ≠ 0) :
    (s.become F).rung d = true := by
  simp only [become, Bool.or_eq_true, Bool.and_eq_true, beq_iff_eq, bne_iff_ne]
  by_cases before : s.fabric.pendingLanes d = 0
  · exact .inr ⟨before, ne⟩
  · exact .inl (h.rung d before)

theorem quiet (h : Tracked s old) (still : s.fabric.Quiet F) : Tracked (s.become F) old := by
  have same : ∀ d, queued F d = queued s.fabric d := fun d => by simp only [queued, still.lane]
  refine ⟨?_, ?_, fun d => h.rung_become d, h.idle, ?_, h.skipped⟩
  · simpa only [become, still.lane] using h.le
  · simpa only [become, still.lane, still.pendingLanes] using h.bit
  · intro d call is
    exact (congrArg (· + _) (same d)).trans_le (h.room d call is)

variable {pending : BitVec 32}

theorem getLsbD_set {k : BhMkLane} : (pending ||| 1#32 <<< k.code).getLsbD k.code = true := by
  cases k <;> simp [BhMkLane.code]

variable {k : BhMkLane} {core : FabricCore} {call : DrainCall}

theorem getLsbD_keeps {k' : BhMkLane} (set : pending.getLsbD k'.code = true) :
    (pending ||| 1#32 <<< k.code).getLsbD k'.code = true := by
  rw [BitVec.getLsbD_or, set, Bool.true_or]

section

variable (h : Tracked s old)

include h

variable {dst : FabricCore} {msg : BhMkWireMessage} {call' : DrainCall}

theorem rings (rings : s.fabric.Rings F dst k) : Tracked (s.become F) old := by
  have same : ∀ d, queued F d = queued s.fabric d := fun d => by simp only [queued, rings.lane]
  refine ⟨?_, ?_, fun d => h.rung_become d, h.idle, ?_, h.skipped⟩
  · simpa only [become, rings.lane] using h.le
  · intro d k' more
    simp only [become, rings.lane, rings.pendingLanes] at more ⊢
    have set := h.bit d k' more
    by_cases is : d = dst
    · subst is
      rw [update_self]
      exact getLsbD_keeps set
    · rwa [update_of_ne is]
  · intro d call is
    exact (congrArg (· + _) (same d)).trans_le (h.room d call is)

/-- A message that is put on a lane sets the lane's bit, and fits the budget of the drain
that runs there. -/
theorem puts (puts : s.fabric.Puts F dst k msg)
    (fits : ∀ call, s.drains dst = some call → queued s.fabric dst < left call) :
    Tracked (s.become F) old := by
  obtain ⟨⟨l, room, lanes⟩, pending⟩ := puts
  obtain ⟨-, appended, -⟩ := Lane.enqueue_eq_some room
  have grown : l.messages.length = (s.fabric.lane dst k).messages.length + 1 := by
    rw [appended, length_append, length_singleton]
  refine ⟨?_, ?_, fun d => h.rung_become d, h.idle, ?_, h.skipped⟩
  · intro d k'
    have before := h.le d k'
    simp only [become, lanes]
    split
    · rename_i is
      obtain ⟨rfl, rfl⟩ := is
      omega
    · exact before
  · intro d k' more
    simp only [become, lanes, pending] at more ⊢
    by_cases is : d = dst
    · subst is
      rw [update_self]
      by_cases same : k' = k
      · subst same
        exact getLsbD_set
      · rw [if_neg (fun both => same both.2)] at more
        exact getLsbD_keeps (h.bit d k' more)
    · rw [if_neg (fun both => is both.1)] at more
      rw [update_of_ne is]
      exact h.bit d k' more
  · intro d call is
    have before := h.room d call is
    by_cases same : d = dst
    · subst same
      have free := fits call is
      have total : queued F d = queued s.fabric d + 1 := by
        simp only [queued, lanes]
        cases k <;> simp [grown] <;> omega
      simp only [become, total]
      unfold left at free
      omega
    · have total : queued F d = queued s.fabric d := by simp [queued, lanes, same]
      simp only [become, total]
      exact before

/-- When a drain begins, everything on its lanes becomes old. -/
theorem begins {budget : BitVec 32} (covered : queued s.fabric core ≤ budget.toNat) :
    Tracked ((s.clearPending core).setDrain core (some ⟨budget, 0, .control 0, none⟩))
      (update old core fun k => (s.fabric.lane core k).messages.length) := by
  refine ⟨?_, ?_, ?_, ?_, ?_, ?_⟩
  · intro d k
    by_cases is : d = core
    · subst is
      simp [setDrain, clearPending, lane]
    · rw [update_of_ne is]
      exact h.le d k
  · intro d k more
    by_cases is : d = core
    · subst is
      simp [setDrain, clearPending, lane] at more
    · simp only [setDrain, clearPending, update_of_ne is] at more ⊢
      exact h.bit d k more
  · intro d ne
    by_cases is : d = core
    · subst is
      simp [setDrain, clearPending] at ne
    · simp only [setDrain, clearPending, update_of_ne is] at ne ⊢
      exact h.rung d ne
  · intro d none k
    obtain ⟨other, none⟩ := drains_setDrain_none none
    rw [update_of_ne other]
    exact h.idle d none k
  · intro d call now
    rcases drains_setDrain now with ⟨rfl, begun⟩ | ⟨-, before⟩
    · cases begun
      exact covered
    · exact h.room d call before
  · intro d call now k passed
    rcases drains_setDrain now with ⟨rfl, begun⟩ | ⟨other, before⟩
    · cases begun
      exact passed.elim
    · rw [update_of_ne other]
      exact h.skipped d call before k passed

/-- The drain goes on to another loop. -/
theorem goes (now : s.drains core = some call) (budget : call'.budget = call.budget)
    (processed : call'.processed = call.processed)
    (skipped : ∀ k, passedOver call'.loop k → old core k = 0) :
    Tracked (s.setDrain core (some call')) old := by
  refine ⟨h.le, h.bit, h.rung, fun d none => h.idle d (drains_setDrain_none none).2,
    fun d c is => ?_, fun d c is k passed => ?_⟩
  · rcases drains_setDrain is with ⟨rfl, same⟩ | ⟨-, before⟩
    · cases same
      rw [budget, processed]
      exact h.room _ call now
    · exact h.room d c before
  · rcases drains_setDrain is with ⟨rfl, same⟩ | ⟨-, before⟩
    · cases same
      exact skipped k passed
    · exact h.skipped d c before k passed

/-- The drain ends when nothing old is left. -/
theorem ends (none_left : ∀ k, old core k = 0) : Tracked (s.setDrain core none) old := by
  have other : ∀ {d c}, (s.setDrain core none).drains d = some c → s.drains d = some c := by
    intro d c is
    rcases drains_setDrain is with ⟨-, gone⟩ | ⟨-, before⟩
    · cases gone
    · exact before
  refine ⟨h.le, h.bit, h.rung, fun d none k => ?_, fun d c is => h.room d c (other is),
    fun d c is => h.skipped d c (other is)⟩
  by_cases same : d = core
  · subst same
    exact none_left k
  · simp only [setDrain, update_of_ne same] at none
    exact h.idle d none k

/-- The drain takes a message: one old message less, and one less of its budget. -/
theorem takes (now : s.drains core = some call) {l : Lane BhMkWireMessage}
    (found : (s.fabric.lane core k).dequeue = some (msg, l)) (budget : call'.budget = call.budget)
    (processed : call'.processed = call.processed + 1) (skipped : ∀ k', ¬ passedOver call'.loop k')
    :
    Tracked ((s.become (s.fabric.setLane core k l)).setDrain core (some call'))
      (update old core (update (old core) k (old core k - 1))) := by
  obtain ⟨shape, -⟩ := Lane.dequeue_eq_some found
  have length : (s.fabric.lane core k).messages.length = l.messages.length + 1 := by
    rw [shape, length_cons]
  have lane_eq := lane_setLane s.fabric core k l
  -- a lane's length after the step, and how much of it is old
  have counted : ∀ d k', (d = core ∧ k' = k ∧
      ((s.fabric.setLane core k l).lane d k').messages.length = l.messages.length ∧
      update old core (update (old core) k (old core k - 1)) d k' = old core k - 1) ∨
      (¬ (d = core ∧ k' = k) ∧ (s.fabric.setLane core k l).lane d k' = s.fabric.lane d k' ∧
        update old core (update (old core) k (old core k - 1)) d k' = old d k') := by
    intro d k'
    by_cases is : d = core
    · subst is
      by_cases same : k' = k
      · subst same
        exact .inl ⟨rfl, rfl, by simp [lane_eq], by simp⟩
      · exact .inr ⟨fun both => same both.2, by simp [lane_eq, same], by simp [same]⟩
    · exact .inr ⟨fun both => is both.1, by simp [lane_eq, is], by simp [is]⟩
  have total := queued_setLane found
  refine ⟨?_, ?_, fun d => h.rung_become d, ?_, ?_, ?_⟩
  · intro d k'
    have before := h.le d k'
    simp only [setDrain, become]
    rcases counted d k' with ⟨rfl, rfl, len, rest⟩ | ⟨-, len, rest⟩ <;> rw [len, rest]
    · omega
    · exact before
  · intro d k' more
    have before := h.bit d k'
    simp only [setDrain, become] at more
    rcases counted d k' with ⟨rfl, rfl, len, rest⟩ | ⟨-, len, rest⟩ <;> rw [len, rest] at more
    · exact before (by omega)
    · exact before more
  · intro d none k'
    obtain ⟨other, none⟩ := drains_setDrain_none none
    rw [update_of_ne other]
    exact h.idle d none k'
  · intro d c is
    rcases drains_setDrain is with ⟨rfl, same⟩ | ⟨other, was⟩
    · cases same
      have before := h.room d call now
      simp only [setDrain, become, budget, processed]
      omega
    · have unchanged : queued (s.fabric.setLane core k l) d = queued s.fabric d := by
        simp [queued, lane_eq, other]
      simp only [setDrain, become, unchanged]
      exact h.room d c was
  · intro d c is k' passed
    rcases drains_setDrain is with ⟨rfl, same⟩ | ⟨other, was⟩
    · cases same
      exact absurd passed (skipped k')
    · rw [update_of_ne other]
      exact h.skipped d c was k' passed

/-- An empty lane has nothing old. -/
theorem old_of_empty (empty : (s.fabric.lane core k).dequeue = none) : old core k = 0 := by
  have le := h.le core k
  rw [Lane.dequeue_eq_none.mp empty] at le
  exact Nat.le_zero.mp le
end

theorem become_self : s.become s.fabric = s := by
  obtain ⟨F, drains, rung⟩ := s
  have same : (fun c => rung c || (F.pendingLanes c == 0 && F.pendingLanes c != 0)) = rung := by
    funext c
    by_cases zero : F.pendingLanes c = 0 <;> simp [zero]
  simp only [become, same]

variable (h : Tracked s old)

include h

theorem answers {src : BitVec 32} (moves : s.fabric.Answers F src)
    (fits : ∀ dst call, s.drains dst = some call → src.toNat = dst.val →
      queued s.fabric dst < left call) : Tracked (s.become F) old := by
  rcases moves with still | ⟨dst, is, rings | ⟨reply, -, puts⟩⟩
  · exact h.quiet still
  · exact h.rings rings
  · exact h.puts puts fun call now => fits dst call now is

section

variable (now : s.drains core = some call)

include now

/-- One attempt to take a message from a lane, in any of the loops. -/
theorem attempt {found : DrainLoop}
    (fresh : ∀ k', ¬ passedOver found k') {otherwise : DrainCall ⊕ Unit}
    (none_there : old core k = 0 → Tracked (s.resumed core (s.fabric, otherwise)) old) :
    ∃ old', Tracked (s.resumed core (call.take s.fabric core k found otherwise)) old' := by
  unfold DrainCall.take
  split
  · rename_i empty
    exact ⟨old, none_there (h.old_of_empty empty)⟩
  · rename_i msg l is
    exact ⟨_, h.takes now is rfl rfl fresh⟩

theorem goto {loop : DrainLoop} (skipped : ∀ k, passedOver loop k → old core k = 0) :
    Tracked (s.resumed core (s.fabric, call.goto loop)) old := by
  simp only [resumed, DrainCall.goto, become_self]
  exact h.goes now rfl rfl skipped

/-- The loops that are limited by lane find nothing out about the other lanes. -/
theorem limited (k : BhMkLane) (count : Nat)
    (limit : BitVec 32) {again next : DrainLoop} (fresh : ∀ k', ¬ passedOver again k')
    (fresh' : ∀ k', ¬ passedOver next k') : ∃ old', Tracked (s.resumed core
      (call.limited s.fabric core k count limit again next)) old' := by
  have skip := h.goto now fun k' passed => absurd passed (fresh' k')
  unfold DrainCall.limited
  split
  · exact h.attempt now fresh fun _ => skip
  · exact ⟨old, skip⟩

/-- A stretch of work of a drain. -/
theorem resumes
    (fits : ∀ d ∈ s.target (.resume core), ∀ c ∈ s.drains d, queued s.fabric d < left c) :
    ∃ old', Tracked (s.resumed core (call.step core s.fabric)) old' := by
  obtain ⟨budget, processed, loop, hand⟩ := call
  cases hand with
  | some msg =>
    have skipped := h.skipped core _ now
    have moved := h.answers (dispatch_answers s.fabric core msg).1 fun d c is src => by
      refine fits d ?_ c is
      have inside : msg.header.srcCore.toNat < 256 := src ▸ d.isLt
      simp only [target, now, dif_pos inside, mem_def, some.injEq]
      exact Fin.ext src
    exact ⟨old, moved.goes now rfl rfl skipped⟩
  | none =>
    cases loop with
    | control count => exact h.limited now .control count _ (fun _ => id) (fun _ => id)
    | normal count => exact h.limited now .normal count _ (fun _ => id) (fun _ => id)
    | bulk count =>
      refine h.limited now .bulk count _ (fun _ => id) fun k => ?_
      cases k <;> exact id
    | rest next =>
      have fresh : ∀ k, ¬ passedOver (.rest .control) k := fun k => by cases k <;> exact id
      have skipped := h.skipped core _ now
      cases next with
      | control =>
        simp only [DrainCall.step]
        split
        · refine h.attempt now fresh fun zero => h.goto now fun k passed => ?_
          cases k with
          | control => exact zero
          | normal | bulk => exact passed.elim
        rename_i spent
        -- the budget is spent, so nothing waits
        have room := h.room core _ now
        simp only at spent room
        refine ⟨old, ?_⟩
        simp only [resumed, become_self]
        refine h.ends fun k => ?_
        have le := h.le core k
        unfold queued at room
        cases k <;> omega
      | normal =>
        refine h.attempt now fresh fun zero => h.goto now fun k passed => ?_
        cases k with
        | control => exact skipped .control trivial
        | normal => exact zero
        | bulk => exact passed.elim
      | bulk =>
        refine h.attempt now fresh fun zero => ?_
        simp only [resumed, become_self]
        refine h.ends fun k => ?_
        cases k with
        | control => exact skipped .control trivial
        | normal => exact skipped .normal trivial
        | bulk => exact zero

end

theorem step {a : FabricAction} {t : FabricSystem} (covers : s.BudgetCovers a)
    (steps : Steps s a t) : ∃ old', Tracked t old' := by
  cases a with
  | tick delta =>
    cases steps
    exact ⟨old, h.le, h.bit, h.rung, h.idle, h.room, h.skipped⟩
  | bind core messageClass opcode =>
    cases steps
    exact ⟨old, h.quiet (bind_silent).toQuiet⟩
  | unbind core handle =>
    cases steps
    exact ⟨old, h.quiet (unbind_silent).toQuiet⟩
  | reap core handle =>
    cases steps
    exact ⟨old, h.quiet (reap_silent).toQuiet⟩
  | send core args =>
    cases steps
    obtain ⟨-, ⟨still, -⟩ | ⟨route, srcEpGen, handle, checked, -, puts⟩⟩ :=
      send_cases (Prod.eta (s.fabric.bhMkSend core args)).symm
    · exact ⟨old, h.quiet still⟩
    refine ⟨old, h.puts puts fun call now => ?_⟩
    refine covers route.dstCore ?_ call now
    simp only [target, sendRoute_eq_ok checked, mem_def]
  | drain core budget =>
    simp only [Steps, FabricSystem.step] at steps
    split at steps
    · cases steps
    split at steps
    · cases steps
      exact ⟨old, h⟩
    · cases steps
      exact ⟨_, h.begins covers⟩
  | resume core =>
    simp only [Steps, FabricSystem.step] at steps
    split at steps
    · cases steps
    rename_i call now
    cases steps
    exact h.resumes now covers

end Tracked

/-- As long as drains have the budget for what waits: when no drain of a core runs, a lane
that holds a message has its pending bit set, and the doorbell has rung since the last
drain began. -/
theorem no_stranded_messages (profile : BharatProfile) {s : FabricSystem}
    (run : Run Steps BudgetCovers (start profile) s) (d : FabricCore) (idle : s.drains d = none)
    (k : BhMkLane) (waits : (s.fabric.lane d k).messages ≠ []) :
    (s.fabric.pendingLanes d).getLsbD k.code = true ∧ s.rung d = true := by
  obtain ⟨old, tracked⟩ := run.invariant (fun s => ∃ old, Tracked s old)
    ⟨_, tracked_start⟩ fun _ _ _ h covers steps => h.elim fun _ h => h.step covers steps
  have bit := tracked.bit d k (by
    rw [tracked.idle d idle k]
    exact length_pos_of_ne_nil waits)
  refine ⟨bit, tracked.rung d fun zero => ?_⟩
  rw [zero] at bit
  simp at bit

/-- A send from core 0 to an endpoint of core 1. -/
def toCoreOne : FabricAction :=
  .send 0 ⟨bhMkEndpointLegacy, 0xA500100010001001, 1, 1, .normal, none, 0, false⟩

theorem no_stranded_messages_resent : ∃ s,
    Run Steps BudgetCovers (start .other) s ∧ s.drains 1 = none ∧
      (s.fabric.lane 1 .normal).messages.length = 1 ∧
      (s.fabric.pendingLanes 1).getLsbD BhMkLane.normal.code = true ∧ s.rung 1 = true := by
  refine found_run_then_both ([toCoreOne, .drain 1 2] ++ replicate 8 (.resume 1) ++ [toCoreOne])
    (by decide +kernel) fun s run idle one => ?_
  have waits : (s.fabric.lane 1 .normal).messages ≠ [] := by
    intro empty
    simp [empty] at one
  exact no_stranded_messages .other run 1 idle .normal waits

/-- Two messages wait, and a drain with a budget of one leaves the second behind with no
pending bit. -/
theorem stranded_message : ∃ s, Run Steps (fun _ _ => True) (start .other) s ∧ s.drains 1 = none ∧
      (s.fabric.lane 1 .normal).messages.length = 1 ∧ s.fabric.pendingLanes 1 = 0 := by
  exact found_run ([toCoreOne, toCoreOne, .drain 1 1] ++ replicate 6 (.resume 1)) (by decide +kernel)

end FabricSystem

end BharatOS
