import BharatOS.Fabric.Drain

/-!
# Error replies and the transactions they answer

The core that asked takes every reply as a success, so a transaction is acknowledged by the very
message that refuses it.
-/

namespace BharatOS

open Option List

namespace Fabric

variable {F G H : Fabric} {core : FabricCore} {tx : Transaction}

/-- The record that a reply names is still the transaction that it answers. -/
def replyMatches (F : Fabric) (core : FabricCore) (msg : BhMkWireMessage) : Bool :=
  match F.txnOf core ⟨msg.header.txnSlot, msg.header.txnGeneration⟩ with
  | .error _ => false
  | .ok slot =>
    (F.txn core slot).dstCore == msg.header.srcCore &&
      (F.txn core slot).dstEndpoint == msg.header.srcEndpoint

theorem txnOf_eq_ok {handle : BhMkTxHandle} {slot : Fin 128} (h : F.txnOf core handle = .ok slot) :
    handle.slot.toNat = slot ∧ (F.txn core slot).generation = handle.generation := by
  unfold txnOf at h
  split at h
  · dsimp only at h
    split at h
    · cases h
    rename_i live
    cases h
    exact ⟨rfl, not_not.mp (not_or.mp live).2⟩
  · cases h

/-- The message on `core` names the transaction. -/
def names (core : FabricCore) (msg : BhMkWireMessage) (tx : Transaction) : Prop :=
  core = tx.core ∧ msg.header.txnSlot.toNat = tx.slot ∧ msg.header.txnGeneration = tx.generation

variable {msg : BhMkWireMessage}

theorem complete_noNewAck (other : names core msg tx → F.replyMatches core msg = false) :
    NoNewAck tx F (F.bhMkTxComplete core ⟨msg.header.txnSlot, msg.header.txnGeneration⟩
      msg.header.srcCore msg.header.srcEndpoint 0).1 := by
  unfold replyMatches at other
  unfold bhMkTxComplete
  cases named : F.txnOf core ⟨msg.header.txnSlot, msg.header.txnGeneration⟩ with
  | error code => exact .refl F
  | ok slot =>
    rw [named] at other
    dsimp only at other ⊢
    split_ifs with core endpoint
    · exact .refl F
    · exact .refl F
    intro acked
    rw [Acked, txn_setTxn] at acked
    split at acked
    · rename_i is
      obtain ⟨sameSlot, generation⟩ := txnOf_eq_ok named
      have same := other ⟨is.1.symm, sameSlot.trans (congrArg Fin.val is.2.symm), ?_⟩
      · simp [core, endpoint] at same
      · exact generation.symm.trans acked.1
    · exact acked

/-- The dispatcher drops the message: it is not valid, or it was seen before. -/
def dropped (F : Fabric) (core : FabricCore) (msg : BhMkWireMessage) : Bool :=
  bhMkWireValidate F.ticks msg != 0 || (F.bhMkReplayCheckAndAdd core msg).isNone

theorem replay_matches (h : F.bhMkReplayCheckAndAdd core msg = some G) :
    G.replyMatches core msg = F.replyMatches core msg := by
  unfold bhMkReplayCheckAndAdd at h
  dsimp only at h
  split at h
  · cases h
  cases h
  simp only [replyMatches, txnOf, txn_setCore]

/-- Only a reply that is not dropped and finds its record acknowledges a transaction. -/
theorem dispatch_noNewAck
    (harmless : msg.header.flags &&& mkMsgFlagIsReply ≠ 0 → names core msg tx →
      F.dropped core msg = true ∨ F.replyMatches core msg = false) :
    NoNewAck tx F (F.bhMkDispatchInternal core msg) := by
  rcases dispatch_cases F core msg with silent | ⟨G, checked, ⟨valid, reply, is⟩ | ⟨-, is⟩⟩
  · exact silent.noNewAck tx
  · rw [is]
    refine ((replay_silent checked).noNewAck tx).trans (complete_noNewAck fun named => ?_)
    rw [replay_matches checked]
    refine (harmless reply named).resolve_left fun dropped => ?_
    simp only [Fabric.dropped, checked, isNone_some, Bool.or_false, bne_iff_ne] at dropped
    exact dropped valid
  · rw [is]
    exact ((replay_silent checked).noNewAck tx).trans ((errorReply_answers).2 tx)

end Fabric

namespace FabricSystem

open Fabric

variable {s t : FabricSystem} {tx : Transaction}

/-- An error reply that names the transaction is dispatched only if it is dropped or the
record has moved on. -/
def ErrorsComeLate (tx : Transaction) (s : FabricSystem) (a : FabricAction) : Prop :=
  match a with
  | .resume core => ∀ call ∈ s.drains core, ∀ msg ∈ call.hand,
      msg.header.flags &&& mkMsgFlagError ≠ 0 → names core msg tx →
        s.fabric.dropped core msg = true ∨ s.fabric.replyMatches core msg = false
  | _ => True

instance (tx : Transaction) (s : FabricSystem) (a : FabricAction) :
    Decidable (ErrorsComeLate tx s a) :=
  match a with
  | .resume core => by unfold ErrorsComeLate names; infer_instance
  | .tick _ | .bind .. | .unbind .. | .reap .. | .send .. | .drain .. =>
    inferInstanceAs (Decidable True)

/-- Every reply in the fabric is an error reply, and the transaction is not acknowledged. -/
structure Unacknowledged (tx : Transaction) (s : FabricSystem) : Prop where
  replies : ∀ c k, ∀ msg ∈ (s.fabric.lane c k).messages,
    msg.header.flags &&& mkMsgFlagIsReply ≠ 0 → msg.header.flags &&& mkMsgFlagError ≠ 0
  hands : ∀ c, ∀ call ∈ s.drains c, ∀ msg ∈ call.hand,
    msg.header.flags &&& mkMsgFlagIsReply ≠ 0 → msg.header.flags &&& mkMsgFlagError ≠ 0
  acked : ¬ s.fabric.Acked tx

namespace Unacknowledged

theorem start (profile : BharatProfile) : Unacknowledged tx (FabricSystem.start profile) :=
  ⟨nofun, nofun, fun acked => nomatch acked.2⟩

variable {F : Fabric} (h : Unacknowledged tx s)

include h

section

variable (none_acked : NoNewAck tx s.fabric F)

include none_acked

theorem become (replies : ∀ c k, ∀ msg ∈ (F.lane c k).messages, msg ∈ (s.fabric.lane c k).messages ∨
      (msg.header.flags &&& mkMsgFlagIsReply ≠ 0 → msg.header.flags &&& mkMsgFlagError ≠ 0)) :
    Unacknowledged tx (s.become F) := by
  refine ⟨fun c k msg mem => ?_, h.hands, h.acked ∘ none_acked⟩
  rcases replies c k msg mem with old | new
  · exact h.replies c k msg old
  · exact new

theorem quiet (still : s.fabric.Quiet F) : Unacknowledged tx (s.become F) :=
  h.become none_acked fun c k msg mem => .inl (by rwa [still.lane] at mem)

theorem puts {dst : FabricCore}
    {k : BhMkLane} {msg : BhMkWireMessage} (puts : s.fabric.Puts F dst k msg)
    (flags : msg.header.flags &&& mkMsgFlagIsReply ≠ 0 → msg.header.flags &&& mkMsgFlagError ≠ 0) :
    Unacknowledged tx (s.become F) := by
  obtain ⟨⟨l, room, lanes⟩, -⟩ := puts
  refine h.become none_acked fun c k' m mem => ?_
  rw [lanes] at mem
  split at mem
  · rename_i is
    obtain ⟨rfl, rfl⟩ := is
    rw [(Lane.enqueue_eq_some room).2.1, mem_append, mem_singleton] at mem
    rcases mem with old | rfl
    · exact .inl old
    · exact .inr flags
  · exact .inl mem
end

theorem silent (still : s.fabric.Silent F) : Unacknowledged tx (s.become F) :=
  h.quiet (still.noNewAck tx) still.toQuiet

theorem setDrain (core : FabricCore) {call : Option DrainCall} (hand : ∀ c ∈ call, ∀ msg ∈ c.hand,
      msg.header.flags &&& mkMsgFlagIsReply ≠ 0 → msg.header.flags &&& mkMsgFlagError ≠ 0) :
    Unacknowledged tx (s.setDrain core call) := by
  refine ⟨h.replies, fun c call' is => ?_, h.acked⟩
  rcases drains_setDrain is with ⟨rfl, now⟩ | ⟨-, before⟩
  · exact hand call' now
  · exact h.hands c call' before

variable {core : FabricCore}

theorem dispatches {msg : BhMkWireMessage}
    (flags : msg.header.flags &&& mkMsgFlagIsReply ≠ 0 → msg.header.flags &&& mkMsgFlagError ≠ 0)
    (late : msg.header.flags &&& mkMsgFlagError ≠ 0 → names core msg tx →
      s.fabric.dropped core msg = true ∨ s.fabric.replyMatches core msg = false) :
    Unacknowledged tx (s.become (s.fabric.bhMkDispatchInternal core msg)) := by
  have none_acked : NoNewAck tx s.fabric _ := dispatch_noNewAck fun reply => late (flags reply)
  rcases (dispatch_answers s.fabric core msg).1 with still | ⟨dst, -, rings | ⟨reply, set, puts⟩⟩
  · exact h.quiet none_acked still
  · exact h.become none_acked fun c k m mem => .inl (by rwa [rings.lane] at mem)
  refine h.puts none_acked puts fun _ => ?_
  rw [set]
  decide

theorem took {call : DrainCall} (free : call.hand = none) {done : Fabric × (DrainCall ⊕ Unit)}
    (took : call.Took s.fabric core done) : Unacknowledged tx (s.resumed core done) := by
  rcases took with ⟨same, keeps⟩ | ⟨k, msg, l, c, found, rfl, hand⟩
  · obtain ⟨F, out⟩ := done
    obtain rfl : F = s.fabric := same
    have still := h.quiet (.refl _) (.refl _)
    cases out with
    | inl c =>
      refine still.setDrain core fun c' is msg mem => ?_
      cases is
      rw [keeps _ rfl, free] at mem
      cases mem
    | inr u => exact still.setDrain core nofun
  · obtain ⟨shape, -⟩ := Lane.dequeue_eq_some found
    have taken : Unacknowledged tx (s.become (s.fabric.setLane core k l)) := by
      refine h.become (.setCore rfl) fun c' k' m mem => .inl ?_
      rw [lane_setLane] at mem
      split at mem
      · rename_i is
        obtain ⟨rfl, rfl⟩ := is
        rw [shape]
        exact mem_cons_of_mem _ mem
      · exact mem
    refine taken.setDrain core fun c' is m mem => ?_
    cases is
    obtain rfl := some.inj (hand.symm.trans mem)
    exact h.replies core k msg (by rw [shape]; exact mem_cons_self)

theorem step {a : FabricAction} (late : ErrorsComeLate tx s a)
    (steps : Steps s a t) : Unacknowledged tx t := by
  cases a with
  | tick delta =>
    cases steps
    exact ⟨h.replies, h.hands, h.acked⟩
  | bind core messageClass opcode =>
    cases steps
    exact h.silent bind_silent
  | unbind core handle =>
    cases steps
    exact h.silent unbind_silent
  | reap core handle =>
    cases steps
    exact h.silent reap_silent
  | send core args =>
    cases steps
    obtain ⟨none_acked, ⟨still, -⟩ | ⟨route, srcEpGen, handle, -, -, puts⟩⟩ :=
      send_cases (Prod.eta (s.fabric.bhMkSend core args)).symm
    · exact h.quiet (none_acked tx) still
    · exact h.puts (none_acked tx) puts fun reply => absurd BitVec.zero_and reply
  | drain core budget =>
    simp only [Steps, FabricSystem.step] at steps
    split at steps
    · cases steps
    split at steps
    · cases steps
      exact h
    cases steps
    have cleared : Unacknowledged tx (s.clearPending core) := ⟨h.replies, h.hands, h.acked⟩
    refine cleared.setDrain core fun c is msg mem => ?_
    cases is
    cases mem
  | resume core =>
    simp only [Steps, FabricSystem.step] at steps
    split at steps
    · cases steps
    rename_i call now
    cases steps
    cases hand : call.hand with
    | none => exact h.took hand (DrainCall.step_took hand)
    | some msg =>
      have dispatched := h.dispatches (h.hands core call now msg hand) (late call now msg hand)
      simp only [DrainCall.step, hand, resumed]
      exact dispatched.setDrain core fun c is m mem => by
        cases is
        cases mem

end Unacknowledged

/-- A transaction is never acknowledged with success if the error replies that name it
come when its record has moved on, or are dropped. -/
theorem error_reply_never_acknowledges (profile : BharatProfile) (tx : Transaction)
    {s : FabricSystem} (run : Run Steps (ErrorsComeLate tx) (FabricSystem.start profile) s) :
    ¬ ((s.fabric.txn tx.core tx.slot).generation = tx.generation ∧
      (s.fabric.txn tx.core tx.slot).state = .acked ∧
      (s.fabric.txn tx.core tx.slot).result = 0) := by
  have unacknowledged := run.invariant (Unacknowledged tx) (.start profile)
    fun _ _ _ h late steps => h.step late steps
  exact fun both => unacknowledged.acked ⟨both.1, both.2.1⟩

/-- A request of core 0 to an endpoint of core 1 that is not bound. -/
def askUnbound : FabricAction :=
  .send 0 ⟨bhMkEndpointLegacy, 0xA500100010001001, 1, 1, .normal, none, 0, true⟩

def drained (core : FabricCore) : List FabricAction :=
  .drain core 4 :: replicate 8 (.resume core)

/-- The transaction is reaped before its error reply comes. -/
theorem error_reply_never_acknowledges_reaped : ∃ s,
    Run Steps (ErrorsComeLate ⟨0, 0, 1⟩) (FabricSystem.start .other) s ∧
      (∀ k, (s.fabric.lane 0 k).messages = []) ∧
      ¬ ((s.fabric.txn 0 0).generation = 1 ∧ (s.fabric.txn 0 0).state = .acked ∧
        (s.fabric.txn 0 0).result = 0) := by
  obtain ⟨s, ran, control, normal, bulk⟩ :
      ∃ s, exec (guarded step (ErrorsComeLate ⟨0, 0, 1⟩)) (FabricSystem.start .other)
        ([askUnbound] ++ drained 1 ++ [.reap 0 ⟨0, 1⟩] ++ drained 0) = some s ∧
        (s.fabric.lane 0 .control).messages = [] ∧ (s.fabric.lane 0 .normal).messages = [] ∧
        (s.fabric.lane 0 .bulk).messages = [] := by decide +kernel
  have run : Run Steps (ErrorsComeLate ⟨0, 0, 1⟩) (FabricSystem.start .other) s := guarded_run ran
  refine ⟨s, run, fun k => ?_, error_reply_never_acknowledges .other ⟨0, 0, 1⟩ run⟩
  cases k with
  | control => exact control
  | normal => exact normal
  | bulk => exact bulk

/-- Core 1 refuses the request with an error reply, which core 0 takes for success. -/
theorem error_reply_acknowledges : ∃ s t,
    Run Steps (fun _ _ => True) (FabricSystem.start .other) s ∧
      (s.fabric.lane 0 .control).messages.map (fun msg => (msg.header.flags, msg.header.txnSlot,
        msg.header.txnGeneration)) = [(mkMsgFlagIsReply ||| mkMsgFlagError, 0, 1)] ∧
      Run Steps (fun _ _ => True) s t ∧ (t.fabric.txn 0 0).generation = 1 ∧
      (t.fabric.txn 0 0).state = .acked ∧ (t.fabric.txn 0 0).result = 0 := by
  obtain ⟨s, ran, sent, t, ran', ends⟩ :
      ∃ s, exec step (FabricSystem.start .other) ([askUnbound] ++ drained 1) = some s ∧
        (s.fabric.lane 0 .control).messages.map (fun msg => (msg.header.flags, msg.header.txnSlot,
          msg.header.txnGeneration)) = [(mkMsgFlagIsReply ||| mkMsgFlagError, 0, 1)] ∧
      ∃ t, exec step s (drained 0) = some t ∧ (t.fabric.txn 0 0).generation = 1 ∧
        (t.fabric.txn 0 0).state = .acked ∧ (t.fabric.txn 0 0).result = 0 := by decide +kernel
  exact ⟨s, t, run_of_exec ran, sent, run_of_exec ran', ends⟩

end FabricSystem

end BharatOS
