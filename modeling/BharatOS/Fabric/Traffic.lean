import BharatOS.Fabric.Core

/-!
# What the calls of the fabric do to lanes and pending bits

A call leaves them alone, sets one pending bit, or puts one message on one lane and sets
the bit of that lane.
-/

namespace BharatOS

namespace Fabric

/-- No lane and no pending bit changes. -/
structure Quiet (F G : Fabric) : Prop where
  lane : G.lane = F.lane
  pendingLanes : G.pendingLanes = F.pendingLanes

/-- Only the pending bit of one lane is set. -/
structure Rings (F G : Fabric) (dst : FabricCore) (k : BhMkLane) : Prop where
  lane : G.lane = F.lane
  pendingLanes : G.pendingLanes =
    Function.update F.pendingLanes dst (F.pendingLanes dst ||| 1#32 <<< k.code)

/-- One lane gets a message, and its pending bit is set. -/
structure Puts (F G : Fabric) (dst : FabricCore) (k : BhMkLane) (msg : BhMkWireMessage) : Prop where
  lane : ∃ l, (F.lane dst k).enqueue msg = some l ∧
    ∀ c k', G.lane c k' = if c = dst ∧ k' = k then l else F.lane c k'
  pendingLanes : G.pendingLanes =
    Function.update F.pendingLanes dst (F.pendingLanes dst ||| 1#32 <<< k.code)

namespace Quiet

variable {F G H : Fabric}

theorem refl (F : Fabric) : Quiet F F := ⟨rfl, rfl⟩

theorem trans (h : Quiet F G) (h' : Quiet G H) : Quiet F H :=
  ⟨h'.lane.trans h.lane, h'.pendingLanes.trans h.pendingLanes⟩

theorem setCore {core : FabricCore} {f : BhMkCoreFabric} (same : f.lanes = (F.cores core).lanes) :
    Quiet F (F.setCore core f) := by
  refine ⟨?_, rfl⟩
  funext c k
  unfold Fabric.lane Fabric.setCore
  by_cases is : c = core
  · subst is
    simp [same]
  · simp [is]

variable {dst : FabricCore} {k : BhMkLane}

theorem rings (h : Quiet F G) (later : Rings G H dst k) : Rings F H dst k :=
  ⟨later.lane.trans h.lane, by rw [later.pendingLanes, h.pendingLanes]⟩

theorem puts (h : Quiet F G) {msg : BhMkWireMessage} (later : Puts G H dst k msg) :
    Puts F H dst k msg := by
  obtain ⟨⟨l, room, lanes⟩, pending⟩ := later
  rw [h.lane] at room
  refine ⟨⟨l, room, fun c k' => ?_⟩, by rw [pending, h.pendingLanes]⟩
  rw [lanes, h.lane]

end Quiet

/-- A transaction, for the time between its allocation and its reaping. -/
structure Transaction where
  core : FabricCore
  slot : Fin 128
  generation : BitVec 32
  deriving DecidableEq, Repr

variable {F G H : Fabric} {core : FabricCore} {tx : Transaction}

/-! ## Which calls acknowledge -/

def Acked (F : Fabric) (tx : Transaction) : Prop :=
  (F.txn tx.core tx.slot).generation = tx.generation ∧ (F.txn tx.core tx.slot).state = .acked

/-- The transaction is acknowledged afterwards only if it was before. -/
def NoNewAck (tx : Transaction) (F G : Fabric) : Prop := G.Acked tx → F.Acked tx

theorem NoNewAck.refl (F : Fabric) : NoNewAck tx F F := id

theorem NoNewAck.trans (h : NoNewAck tx F G) (h' : NoNewAck tx G H) : NoNewAck tx F H := h ∘ h'

variable {f : BhMkCoreFabric} {args : SendArgs} {route : Route} {msg : BhMkWireMessage}

theorem txn_setCore (same : f.txns = (F.cores core).txns) : (F.setCore core f).txn = F.txn := by
  funext c i
  unfold txn Fabric.setCore
  by_cases is : c = core
  · subst is
    simp [same]
  · simp [is]

theorem NoNewAck.setCore (same : f.txns = (F.cores core).txns) :
    NoNewAck tx F (F.setCore core f) := by
  intro acked
  rwa [Acked, txn_setCore same] at acked

variable {entry : BhMkTxEntry} {slot : Fin 128} {dst : FabricCore} {k : BhMkLane}

theorem NoNewAck.setTxn (other : entry.state ≠ .acked) :
    NoNewAck tx F (F.setTxn core slot entry) := by
  intro acked
  rw [Acked, txn_setTxn] at acked
  split at acked
  · exact absurd acked.2 other
  · exact acked

/-- A call that leaves lanes and pending bits alone, and acknowledges nothing. -/
structure Silent (F G : Fabric) : Prop extends Quiet F G where
  noNewAck : ∀ tx, NoNewAck tx F G

namespace Silent

theorem refl (F : Fabric) : Silent F F := ⟨.refl F, fun _ => .refl F⟩

theorem trans (h : Silent F G) (h' : Silent G H) : Silent F H :=
  ⟨h.toQuiet.trans h'.toQuiet, fun tx => (h.noNewAck tx).trans (h'.noNewAck tx)⟩

theorem setCore (lanes : f.lanes = (F.cores core).lanes) (txns : f.txns = (F.cores core).txns) :
    Silent F (F.setCore core f) :=
  ⟨.setCore lanes, fun _ => .setCore txns⟩

theorem setTxn (other : entry.state ≠ .acked) : Silent F (F.setTxn core slot entry) :=
  ⟨.setCore rfl, fun _ => .setTxn other⟩

end Silent

variable {handle : BhMkTxHandle}

theorem complete_quiet {srcCore : BitVec 32} {srcEndpoint : BitVec 64} {result : Int} :
    Quiet F (F.bhMkTxComplete core handle srcCore srcEndpoint result).1 := by
  unfold bhMkTxComplete
  cases F.txnOf core handle with
  | error code => exact .refl F
  | ok slot =>
    dsimp only
    split_ifs
    · exact .refl F
    · exact .refl F
    · exact .setCore rfl

theorem reap_silent : Silent F (F.bhMkTxReap core handle).1 := by
  unfold bhMkTxReap
  cases F.txnOf core handle with
  | error code => exact .refl F
  | ok slot => exact .setTxn nofun

theorem bind_silent {messageClass opcode : BitVec 32} :
    Silent F (F.bhMkEndpointBind core messageClass opcode).1 := by
  unfold bhMkEndpointBind
  dsimp only
  split
  · exact .refl F
  · split <;> exact .setCore rfl rfl

theorem unbind_silent {handle : BitVec 64} : Silent F (F.bhMkEndpointUnbind core handle).1 := by
  unfold bhMkEndpointUnbind
  cases bhMkHandleUnpack handle with
  | error code => exact .refl F
  | ok h =>
    dsimp only
    split_ifs
    · exact .refl F
    · exact .refl F
    · exact .setCore rfl rfl

theorem sendTransaction_silent {handle : Option BhMkTxHandle}
    (h : F.sendTransaction core args route = some (G, handle)) : Silent F G := by
  unfold sendTransaction at h
  split at h
  · unfold bhMkTxAlloc at h
    split at h
    · cases h
    cases h
    exact .setTxn nofun
  · cases h
    exact .refl F

theorem giveUp_silent (F : Fabric) (core : FabricCore) (handle : Option BhMkTxHandle) :
    Silent F (F.giveUpTransaction core handle) := by
  cases handle with
  | none => exact .refl F
  | some handle => exact reap_silent

theorem setLane_notify_puts {l : Lane BhMkWireMessage} (room : (F.lane dst k).enqueue msg = some l)
    :
    Puts F ((F.setLane dst k l).bhMkNotifyDestination dst k) dst k msg :=
  ⟨⟨l, room, lane_setLane F dst k l⟩, rfl⟩

/-- The route of a send that passed its checks is the one that its destination gives. -/
theorem sendRoute_eq_ok {srcEpGen : BitVec 32} (h : F.sendRoute args = .ok (route, srcEpGen)) :
    routeOf args.destination = .ok route := by
  unfold sendRoute at h
  split at h
  · cases h
  split at h
  · cases h
  split at h
  · cases h
  split at h
  · cases h
  rename_i found
  dsimp only at h
  split_ifs at h
  cases h
  exact found

/-- A send acknowledges nothing. It fails and no lane changes, or puts its message on a lane of
the core that its destination leads to. -/
theorem send_cases {out : Except Int (Option BhMkTxHandle)} (h : F.bhMkSend core args = (G, out)) :
    (∀ tx, NoNewAck tx F G) ∧
      ((Quiet F G ∧ ∃ code, out = .error code) ∨ ∃ route srcEpGen handle, F.sendRoute args = .ok (route, srcEpGen) ∧ out = .ok handle ∧
        Puts F G route.dstCore args.lane (F.sendMessage core args route srcEpGen handle)) := by
  unfold bhMkSend at h
  cases checked : F.sendRoute args with
  | error code =>
    rw [checked] at h
    cases h
    exact ⟨fun _ => .refl F, .inl ⟨.refl F, code, rfl⟩⟩
  | ok found =>
    obtain ⟨route, srcEpGen⟩ := found
    rw [checked] at h
    dsimp only at h
    cases taken : F.sendTransaction core args route with
    | none =>
      rw [taken] at h
      cases h
      exact ⟨fun _ => .refl F, .inl ⟨.refl F, _, rfl⟩⟩
    | some done =>
      obtain ⟨H, handle⟩ := done
      rw [taken] at h
      dsimp only at h
      have silent : Silent F (H.bumpSequence core) :=
        (sendTransaction_silent taken).trans (.setCore rfl rfl)
      split at h
      · cases h
        have gone := silent.trans (giveUp_silent _ core handle)
        exact ⟨gone.noNewAck, .inl ⟨gone.toQuiet, _, rfl⟩⟩
      rename_i l room
      cases h
      exact ⟨fun tx => (silent.noNewAck tx).trans (.setCore rfl), .inr ⟨route, srcEpGen, handle,
        rfl, rfl, silent.toQuiet.puts (setLane_notify_puts room)⟩⟩

/-- Nothing, or one message or one pending bit for the control lane of core `src`. -/
def Answers (F G : Fabric) (src : BitVec 32) : Prop :=
  Quiet F G ∨ ∃ dst : FabricCore, src.toNat = dst ∧
    (Rings F G dst .control ∨
      ∃ reply, reply.header.flags = mkMsgFlagIsReply ||| mkMsgFlagError ∧ Puts F G dst .control reply)

/-- An error reply goes on the control lane of the core that asked, if there is room; the
pending bit is set either way. It acknowledges nothing. -/
theorem errorReply_answers {orig : BhMkWireMessage} :
    Answers F (F.bhMkSendErrorReply core orig) orig.header.srcCore ∧
      ∀ tx, NoNewAck tx F (F.bhMkSendErrorReply core orig) := by
  unfold bhMkSendErrorReply
  dsimp only
  split
  · rename_i inside
    split
    · exact ⟨.inr ⟨_, rfl, .inl ⟨rfl, rfl⟩⟩, fun _ => .refl F⟩
    rename_i l room
    exact ⟨.inr ⟨_, rfl, .inr ⟨_, rfl, setLane_notify_puts room⟩⟩, fun _ => .setCore rfl⟩
  · exact ⟨.inl (.refl F), fun _ => .refl F⟩

theorem replay_silent (h : F.bhMkReplayCheckAndAdd core msg = some G) : Silent F G := by
  unfold bhMkReplayCheckAndAdd at h
  dsimp only at h
  split at h
  · cases h
  cases h
  exact .setCore rfl rfl

/-- The dispatcher answers the message with an error reply. -/
def Refused (F : Fabric) (core : FabricCore) (msg : BhMkWireMessage) : Prop :=
  bhMkWireValidate F.ticks msg = 0 ∧ msg.header.flags &&& mkMsgFlagIsReply = 0 ∧
    isLegacy msg.header.dstEndpoint = false ∧ msg.header.txnSlot ≠ noTransaction ∧
    ∃ G, F.bhMkReplayCheckAndAdd core msg = some G ∧
      ∃ code, G.bhMkEndpointResolve msg.header.dstEndpoint = .error code

theorem dispatch_cases (F : Fabric) (core : FabricCore) (msg : BhMkWireMessage) :
    let done := F.bhMkDispatchInternal core msg
    let h := msg.header
    Silent F done ∨ ∃ G, F.bhMkReplayCheckAndAdd core msg = some G ∧
      (bhMkWireValidate F.ticks msg = 0 ∧ h.flags &&& mkMsgFlagIsReply ≠ 0 ∧
          done = (G.bhMkTxComplete core ⟨h.txnSlot, h.txnGeneration⟩ h.srcCore h.srcEndpoint 0).1 ∨
        F.Refused core msg ∧ done = G.bhMkSendErrorReply core msg) := by
  unfold bhMkDispatchInternal
  split
  · exact .inl (.refl F)
  rename_i valid
  rw [not_not] at valid
  cases checked : F.bhMkReplayCheckAndAdd core msg with
  | none => exact .inl (.refl F)
  | some G =>
    unfold dispatchNew
    dsimp only
    split
    · rename_i reply
      exact .inr ⟨G, rfl, .inl ⟨valid, reply, rfl⟩⟩
    rename_i request
    split
    · exact .inl (replay_silent checked)
    rename_i current
    cases found : G.bhMkEndpointResolve msg.header.dstEndpoint with
    | error code =>
      dsimp only
      split
      · rename_i asked
        exact .inr ⟨G, rfl, .inr ⟨⟨valid, not_not.mp request, by simpa using current, asked,
          G, checked, code, found⟩, rfl⟩⟩
      · exact .inl (replay_silent checked)
    | ok entry => exact .inl (replay_silent checked)

/-- Dispatching a message changes at most the control lane of the core that sent it, and that
only when the message is refused. -/
theorem dispatch_answers (F : Fabric) (core : FabricCore) (msg : BhMkWireMessage) :
    Answers F (F.bhMkDispatchInternal core msg) msg.header.srcCore ∧
      (Quiet F (F.bhMkDispatchInternal core msg) ∨ F.Refused core msg) := by
  rcases dispatch_cases F core msg with silent | ⟨G, checked, ⟨-, -, is⟩ | ⟨refused, is⟩⟩
  · exact ⟨.inl silent.toQuiet, .inl silent.toQuiet⟩
  · have quiet : Quiet F (F.bhMkDispatchInternal core msg) := by
      rw [is]
      exact (replay_silent checked).toQuiet.trans complete_quiet
    exact ⟨.inl quiet, .inl quiet⟩
  · have quiet := (replay_silent checked).toQuiet
    rw [is]
    refine ⟨?_, .inr refused⟩
    rcases (errorReply_answers).1 with still | ⟨dst, src, rings | ⟨reply, flags, puts⟩⟩
    · exact .inl (quiet.trans still)
    · exact .inr ⟨dst, src, .inl (quiet.rings rings)⟩
    · exact .inr ⟨dst, src, .inr ⟨reply, flags, quiet.puts puts⟩⟩

end Fabric

end BharatOS
