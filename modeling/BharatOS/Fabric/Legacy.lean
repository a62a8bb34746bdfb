import BharatOS.Fabric.Traffic

/-!
# Legacy channels over the fabric (`multikernel.c`)
-/

namespace BharatOS

structure MkChannel where
  srcCore : BitVec 32
  dstCore : BitVec 32
  deriving DecidableEq, Repr

/-- Acknowledgements and lookup answers go over the control lane. -/
def mkMessageLane (msgType : BitVec 32) : BhMkLane :=
  if msgType = 0x1000 ∨ msgType = 0x1001 ∨ msgType = 0x6001 ∨ msgType = 0x6002 ∨ msgType = 0x6004 then
    .control
  else .normal

def mkDestination (dstCore : BitVec 32) : BitVec 64 :=
  dstCore.setWidth 64 <<< 24 ||| bhMkEndpointLegacy

/-- The sentinel has every bit but the last, so the core does not show in the handle. -/
theorem mkDestination_eq (dstCore : BitVec 32) : mkDestination dstCore = bhMkEndpointLegacy := by
  have complement : bhMkEndpointLegacy = ~~~1#64 := rfl
  rw [mkDestination, complement]
  ext i hi
  rw [BitVec.getElem_or, BitVec.getElem_not, BitVec.getElem_one, BitVec.getElem_shiftLeft]
  by_cases first : i = 0 <;> simp [first]

namespace Fabric

def mkSendArgs (channel : MkChannel) (msgType : BitVec 32) (payload : Option (List (BitVec 8)))
    (size : BitVec 32) : SendArgs where
  source := bhMkEndpointLegacy
  destination := mkDestination channel.dstCore
  messageClass := 0
  opcode := msgType.setWidth 16
  lane := mkMessageLane msgType
  payload := payload
  payloadSize := size
  wantsTransaction := false

def mkSendMessage (F : Fabric) (core : FabricCore) (channel : Option MkChannel) (msgType : BitVec 32)
    (payload : Option (List (BitVec 8))) (size : BitVec 32) : Fabric × Int :=
  match channel with
  | none => (F, -3)
  | some channel =>
    match F.bhMkSend core (mkSendArgs channel msgType payload size) with
    | (G, .ok _) => (G, 0)
    | (G, .error code) => (G, if code = -6 then -1 else -3)

/-- One lane of core `dst` got a message with this type and payload, and no other lane of
any core changed. -/
def EnqueuedOnlyOn (F G : Fabric) (dst msgType : BitVec 32) (payload : List (BitVec 8)) : Prop :=
  ∃ lane msg, msg.header.opcode = msgType.setWidth 16 ∧ msg.payload = payload ∧
    ∃ core : FabricCore, core.val = dst.toNat ∧
      (G.lane core lane).messages = (F.lane core lane).messages ++ [msg] ∧
      ∀ c l, ¬ (c = core ∧ l = lane) → G.lane c l = F.lane c l

theorem routeOf_mkDestination {dstCore : BitVec 32} :
    routeOf (mkDestination dstCore) = .ok ⟨0, 0, 0⟩ := by
  rw [mkDestination_eq]
  rfl

/-- A message of a channel goes to core 0, whatever core the channel leads to. -/
theorem mkSendMessage_puts {F : Fabric} {core : FabricCore} {channel : MkChannel}
    {msgType : BitVec 32} {payload : Option (List (BitVec 8))} {size : BitVec 32}
    (accepted : (F.mkSendMessage core (some channel) msgType payload size).2 = 0) :
    ∃ msg, msg.header.opcode = msgType.setWidth 16 ∧
      msg.payload = (payload.getD []).take size.toNat ∧
      Puts F (F.mkSendMessage core (some channel) msgType payload size).1 0
        (mkMessageLane msgType) msg := by
  simp only [mkSendMessage] at accepted ⊢
  cases sent : F.bhMkSend core (mkSendArgs channel msgType payload size) with
  | mk G out =>
    rw [sent] at accepted
    obtain ⟨-, ⟨-, code, rfl⟩ | ⟨route, srcEpGen, handle, checked, rfl, puts⟩⟩ := send_cases sent
    · dsimp only at accepted
      split at accepted <;> cases accepted
    have zero := (sendRoute_eq_ok checked).symm.trans routeOf_mkDestination
    cases zero
    exact ⟨_, rfl, rfl, puts⟩

/-- An accepted message is on a lane of the channel's core, and of no other core, just when
that is core 0. -/
theorem legacy_reaches_channel_core (F : Fabric) (core : FabricCore) (channel : MkChannel)
    (msgType : BitVec 32) (payload : Option (List (BitVec 8))) (size : BitVec 32)
    (accepted : (F.mkSendMessage core (some channel) msgType payload size).2 = 0) :
    EnqueuedOnlyOn F (F.mkSendMessage core (some channel) msgType payload size).1 channel.dstCore
      msgType ((payload.getD []).take size.toNat) ↔ channel.dstCore = 0 := by
  obtain ⟨msg, opcode, bytes, ⟨l, room, lanes⟩, -⟩ := mkSendMessage_puts accepted
  have appended := (Lane.enqueue_eq_some room).2.1
  constructor
  · rintro ⟨lane, other, -, -, dst, value, grown, -⟩
    -- only core 0 got a message, so the lane that grew is one of its lanes
    have zero : dst = 0 := by
      by_contra ne
      rw [lanes dst lane, if_neg (fun both => ne both.1)] at grown
      exact absurd (congrArg List.length grown) (by simp)
    rw [zero] at value
    exact BitVec.eq_of_toNat_eq value.symm
  · intro zero
    refine ⟨mkMessageLane msgType, msg, opcode, bytes, 0, by rw [zero]; rfl, ?_, fun c k ne => ?_⟩
    · rw [lanes, if_pos ⟨rfl, rfl⟩, appended]
    · rw [lanes, if_neg ne]

theorem legacy_reaches_channel_core_zero : EnqueuedOnlyOn (bhMkFabricInit .other)
      ((bhMkFabricInit .other).mkSendMessage 1 (some ⟨1, 0⟩) 0x1000 (some [7]) 1).1 0 0x1000 [7] :=
  (legacy_reaches_channel_core (bhMkFabricInit .other) 1 ⟨1, 0⟩ 0x1000 (some [7]) 1
    (by decide +kernel)).mpr rfl

/-- A message for core 1 is accepted and lies on a lane of core 0. -/
theorem legacy_misses_channel_core :
    let sent := (bhMkFabricInit .other).mkSendMessage 0 (some ⟨0, 1⟩) 0x6000 (some [7]) 1
    sent.2 = 0 ∧ (∀ k, (sent.1.lane 1 k).messages = []) ∧
      ((sent.1.lane 0 .normal).messages.map (·.payload)) = [[7]] := by
  refine ⟨by decide +kernel, fun k => ?_, by decide +kernel⟩
  cases k <;> decide +kernel

end Fabric

end BharatOS
