import BharatOS.Fabric.Core

/-!
# The replay cache and the endpoint table of a core
-/

namespace BharatOS

open Function List

namespace Fabric

/-! ## Replays -/

/-- The fabric, and the keys that each core has accepted, the latest first. -/
abbrev ReplayLog := Fabric × (FabricCore → List BhMkReplayKey)

def replayCall (call : FabricCore × BhMkWireMessage) (s : ReplayLog) : ReplayLog :=
  match s.1.bhMkReplayCheckAndAdd call.1 call.2 with
  | none => s
  | some F => (F, update s.2 call.1 (replayKey call.2 :: s.2 call.1))

/-- After some calls of `bh_mk_replay_check_and_add`, the latest first. -/
def replayCalls (profile : BharatProfile) (calls : List (FabricCore × BhMkWireMessage)) : ReplayLog :=
  calls.foldr replayCall (bhMkFabricInit profile, fun _ => [])

/-- An entry that was never written. -/
def blankKey : BhMkReplayKey := ⟨0xFFFFFFFF, 0xFFFFFFFF, 0, 0, 0, 0, 0, 0⟩

/-- Read backwards from its head, the cache is what was accepted, the latest first. -/
def Remembers (cache : BhMkReplayCache) (accepted : List BhMkReplayKey) : Prop :=
  ∀ i, cache.entries (cache.head - 1 - i) = accepted.getD i blankKey

theorem Remembers.add {cache : BhMkReplayCache} {accepted : List BhMkReplayKey}
    (h : Remembers cache accepted) (key : BhMkReplayKey) :
    Remembers ⟨update cache.entries cache.head key, cache.head + 1⟩ (key :: accepted) := by
  intro i
  have place : cache.head + 1 - 1 - i = cache.head - i := by abel
  simp only [place]
  by_cases first : i = 0
  · subst first
    simp
  have before : (i - 1).val + 1 = i.val := by
    rw [Fin.val_sub_one_of_ne_zero first]
    exact Nat.sub_add_cancel (Nat.pos_of_ne_zero fun zero => first (Fin.ext zero))
  have older : cache.head - i = cache.head - 1 - (i - 1) := by abel
  rw [update_of_ne (by simpa using first), ← before, older, h (i - 1)]
  rfl

theorem replay_eq_none_iff (F : Fabric) (core : FabricCore) (msg : BhMkWireMessage) :
    F.bhMkReplayCheckAndAdd core msg = none ↔
      ∃ i, (F.cores core).replay.entries i = replayKey msg := by
  rw [bhMkReplayCheckAndAdd, ite_eq_left_iff]
  simp

variable (profile : BharatProfile) (core : FabricCore)

theorem remembers_calls (calls : List (FabricCore × BhMkWireMessage)) (core : FabricCore) :
    Remembers ((replayCalls profile calls).1.cores core).replay
      ((replayCalls profile calls).2 core) := by
  unfold replayCalls
  induction calls with
  | nil => exact fun _ => rfl
  | cons call before ih =>
    rw [foldr_cons]
    generalize foldr replayCall _ before = s at ih
    unfold replayCall bhMkReplayCheckAndAdd
    by_cases duplicate : ∃ i, (s.1.cores call.1).replay.entries i = replayKey call.2
    · simpa only [if_pos duplicate] using ih
    simp only [if_neg duplicate]
    by_cases here : core = call.1
    · subst here
      simpa [setCore] using ih.add (replayKey call.2)
    · simpa [setCore, here] using ih

/-- A key is refused when it is one of the last 64 that were accepted. -/
theorem replay_refused_iff (profile : BharatProfile)
    (calls : List (FabricCore × BhMkWireMessage)) (core : FabricCore) (msg : BhMkWireMessage)
    (src : msg.header.srcCore < 256) :
    ((replayCalls profile calls).1.bhMkReplayCheckAndAdd core msg = none ↔
      replayKey msg ∈ ((replayCalls profile calls).2 core).take 64) ∧
    ((replayCalls profile calls).1.bhMkReplayCheckAndAdd core msg = none →
      replayCalls profile ((core, msg) :: calls) = replayCalls profile calls) := by
  have remembers := remembers_calls profile calls core
  have other : replayKey msg ≠ blankKey := by
    intro same
    have core : msg.header.srcCore = 0xFFFFFFFF := congrArg BhMkReplayKey.srcCore same
    rw [core] at src
    exact absurd src (by decide)
  have again : replayCalls profile ((core, msg) :: calls) =
      replayCall (core, msg) (replayCalls profile calls) := foldr_cons
  generalize replayCalls profile calls = s at *
  constructor
  · rw [replay_eq_none_iff, mem_take_iff_getElem]
    constructor
    · rintro ⟨i, is⟩
      have here := remembers ((s.1.cores core).replay.head - 1 - i)
      rw [sub_sub_cancel, is] at here
      have inside : ((s.1.cores core).replay.head - 1 - i).val < (s.2 core).length := by
        by_contra outside
        exact other (here.trans (getD_eq_default _ _ (Nat.not_lt.mp outside)))
      exact ⟨_, lt_min (Fin.isLt _) inside, by rw [here, getD_eq_getElem _ _ inside]⟩
    · rintro ⟨j, inside, is⟩
      refine ⟨(s.1.cores core).replay.head - 1 - ⟨j, by omega⟩, ?_⟩
      rw [remembers, getD_eq_getElem _ _ (by simp only; omega)]
      exact is
  · rw [again]
    unfold replayCall
    generalize s.1.bhMkReplayCheckAndAdd core msg = checked
    rintro rfl
    rfl

theorem replay_refused_again :
    let msg : BhMkWireMessage := ⟨⟨1, 96, 0, 0, 0, 0, 3, 0, 0, 0, 0, 0, 0, 0, 0, 0, 0⟩, []⟩
    (replayCalls .other [(0, msg)]).1.bhMkReplayCheckAndAdd 0 msg = none :=
  (replay_refused_iff .other _ 0 _ (by decide)).1.mpr (by decide +kernel)

/-! ## Endpoints -/

inductive EndpointCall where
  | bind (messageClass opcode : BitVec 32)
  | unbind (handle : BitVec 64)

def endpointCall (core : FabricCore) (call : EndpointCall) (F : Fabric) : Fabric :=
  match call with
  | .bind messageClass opcode => (F.bhMkEndpointBind core messageClass opcode).1
  | .unbind handle => (F.bhMkEndpointUnbind core handle).1

/-- After some calls on a core, the latest first. -/
def endpointCalls (profile : BharatProfile) (core : FabricCore) (calls : List EndpointCall) : Fabric :=
  calls.foldr (endpointCall core) (bhMkFabricInit profile)

theorem generation_calls (calls : List EndpointCall) :
    ((endpointCalls profile core calls).cores core).generation = 1 := by
  unfold endpointCalls
  induction calls with
  | nil => rfl
  | cons call before ih =>
    rw [foldr_cons]
    generalize foldr (endpointCall core) _ before = F at ih
    cases call with
    | bind messageClass opcode =>
      unfold endpointCall bhMkEndpointBind
      dsimp only
      split
      · exact ih
      · split <;> simpa [setCore] using ih
    | unbind handle =>
      unfold endpointCall bhMkEndpointUnbind
      dsimp only
      split
      · exact ih
      split_ifs
      · exact ih
      · exact ih
      · simpa [setCore] using ih

def firstFree (F : Fabric) (core : FabricCore) : Option (Fin 64) :=
  (finRange 64).find? fun slot => !((F.cores core).endpoints slot).bound

theorem pack_isSome_iff (generation : BitVec 32) (slot : Fin 64) :
    (bhMkHandlePack (BitVec.ofNat 32 core) 1 generation (BitVec.ofNat 32 slot)).isSome ↔
      generation ≤ 0xFFFF := by
  have small : ∀ n < 4096, ¬ (0xFFF : BitVec 32) < BitVec.ofNat 32 n := by
    intro n fits
    rw [BitVec.lt_def, BitVec.toNat_ofNat]
    change ¬ 4095 < _
    omega
  simp only [bhMkHandlePack, small core (by omega), small slot (by omega), false_or, or_false,
    show ¬ (0xFFFF : BitVec 32) < 1 by decide]
  split_ifs with large
  · simpa using large
  · simpa using large

variable {F : Fabric} {core : FabricCore}

/-- The only slot that is looked at is the first one that is free. -/
theorem bind_eq_ok_iff (one : (F.cores core).generation = 1) (messageClass opcode : BitVec 32) :
    (∃ handle, (F.bhMkEndpointBind core messageClass opcode).2 = .ok handle) ↔
      ∃ slot, F.firstFree core = some slot ∧
        ((F.cores core).endpoints slot).generation + 1 ≤ 0xFFFF := by
  unfold bhMkEndpointBind firstFree
  dsimp only
  cases (finRange 64).find? fun slot => !((F.cores core).endpoints slot).bound with
  | none => simp
  | some slot =>
    simp only [Option.some.injEq, exists_eq_left', ← pack_isSome_iff core _ slot, one]
    cases bhMkHandlePack _ _ _ _ with
    | none => simp
    | some handle => simp

/-- Some slot is free, and its next generation fits into a handle. -/
def HasRoom (F : Fabric) (core : FabricCore) : Prop :=
  ∃ slot, ((F.cores core).endpoints slot).bound = false ∧
    ((F.cores core).endpoints slot).generation < 0xFFFF

theorem bind_with_room_iff (profile : BharatProfile) (core : FabricCore) (calls : List EndpointCall)
    (messageClass opcode : BitVec 32) :
    let F := endpointCalls profile core calls
    (F.HasRoom core → ∃ handle, (F.bhMkEndpointBind core messageClass opcode).2 = .ok handle) ↔
      (F.HasRoom core → ∀ slot, F.firstFree core = some slot →
        ((F.cores core).endpoints slot).generation + 1 ≤ 0xFFFF) := by
  intro F
  rw [bind_eq_ok_iff (generation_calls profile core calls)]
  refine imp_congr_right ?_
  rintro ⟨slot, free, -⟩
  constructor
  · rintro ⟨first, is, fits⟩ slot' is'
    cases is.symm.trans is'
    exact fits
  · intro fits
    cases found : F.firstFree core with
    | none => exact absurd free (by simpa using find?_eq_none.mp found slot (mem_finRange slot))
    | some first => exact ⟨first, rfl, fits first found⟩

theorem unpack_pack {coreId coreGen epGen slot : BitVec 32} {handle : BitVec 64}
    (packed : bhMkHandlePack coreId coreGen epGen slot = some handle)
    (core : coreId.toNat < 256) (place : slot.toNat < 64) :
    bhMkHandleUnpack handle = .ok ⟨⟨coreId.toNat, core⟩, coreGen, epGen, ⟨slot.toNat, place⟩⟩ := by
  unfold bhMkHandlePack at packed
  split_ifs at packed with large
  cases packed
  simp only [BitVec.lt_def, not_or, Nat.not_lt, BitVec.reduceToNat] at large
  have field : ∀ (x : BitVec 32) (width : Nat), x.toNat < 2 ^ width →
      Packs (x.setWidth 64) x.toNat width := fun x width small =>
    ⟨BitVec.toNat_setWidth_of_le (by decide), small⟩
  have magic : Packs bhMkHandleTypeMagic 0xA5 8 := ⟨rfl, by decide⟩
  have word := (magic.cons 56 <| (field coreId 12 (by omega)).cons 44 <|
    (field coreGen 16 (by omega)).cons 28 <| (field epGen 16 (by omega)).cons 12
    (field slot 12 (by omega))).toNat
  simp only [BitVec.or_assoc]
  generalize bhMkHandleTypeMagic <<< 56 ||| _ = handle at word ⊢
  have coreIs := toNat_field handle 0xFFF 44 12 rfl
  have slotIs := toNat_and_mask handle 0xFFF 12 rfl
  have coreGenIs := toNat_field handle 0xFFFF 28 16 rfl
  have epGenIs := toNat_field handle 0xFFFF 12 16 rfl
  have magicIs : handle >>> 56 &&& 0xFF = bhMkHandleTypeMagic := by
    apply BitVec.eq_of_toNat_eq
    rw [toNat_field handle 0xFF 56 8 rfl, magic.toNat]
    omega
  have valid : handle ≠ bhMkEndpointInvalid := by
    rintro rfl
    revert magicIs
    decide
  unfold bhMkHandleUnpack
  rw [if_neg valid, if_neg (not_not.mpr magicIs), dif_pos (by omega), dif_pos (by omega)]
  simp only [Except.ok.injEq, BhMkHandle.mk.injEq, Fin.mk.injEq]
  refine ⟨by omega, ?_, ?_, by omega⟩
  · apply BitVec.eq_of_toNat_eq
    rw [BitVec.toNat_setWidth]
    omega
  · apply BitVec.eq_of_toNat_eq
    rw [BitVec.toNat_setWidth]
    omega

theorem first_found (free : ((F.cores core).endpoints 0).bound = false) :
    (finRange 64).find? (fun slot => !((F.cores core).endpoints slot).bound) = some 0 := by
  rw [finRange_succ, find?_cons_of_pos (by simp [free])]

theorem rebind {generation : BitVec 32} (one : (F.cores core).generation = 1)
    (first : (F.cores core).endpoints 0 = ⟨0, 0, generation, false⟩)
    (fits : generation + 1 ≤ 0xFFFF) :
    ∃ handle,
      ((endpointCall core (.unbind handle) (endpointCall core (.bind 0 0) F)).cores core).endpoints =
        update (F.cores core).endpoints 0 ⟨0, 0, generation + 1, false⟩ := by
  have packs := (pack_isSome_iff core (generation + 1) 0).mpr fits
  obtain ⟨handle, packed⟩ := Option.isSome_iff_exists.mp packs
  have named : (BitVec.ofNat 32 core).toNat = core := by
    rw [BitVec.toNat_ofNat]
    omega
  have unpacked := unpack_pack packed (by omega) (by decide)
  refine ⟨handle, ?_⟩
  have bound : (F.bhMkEndpointBind core 0 0).1 = F.setCore core { F.cores core with
      endpoints := update (F.cores core).endpoints 0 ⟨0, 0, generation + 1, true⟩ } := by
    simp only [bhMkEndpointBind, first_found (congrArg _ first), one, first, packed]
  simp only [endpointCall, bound, bhMkEndpointUnbind, unpacked, setCore, update_self]
  simp [named]

/-- The first slot is bound and unbound again and again. -/
theorem rebound (core : FabricCore) (n : Nat) (fits : n ≤ 0xFFFE) :
    ∃ calls, let endpoints := ((endpointCalls .other core calls).cores core).endpoints
      endpoints 0 = ⟨0, 0, BitVec.ofNat 32 (n + 1), false⟩ ∧ endpoints 1 = ⟨0, 0, 1, false⟩ := by
  induction n with
  | zero => exact ⟨[], rfl, rfl⟩
  | succ n ih =>
    obtain ⟨calls, first, second⟩ := ih (by omega)
    have next : BitVec.ofNat 32 (n + 1 + 1) = BitVec.ofNat 32 (n + 1) + 1 := BitVec.ofNat_add ..
    obtain ⟨handle, is⟩ := rebind (generation_calls .other core calls) first (by
      rw [← next, BitVec.le_def, BitVec.toNat_ofNat]
      change _ ≤ 65535
      omega)
    refine ⟨.unbind handle :: .bind 0 0 :: calls, ?_⟩
    simp only [endpointCalls, foldr_cons] at is second ⊢
    rw [is, next]
    exact ⟨update_self .., (update_of_ne (by decide) ..).trans second⟩

theorem first_slot_exhausted : ∃ calls,
    let F := endpointCalls .other ⟨0, by decide⟩ calls
    F.HasRoom ⟨0, by decide⟩ ∧ (F.bhMkEndpointBind ⟨0, by decide⟩ 0 0).2 = .error (-1) := by
  obtain ⟨calls, first, second⟩ := rebound ⟨0, by decide⟩ 0xFFFE (by decide)
  refine ⟨calls, ⟨1, ?_⟩, ?_⟩
  · rw [second]
    decide
  · have one := generation_calls .other ⟨0, by decide⟩ calls
    simp only [bhMkEndpointBind, first_found (congrArg _ first), one, first]
    rfl

end Fabric

end BharatOS
