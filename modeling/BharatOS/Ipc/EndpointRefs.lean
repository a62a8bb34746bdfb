import BharatOS.Ipc.Shift
import BharatOS.Lib.BitFields

/-!
# References of one endpoint

What taking and giving back a reference does to an endpoint and to the pool: a
ready endpoint counts one more; an endpoint that loses its last reference may
close and be reclaimed, and then its generation has moved on.
-/

namespace BharatOS

open IpcEndpoint

/-! ## One endpoint -/

namespace IpcEndpoint

theorem tryReclaim_capRefs {ep : IpcEndpoint} {kind : RefKind} :
    ep.tryReclaimLocked.capRefs kind = ep.capRefs kind := by
  unfold tryReclaimLocked
  repeat' split
  all_goals cases kind <;> rfl

variable (ep : IpcEndpoint)

variable (kind : RefKind)

theorem lowerSend_capRefs : ep.lowerSend.capRefs kind =
    if kind = .send ∧ 0 < ep.sendCapRefs then ep.capRefs kind - 1 else ep.capRefs kind := by
  unfold lowerSend
  cases kind <;> simp only [true_and, reduceCtorEq, false_and, if_false] <;> split <;> rfl

theorem lowerRecv_capRefs : ep.lowerRecv.capRefs kind =
    if kind = .receive ∧ 0 < ep.recvCapRefs then ep.capRefs kind - 1 else ep.capRefs kind := by
  unfold lowerRecv
  cases kind <;> simp only [true_and, reduceCtorEq, false_and, if_false] <;> split <;> rfl

theorem closeUnreferenced_capRefs : ep.closeUnreferenced.capRefs kind = ep.capRefs kind := by
  unfold closeUnreferenced
  split <;> cases kind <;> rfl

theorem closeUnreceived_capRefs : ep.closeUnreceived.1.capRefs kind = ep.capRefs kind := by
  unfold closeUnreceived
  split
  · simp only
    split <;> cases kind <;> rfl
  · rfl

/-- A release lowers the count; what it does to the endpoint then leaves the counts alone. -/
theorem release_capRefs (kind' : RefKind) : (ep.release kind).capRefs kind' =
    if kind' = kind ∧ 0 < ep.capRefs kind then ep.capRefs kind' - 1 else ep.capRefs kind' := by
  cases kind with
  | send =>
    rw [release, releaseSend, tryReclaim_capRefs, closeUnreferenced_capRefs, lowerSend_capRefs]
    rfl
  | receive =>
    rw [release, releaseRecv, tryReclaim_capRefs, closeUnreceived_capRefs, lowerRecv_capRefs]
    rfl

theorem ownerClose_capRefs : ep.ownerClose.1.capRefs kind = ep.capRefs kind := by
  unfold ownerClose
  split
  · simp only
    split <;> rw [tryReclaim_capRefs] <;> cases kind <;> rfl
  · exact tryReclaim_capRefs

/-- The endpoint has the references of these kinds on top of its own. -/
structure Gains (ep ep' : IpcEndpoint) (more : RefKind → Prop) [DecidablePred more] : Prop where
  used : ep'.inUse = ep.inUse
  state : ep'.state = ep.state
  generation : ep'.generation = ep.generation
  refs : ∀ kind, ep'.capRefs kind = ep.capRefs kind + if more kind then 1 else 0

theorem gains_nothing {more : RefKind → Prop} [DecidablePred more] (none : ∀ kind, ¬ more kind) :
    Gains ep ep more :=
  ⟨rfl, rfl, rfl, fun kind => by simp [none kind]⟩

theorem acquire_gains {ep : IpcEndpoint} (used : ep.inUse = true) (ready : ep.state = .ready)
    (kind : RefKind) : Gains ep ((ep.acquire kind).getD ep) (· = kind) := by
  cases kind with
  | send =>
    have taken : ep.acquire .send = some { ep with sendCapRefs := ep.sendCapRefs + 1 } := by
      simp [acquire, acquireSend, used, ready]
    rw [taken]
    exact ⟨rfl, rfl, rfl, fun kind' => by cases kind' <;> simp [capRefs]⟩
  | receive =>
    have taken : ep.acquire .receive = some { ep with recvCapRefs := ep.recvCapRefs + 1 } := by
      simp [acquire, acquireRecv, used, ready]
    rw [taken]
    exact ⟨rfl, rfl, rfl, fun kind' => by cases kind' <;> simp [capRefs]⟩

end IpcEndpoint

/-! ## The pool -/

namespace EndpointPool

variable {pool : EndpointPool} {core : Core} {slot : EndpointSlot} {kind : RefKind}
    {rights : CapRightsMask}

/-- The object reference names this incarnation of this endpoint. -/
def Names (objectRef : BitVec 64) (core : Core) (slot : EndpointSlot) (generation : BitVec 32) :
    Prop :=
  endpointUnpackRef objectRef = ⟨core, slot, generation⟩

instance (objectRef : BitVec 64) (core : Core) (slot : EndpointSlot) (generation : BitVec 32) :
    Decidable (Names objectRef core slot generation) :=
  inferInstanceAs (Decidable (_ = _))

theorem names_makeRef (core : Core) (slot : EndpointSlot) (generation : BitVec 32) :
    Names (endpointMakeRef core slot generation) core slot generation := by
  have bits : ∀ {n : Nat}, n < 2 ^ 16 → Packs (BitVec.ofNat 64 n &&& 0xFFFF) n 16 := by
    intro n small
    refine ⟨?_, small⟩
    rw [toNat_and_mask _ _ 16 rfl, BitVec.toNat_ofNat]
    omega
  have bound := generation.isLt
  have wide : Packs (generation.setWidth 64) generation.toNat 32 :=
    ⟨BitVec.toNat_setWidth_of_le (by decide), bound⟩
  have packed := (bits (n := core) (by omega)).cons 48 <| wide.cons 16 <|
    bits (n := slot) (by omega)
  have value := packed.toNat
  unfold Names endpointUnpackRef endpointMakeRef
  rw [BitVec.or_assoc, EndpointRef.mk.injEq]
  refine ⟨?_, ?_, BitVec.eq_of_toNat_eq ?_⟩
  · rw [toNat_field _ _ 48 16 rfl, value]
    omega
  · rw [toNat_and_mask _ _ 16 rfl, value]
    omega
  · rw [BitVec.toNat_setWidth, toNat_field _ _ 16 32 rfl, value]
    omega

variable {objectRef : BitVec 64} {type : CapType}

theorem Names.unique {core' : Core} {slot' : EndpointSlot} {g g' : BitVec 32}
    (h : Names objectRef core slot g) (h' : Names objectRef core' slot' g') :
    core' = core ∧ slot' = slot ∧ g' = g := by
  have same := h'.symm.trans h
  rw [EndpointRef.mk.injEq] at same
  exact ⟨Fin.ext same.1, Fin.ext same.2.1, same.2.2⟩

theorem endpointAt_eq_some {r : EndpointRef} : pool.endpointAt r = some (core, slot) ↔
      (pool core slot).inUse = true ∧ r = ⟨core, slot, (pool core slot).generation⟩ := by
  unfold endpointAt
  constructor
  · intro h
    split at h
    · simp only at h
      split at h
      · cases h
      rename_i used
      split at h
      · cases h
      rename_i same
      cases h
      rw [not_not] at same
      exact ⟨by simpa using used, by rw [same]⟩
    · cases h
  · rintro ⟨used, e⟩
    cases e
    simp [used]

theorem endpointByRef_eq_some :
    pool.endpointByRef objectRef = some (core, slot) ↔
      (pool core slot).inUse = true ∧ Names objectRef core slot (pool core slot).generation :=
  endpointAt_eq_some

variable {objectRef : BitVec 64}

/-- A capability with these contents is a reference of the kind to this incarnation. -/
def refers (type : CapType) (objectRef : BitVec 64) (rights : CapRightsMask) (kind : RefKind)
    (core : Core) (slot : EndpointSlot) (generation : BitVec 32) : Bool :=
  type == .endpoint && decide (Names objectRef core slot generation) && rights &&& kind.right != 0

theorem refers_iff {generation : BitVec 32} :
    refers type objectRef rights kind core slot generation = true ↔ type = .endpoint ∧
      Names objectRef core slot generation ∧ rights &&& kind.right ≠ 0 := by
  simp [refers, and_assoc]

/-- The endpoint that a new capability with these contents refers to is ready. -/
def Receptive (pool : EndpointPool) (type : CapType) (objectRef : BitVec 64)
    (rights : CapRightsMask) : Prop :=
  ∀ kind core slot, pool.endpointByRef objectRef = some (core, slot) → type = .endpoint →
    rights &&& RefKind.right kind ≠ 0 → (pool core slot).state = .ready

theorem acquireIf_gains (kind : RefKind)
    (ready : ∀ core slot, pool.endpointByRef objectRef = some (core, slot) →
      rights &&& kind.right ≠ 0 → (pool core slot).state = .ready) (core : Core)
    (slot : EndpointSlot) :
    (pool core slot).Gains (pool.acquireIf rights objectRef kind core slot) fun kind' =>
      kind' = kind ∧ rights &&& kind.right ≠ 0 ∧
        pool.endpointByRef objectRef = some (core, slot) := by
  unfold acquireIf
  split
  · rename_i wanted
    rw [acquireCap_apply]
    split
    · rename_i found
      simpa only [wanted, found, not_false_eq_true, and_true, ne_eq] using
        acquire_gains (endpointByRef_eq_some.mp found).1 (ready core slot found wanted) kind
    · rename_i elsewhere
      exact gains_nothing _ fun _ more => elsewhere more.2.2
  · rename_i unwanted
    exact gains_nothing _ fun _ more => unwanted more.2.1

theorem endpointByRef_congr {pool' : EndpointPool}
    (used : ∀ core slot, (pool' core slot).inUse = (pool core slot).inUse)
    (generation : ∀ core slot, (pool' core slot).generation = (pool core slot).generation) :
    pool'.endpointByRef objectRef = pool.endpointByRef objectRef := by
  apply Option.ext
  rintro ⟨core, slot⟩
  rw [endpointByRef_eq_some, endpointByRef_eq_some, used, generation]

/-- The references that a new capability takes, if its endpoint is ready. -/
theorem acquire_gains_refs (ready : pool.Receptive type objectRef rights) (core : Core)
    (slot : EndpointSlot) :
    (pool core slot).Gains (pool.capEndpointRefAcquire type objectRef rights core slot) fun kind =>
      (pool core slot).inUse = true ∧
        refers type objectRef rights kind core slot (pool core slot).generation := by
  by_cases endpoint : type = .endpoint
  · subst endpoint
    have first := acquireIf_gains .send fun core slot found => ready .send core slot found rfl
    have found : (pool.acquireIf rights objectRef .send).endpointByRef objectRef =
        pool.endpointByRef objectRef :=
      endpointByRef_congr (fun core slot => (first core slot).used) fun core slot =>
        (first core slot).generation
    have still : ∀ core slot,
        (pool.acquireIf rights objectRef .send).endpointByRef objectRef = some (core, slot) →
        rights &&& RefKind.right .receive ≠ 0 →
        (pool.acquireIf rights objectRef .send core slot).state = .ready := by
      intro core slot there wanted
      rw [found] at there
      rw [(first core slot).state]
      exact ready .receive core slot there rfl wanted
    obtain ⟨used₁, state₁, generation₁, refs₁⟩ := first core slot
    obtain ⟨used₂, state₂, generation₂, refs₂⟩ := acquireIf_gains .receive still core slot
    refine ⟨used₂.trans used₁, state₂.trans state₁, generation₂.trans generation₁, fun kind => ?_⟩
    refine (refs₂ kind).trans ?_
    rw [refs₁, found]
    cases kind <;> simp [endpointByRef_eq_some, refers_iff, and_comm, and_assoc]
  · have none : pool.capEndpointRefAcquire type objectRef rights = pool := if_pos endpoint
    rw [none]
    exact gains_nothing _ fun _ more => endpoint (refers_iff.mp more.2).1

theorem releaseIf_spec :
    (pool core slot).Remains (pool.releaseIf rights objectRef kind core slot) ∧
    ∀ kind', (pool.releaseIf rights objectRef kind core slot).capRefs kind' =
      if kind' = kind ∧ rights &&& kind.right ≠ 0 ∧
          pool.endpointByRef objectRef = some (core, slot) ∧ 0 < (pool core slot).capRefs kind
      then (pool core slot).capRefs kind' - 1 else (pool core slot).capRefs kind' := by
  unfold releaseIf
  split
  · rename_i wanted
    rw [releaseCap_apply]
    split
    · rename_i found
      refine ⟨(release_recounts _ kind).toRemains, fun kind' => ?_⟩
      simp only [release_capRefs, wanted, found, not_false_eq_true, true_and, ne_eq]
    · rename_i elsewhere
      exact ⟨.refl _, fun kind' => (if_neg fun h => elsewhere h.2.2.1).symm⟩
  · rename_i unwanted
    exact ⟨.refl _, fun kind' => (if_neg fun h => unwanted h.2.1).symm⟩

/-- The references that a freed capability gives back. -/
theorem release_spec :
    (pool core slot).Remains (pool.capEndpointRefRelease type objectRef rights core slot) ∧
    ((pool.capEndpointRefRelease type objectRef rights core slot).inUse = true → ∀ kind,
      (pool.capEndpointRefRelease type objectRef rights core slot).capRefs kind =
        if refers type objectRef rights kind core slot (pool core slot).generation ∧
            0 < (pool core slot).capRefs kind
        then (pool core slot).capRefs kind - 1 else (pool core slot).capRefs kind) := by
  by_cases endpoint : type = .endpoint
  · subst endpoint
    obtain ⟨remains₁, refs₁⟩ := releaseIf_spec
    obtain ⟨remains₂, refs₂⟩ := releaseIf_spec
    rw [release_eq]
    refine ⟨remains₁.trans remains₂, fun used kind => ?_⟩
    have used₁ := remains₂.used used
    have used₀ := remains₁.used used₁
    have here : pool.endpointByRef objectRef = some (core, slot) ↔
        Names objectRef core slot (pool core slot).generation := by
      rw [endpointByRef_eq_some]
      simp [used₀]
    have here₁ : (pool.releaseIf rights objectRef .send).endpointByRef objectRef =
        some (core, slot) ↔ Names objectRef core slot (pool core slot).generation := by
      rw [endpointByRef_eq_some, remains₁.same used₁]
      simp [used₁]
    simp only [refs₂, refs₁, here, here₁]
    cases kind <;> simp only [reduceCtorEq, false_and, true_and, if_false] <;>
      exact if_congr (by rw [refers_iff]; tauto) rfl rfl
  · have none : pool.capEndpointRefRelease type objectRef rights = pool := if_pos endpoint
    rw [none]
    refine ⟨.refl _, fun _ kind => ?_⟩
    simp [refers, endpoint]

end EndpointPool

end BharatOS
