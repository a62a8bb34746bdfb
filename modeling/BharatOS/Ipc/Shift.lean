import BharatOS.Ipc.Endpoint

/-!
# What the capability code does to an endpoint

All that an endpoint sees of it are references taken and given back: it stays as it is but for its
two counts, or it closes. An endpoint that loses its last reference may be reclaimed, and then its
generation has moved on.
-/

namespace BharatOS

open IpcEndpoint Option

/-- What comes with the bytes of a message: the capabilities to transfer and the
provenance. -/
structure Enclosure where
  capTransferId : BitVec 32
  capTransferRights : CapRightsMask
  capTransferSource : BhCapLocator
  replyCapTransferId : BitVec 32
  replyCapTransferRights : CapRightsMask
  replyCapTransferSource : BhCapLocator
  provenance : IpcProvenance
  deriving DecidableEq, Repr

/-- A whole message. -/
structure Parcel where
  payload : List (BitVec 8)
  msgLen : BitVec 32
  enclosure : Enclosure
  deriving DecidableEq, Repr

/-- The two kinds of reference that an endpoint counts. -/
inductive RefKind where
  | send | receive
  deriving DecidableEq, Repr

def RefKind.right : RefKind → CapRightsMask
  | .send => capRightEndpointSend
  | .receive => capRightEndpointReceive

namespace IpcEndpoint

def capRefs (ep : IpcEndpoint) : RefKind → BitVec 32
  | .send => ep.sendCapRefs
  | .receive => ep.recvCapRefs

def acquire (ep : IpcEndpoint) : RefKind → Option IpcEndpoint
  | .send => ep.acquireSend
  | .receive => ep.acquireRecv

def release (ep : IpcEndpoint) : RefKind → IpcEndpoint
  | .send => ep.releaseSend
  | .receive => ep.releaseRecv.1

/-- The endpoint is what it was, or has been reclaimed. -/
structure Remains (ep ep' : IpcEndpoint) : Prop where
  generation : ep'.generation = ep.generation ∨
    ep'.inUse = false ∧ ep'.generation = nextGeneration ep.generation
  used : ep'.inUse = true → ep.inUse = true
  idle : ep.inUse = false → ep'.generation = ep.generation

theorem Remains.refl (ep : IpcEndpoint) : Remains ep ep := ⟨.inl rfl, fun h => h, fun _ => rfl⟩

theorem Remains.trans {ep₁ ep₂ ep₃ : IpcEndpoint} (h : Remains ep₁ ep₂) (h' : Remains ep₂ ep₃) :
    Remains ep₁ ep₃ := by
  refine ⟨?_, fun used => h.used (h'.used used), fun idle => ?_⟩
  · rcases h.generation with same | ⟨gone, next⟩
    · rw [← same]; exact h'.generation
    refine .inr ⟨?_, (h'.idle gone).trans next⟩
    by_contra used
    rw [h'.used (by simpa using used)] at gone
    cases gone
  · have gone : ep₂.inUse = false := by
      by_contra used
      rw [h.used (by simpa using used)] at idle
      cases idle
    exact (h'.idle gone).trans (h.idle idle)

theorem Remains.same {ep ep' : IpcEndpoint} (h : Remains ep ep') (used : ep'.inUse = true) :
    ep'.generation = ep.generation := by
  rcases h.generation with same | ⟨gone, -⟩
  · exact same
  · rw [gone] at used; cases used

def enclosure (ep : IpcEndpoint) : Enclosure where
  capTransferId := ep.msg.capTransferId
  capTransferRights := ep.msg.capTransferRights
  capTransferSource := ep.capTransferSource
  replyCapTransferId := ep.replyCapTransferId
  replyCapTransferRights := ep.replyCapTransferRights
  replyCapTransferSource := ep.replyCapTransferSource
  provenance := ep.provenance

/-- The message as a receiver reads it: as many bytes of the buffer as it is long. -/
def parcel (ep : IpcEndpoint) : Parcel :=
  ⟨ep.msg.payload.take ep.msg.msgLen.toNat, ep.msg.msgLen, ep.enclosure⟩

/-- Nobody stored, claimed or took a message: the endpoint at most closed, and a message
that nobody has claimed may be gone. The queues and the counters may be different. -/
structure Drifts (ep ep' : IpcEndpoint) : Prop where
  claims : ep'.activeClaims = ep.activeClaims
  ready : ep'.state = .ready → ep.state = .ready ∧ ep'.generation = ep.generation
  message : ep'.hasMsg = ep.hasMsg ∧ ep'.parcel = ep.parcel ∨
    ep'.hasMsg = .empty ∧ (ep.hasMsg = .queued ∨ ep.activeClaims = 0)

theorem Drifts.trans {ep₁ ep₂ ep₃ : IpcEndpoint} (h : Drifts ep₁ ep₂) (h' : Drifts ep₂ ep₃) :
    Drifts ep₁ ep₃ where
  claims := h'.claims.trans h.claims
  ready ready := by
    obtain ⟨ready₂, generation₂⟩ := h'.ready ready
    obtain ⟨ready₁, generation₁⟩ := h.ready ready₂
    exact ⟨ready₁, generation₂.trans generation₁⟩
  message := by
    rcases h'.message with ⟨same', parcel'⟩ | ⟨empty, why⟩
    · rcases h.message with ⟨same, parcel⟩ | ⟨empty, why⟩
      · exact .inl ⟨same'.trans same, parcel'.trans parcel⟩
      · exact .inr ⟨same'.trans empty, why⟩
    refine .inr ⟨empty, ?_⟩
    rcases why with queued | idle
    · rcases h.message with ⟨same, -⟩ | ⟨-, why⟩
      · exact .inl (same.symm.trans queued)
      · exact why
    · exact .inr (h.claims.symm.trans idle)

structure Shift (ep ep' : IpcEndpoint) : Prop where
  claims : ep'.activeClaims = ep.activeClaims
  ready : ep'.state = .ready → ep.state = .ready ∧
    ep' = { ep with sendCapRefs := ep'.sendCapRefs, recvCapRefs := ep'.recvCapRefs }
  message : ep'.hasMsg = ep.hasMsg ∧ ep'.parcel = ep.parcel ∨
    ep'.hasMsg = .empty ∧ (ep.hasMsg = .queued ∨ ep.activeClaims = 0)
  senders : ep'.senders = ep.senders ∨ ep'.senders = []
  receivers : ep'.receivers = ep.receivers ∨ ep'.receivers = []

namespace Shift

theorem refl (ep : IpcEndpoint) : Shift ep ep :=
  ⟨rfl, fun ready => ⟨ready, rfl⟩, .inl ⟨rfl, rfl⟩, .inl rfl, .inl rfl⟩

theorem drifts {ep ep' : IpcEndpoint} (h : Shift ep ep') : Drifts ep ep' where
  claims := h.claims
  ready ready := by
    obtain ⟨was, same⟩ := h.ready ready
    rw [same]
    exact ⟨was, rfl⟩
  message := h.message

theorem trans {ep₁ ep₂ ep₃ : IpcEndpoint} (h : Shift ep₁ ep₂) (h' : Shift ep₂ ep₃) :
    Shift ep₁ ep₃ where
  claims := h'.claims.trans h.claims
  ready ready := by
    obtain ⟨ready₂, eq₃⟩ := h'.ready ready
    obtain ⟨ready₁, eq₂⟩ := h.ready ready₂
    refine ⟨ready₁, ?_⟩
    rw [eq₃, eq₂]
  message := (h.drifts.trans h'.drifts).message
  senders := by
    rcases h'.senders with e' | e'
    · rcases h.senders with e | e
      · exact .inl (e'.trans e)
      · exact .inr (e'.trans e)
    · exact .inr e'
  receivers := by
    rcases h'.receivers with e' | e'
    · rcases h.receivers with e | e
      · exact .inl (e'.trans e)
      · exact .inr (e'.trans e)
    · exact .inr e'

end Shift

/-- A step that only touches the references of an endpoint. -/
structure Recounts (ep ep' : IpcEndpoint) : Prop extends Remains ep ep', Shift ep ep'

namespace Recounts

theorem refl (ep : IpcEndpoint) : Recounts ep ep := ⟨.refl ep, .refl ep⟩

theorem trans {ep₁ ep₂ ep₃ : IpcEndpoint} (h : Recounts ep₁ ep₂) (h' : Recounts ep₂ ep₃) :
    Recounts ep₁ ep₃ :=
  ⟨h.toRemains.trans h'.toRemains, h.toShift.trans h'.toShift⟩

/-- Nothing but the shift is to be seen while the endpoint is not reclaimed. -/
theorem of_shift {ep ep' : IpcEndpoint} (h : Shift ep ep')
    (generation : ep'.generation = ep.generation) (used : ep'.inUse = ep.inUse) : Recounts ep ep' :=
  ⟨⟨.inl generation, used.symm.trans, fun _ => generation⟩, h⟩

theorem counts (ep : IpcEndpoint) (send receive : BitVec 32) :
    Recounts ep { ep with sendCapRefs := send, recvCapRefs := receive } :=
  of_shift ⟨rfl, fun ready => ⟨ready, rfl⟩, .inl ⟨rfl, rfl⟩, .inl rfl, .inl rfl⟩ rfl rfl

end Recounts

variable (ep : IpcEndpoint)

theorem reclaim_recounts : Recounts ep ep.tryReclaimLocked := by
  unfold tryReclaimLocked
  split
  · exact .refl _
  rename_i used
  split
  · exact .refl _
  split
  · rename_i idle
    exact ⟨⟨.inr ⟨rfl, rfl⟩, fun h => (by cases h), fun idle => absurd idle used⟩,
      ⟨rfl, nofun, .inr ⟨rfl, .inr idle.2.2.1⟩, .inl rfl, .inl rfl⟩⟩
  · exact .refl _

theorem reclaim_shift : Shift ep ep.tryReclaimLocked := (reclaim_recounts ep).toShift

theorem acquire_recounts (kind : RefKind) : Recounts ep ((ep.acquire kind).getD ep) := by
  cases kind with
  | send =>
    change Recounts ep (ep.acquireSend.getD ep)
    unfold acquireSend
    split
    · exact .refl _
    · exact .counts ep _ _
  | receive =>
    change Recounts ep (ep.acquireRecv.getD ep)
    unfold acquireRecv
    split
    · exact .refl _
    · exact .counts ep _ _

theorem lowerSend_recounts : Recounts ep ep.lowerSend := by
  unfold lowerSend
  split
  · exact .counts ep _ _
  · exact .refl _

theorem lowerRecv_recounts : Recounts ep ep.lowerRecv := by
  unfold lowerRecv
  split
  · exact .counts ep _ _
  · exact .refl _

theorem closeUnreferenced_recounts : Recounts ep ep.closeUnreferenced := by
  unfold closeUnreferenced
  split
  · exact .of_shift ⟨rfl, nofun, .inl ⟨rfl, rfl⟩, .inl rfl, .inl rfl⟩ rfl rfl
  · exact .refl _

theorem closeUnreceived_recounts : Recounts ep ep.closeUnreceived.1 := by
  unfold closeUnreceived
  split
  · simp only
    split
    · rename_i queued
      exact .of_shift ⟨rfl, nofun, .inr ⟨rfl, .inl queued⟩, .inr rfl, .inr rfl⟩ rfl rfl
    · exact .of_shift ⟨rfl, nofun, .inl ⟨rfl, rfl⟩, .inr rfl, .inr rfl⟩ rfl rfl
  · exact .refl _

theorem release_recounts (kind : RefKind) : Recounts ep (ep.release kind) := by
  cases kind with
  | send =>
    exact ((lowerSend_recounts ep).trans (closeUnreferenced_recounts _)).trans (reclaim_recounts _)
  | receive =>
    exact ((lowerRecv_recounts ep).trans (closeUnreceived_recounts _)).trans (reclaim_recounts _)

theorem ownerClose_recounts : Recounts ep ep.ownerClose.1 := by
  unfold ownerClose
  split
  · refine .trans ?_ (reclaim_recounts _)
    split
    · rename_i queued
      exact .of_shift ⟨rfl, nofun, .inr ⟨rfl, .inl queued⟩, .inr rfl, .inr rfl⟩ rfl rfl
    · exact .of_shift ⟨rfl, nofun, .inl ⟨rfl, rfl⟩, .inr rfl, .inr rfl⟩ rfl rfl
  · exact reclaim_recounts _

theorem ownerClose_shift : Shift ep ep.ownerClose.1 := (ownerClose_recounts ep).toShift

end IpcEndpoint

namespace EndpointPool

theorem set_self (pool : EndpointPool) (core : Core) (slot : EndpointSlot) (ep : IpcEndpoint) :
    pool.set core slot ep core slot = ep := by
  simp [set]

variable {pool : EndpointPool} {core : Core} {slot : EndpointSlot} {objectRef : BitVec 64}
  {core' : Core} {slot' : EndpointSlot} {pool' : EndpointPool}

theorem set_other (ep : IpcEndpoint) (other : ¬ (core' = core ∧ slot' = slot)) :
    pool.set core slot ep core' slot' = pool core' slot' := by
  unfold set
  by_cases hc : core' = core
  · subst hc
    have hs : slot' ≠ slot := fun h => other ⟨rfl, h⟩
    simp [hs]
  · simp [hc]

theorem set_apply (ep : IpcEndpoint) :
    pool.set core' slot' ep core slot =
      if core = core' ∧ slot = slot' then ep else pool core slot := by
  split
  · rename_i here
    rw [here.1, here.2, set_self]
  · rename_i other
    exact set_other ep other

def acquireCap (pool : EndpointPool) (kind : RefKind) (objectRef : BitVec 64) : EndpointPool :=
  match kind with
  | .send => (pool.acquireSendCap objectRef).1
  | .receive => (pool.acquireRecvCap objectRef).1

def releaseCap (pool : EndpointPool) (kind : RefKind) (objectRef : BitVec 64) : EndpointPool :=
  match kind with
  | .send => (pool.releaseSendCap objectRef).1
  | .receive => (pool.releaseRecvCap objectRef).1

theorem some_place : some (core', slot') = some (core, slot) ↔ core = core' ∧ slot = slot' := by
  rw [Option.some.injEq, Prod.mk.injEq, eq_comm, @eq_comm _ slot']

theorem acquireCap_apply (kind : RefKind) : pool.acquireCap kind objectRef core slot =
    if pool.endpointByRef objectRef = some (core, slot) then
      ((pool core slot).acquire kind).getD (pool core slot)
    else pool core slot := by
  cases found : pool.endpointByRef objectRef with
  | none => cases kind <;> simp [acquireCap, acquireSendCap, acquireRecvCap, found]
  | some at' =>
    obtain ⟨core', slot'⟩ := at'
    by_cases here : core = core' ∧ slot = slot'
    · cases kind <;> simp only [acquireCap, acquireSendCap, acquireRecvCap, found,
        acquire] <;> split <;> simp [set_self, *]
    rw [if_neg (some_place.not.mpr here)]
    cases kind <;> simp only [acquireCap, acquireSendCap, acquireRecvCap, found] <;> split <;>
      simp [set_other _ here]

theorem releaseCap_apply (kind : RefKind) : pool.releaseCap kind objectRef core slot =
    if pool.endpointByRef objectRef = some (core, slot) then (pool core slot).release kind
    else pool core slot := by
  cases found : pool.endpointByRef objectRef with
  | none => cases kind <;> simp [releaseCap, releaseSendCap, releaseRecvCap, found]
  | some at' =>
    obtain ⟨core', slot'⟩ := at'
    by_cases here : core = core' ∧ slot = slot'
    · obtain ⟨rfl, rfl⟩ := here
      cases kind <;> simp [releaseCap, releaseSendCap, releaseRecvCap, found, set_self, release]
    · rw [if_neg (some_place.not.mpr here)]
      cases kind <;> simp [releaseCap, releaseSendCap, releaseRecvCap, found, set_other _ here]

def acquireIf (pool : EndpointPool) (rights : CapRightsMask) (objectRef : BitVec 64)
    (kind : RefKind) : EndpointPool :=
  if rights &&& kind.right ≠ 0 then pool.acquireCap kind objectRef else pool

def releaseIf (pool : EndpointPool) (rights : CapRightsMask) (objectRef : BitVec 64)
    (kind : RefKind) : EndpointPool :=
  if rights &&& kind.right ≠ 0 then pool.releaseCap kind objectRef else pool

variable {rights : CapRightsMask} {type : CapType}

theorem release_eq :
    pool.capEndpointRefRelease .endpoint objectRef rights =
      (pool.releaseIf rights objectRef .send).releaseIf rights objectRef .receive := rfl

/-- Every endpoint of the pool has shifted. -/
structure Shifts (pool pool' : EndpointPool) : Prop where
  endpoint : ∀ core slot, (pool core slot).Shift (pool' core slot)

theorem Shifts.refl (pool : EndpointPool) : Shifts pool pool := ⟨fun _ _ => .refl _⟩

theorem Shifts.trans {pool₁ pool₂ pool₃ : EndpointPool} (h : Shifts pool₁ pool₂)
    (h' : Shifts pool₂ pool₃) : Shifts pool₁ pool₃ :=
  ⟨fun core slot => (h.endpoint core slot).trans (h'.endpoint core slot)⟩

theorem Shifts.of_eq (h : pool' = pool) : Shifts pool pool' :=
  h ▸ .refl _

theorem Shifts.ite {p : Prop} [Decidable p] (h : Shifts pool pool') :
    Shifts pool (if p then pool' else pool) := by
  split
  · exact h
  · exact .refl _

theorem acquireIf_shifts (rights : CapRightsMask) (kind : RefKind) :
    Shifts pool (pool.acquireIf rights objectRef kind) := by
  refine .ite ⟨fun core slot => ?_⟩
  rw [acquireCap_apply]
  split
  · exact (acquire_recounts _ kind).toShift
  · exact .refl _

theorem releaseIf_shifts (rights : CapRightsMask) (kind : RefKind) :
    Shifts pool (pool.releaseIf rights objectRef kind) := by
  refine .ite ⟨fun core slot => ?_⟩
  rw [releaseCap_apply]
  split
  · exact (release_recounts _ kind).toShift
  · exact .refl _

theorem refAcquire_shifts : Shifts pool (pool.capEndpointRefAcquire type objectRef rights) := by
  by_cases endpoint : type = .endpoint
  · subst endpoint
    exact (acquireIf_shifts rights .send).trans (acquireIf_shifts rights .receive)
  · exact .of_eq (if_pos endpoint)

theorem refRelease_shifts : Shifts pool (pool.capEndpointRefRelease type objectRef rights) := by
  by_cases endpoint : type = .endpoint
  · subst endpoint
    exact (releaseIf_shifts rights .send).trans (releaseIf_shifts rights .receive)
  · exact .of_eq (if_pos endpoint)

/-- A loop whose steps shift the pool shifts it. -/
theorem shifts_foldl {σ α : Type} (pool : σ → EndpointPool) {f : σ → α → σ}
    (one : ∀ s a, Shifts (pool s) (pool (f s a))) (as : List α) (s : σ) :
    Shifts (pool s) (pool (as.foldl f s)) := by
  induction as generalizing s with
  | nil => exact .refl _
  | cons a rest ih => exact (one s a).trans (ih (f s a))

end EndpointPool

end BharatOS
