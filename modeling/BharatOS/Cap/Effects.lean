import BharatOS.Cap.RemoteRevoke
import BharatOS.Cap.RevokeWalk
import BharatOS.Cap.Wire
import BharatOS.Ipc.Shift

/-!
# What an action can do to the tables and to the transactions

Every action of the system has one of a few effects on the capability tables and
on the offers in the transaction records. Invariants of the system are proved
once for each effect.
-/

namespace BharatOS

open TxTable Option RevokeCall

/-- What an action may do beyond rewriting entries and filling slots of its own:
claim a transaction record, tear a table down, install for another core, free
entries or count pins. -/
inductive Licence where
  | plain
  | claim (core : Core)
  | tearDown (ref : TableRef)
  | install (req : TxRequest) (dst : TableRef) (dstId : BitVec 32) (read : BhCapTxEntry)
  | free (which : CapRef → Prop)
  | count

/-- The entries that may be gone after the action. -/
def Licence.frees : Licence → CapRef → Prop
  | .tearDown ref => fun c => c.table = ref
  | .free which => which
  | _ => fun _ => False

/-- A revocation frees the node it has reached. On its way past a node without pins
it looks at the pins in the same section; after a wait it does so only if the wait
was in vain. -/
def RevokeCall.licence (k : Kernel) (call : RevokeCall) : Licence :=
  match call.pc with
  | .free current _ => .free fun c =>
    Kernel.visit k.registry current = .at c ∧ (k.registry.entry c).activePins = 0
  | .relock current _ pinTimedOut => .free fun c => Kernel.visit k.registry current = .at c ∧
    (pinTimedOut = true → (k.registry.entry c).activePins = 0)
  | _ => .plain

theorem RevokeCall.licence_cases (k : Kernel) (call : RevokeCall) :
    call.licence k = .plain ∨ ∃ which, call.licence k = .free which := by
  unfold licence
  split
  · exact .inr ⟨_, rfl⟩
  · exact .inr ⟨_, rfl⟩
  · exact .inl rfl

/-- The handlers free without a look at the pins. -/
def HandlerCall.licence (k : Kernel) (call : HandlerCall) : Licence :=
  match call.pc with
  | .read (.install dst dstId) copy [] => .install call.reply.request dst dstId copy
  | .read (.undo dst _ slot) copy [] => .free fun c =>
    k.rollbackEntry dst slot copy.remoteDstGen = some c
  | .scan .commit notice (cspace :: _) => .free fun c =>
    c.table = ⟨call.core, cspace⟩ ∧ Kernel.commits notice (k.registry.entry c) = true
  | _ => .plain

theorem HandlerCall.licence_cases (k : Kernel) (call : HandlerCall) :
    call.licence k = .plain ∨ (∃ which, call.licence k = .free which) ∨
      ∃ dst dstId copy, call.pc = .read (.install dst dstId) copy [] ∧
        call.licence k = .install call.reply.request dst dstId copy := by
  unfold licence
  split
  · rename_i pc
    exact .inr (.inr ⟨_, _, _, pc, rfl⟩)
  · exact .inr (.inl ⟨_, rfl⟩)
  · exact .inr (.inl ⟨_, rfl⟩)
  · exact .inl rfl

namespace Registry

/-- Entries are rewritten where they are or freed, and nothing new appears. -/
structure Rewrites (licence : Licence) (R R' : Registry) : Prop where
  spaces : SameSpaces R R'
  entry : ∀ d, R'.entry d = R.entry d ∨
    (∃ ed : EntryEdit, (licence = .count ∨ ed.quiet = true) ∧ R'.entry d = ed.apply (R.entry d)) ∨
    licence.frees d ∧ (R.entry d).inUse = true ∧ R'.entry d = (R.entry d).freed

variable {licence : Licence}

theorem Rewrites.refl (R : Registry) : Rewrites licence R R := ⟨.refl R, fun _ => .inl rfl⟩

theorem rewrites_edit (R : Registry) (c : CapRef) (ed : EntryEdit)
    (quiet : licence = .count ∨ ed.quiet = true) : Rewrites licence R (R.edit c ed) := by
  refine ⟨edit_sameSpaces R c ed, fun d => ?_⟩
  rcases edit_entry_cases with h | h
  · exact .inl h
  · exact .inr (.inl ⟨ed, quiet, h⟩)

theorem rewrites_release {R : Registry} {c : CapRef} (used : (R.entry c).inUse = true)
    (may : licence.frees c) : Rewrites licence R (R.release c) := by
  refine ⟨release_sameSpaces R c, fun d => ?_⟩
  by_cases h : d = c
  · subst h
    exact .inr (.inr ⟨may, used,
      by rw [release_entry (registered_of_inUse used), Function.update_self]⟩)
  · exact .inl (release_entry_other h)

end Registry

namespace BhCapTxEntry

/-- What a record offers, and to whom. -/
def offer (tx : BhCapTxEntry) : BhCapLocator × BhCapLocator × CapType × CapRightsMask × BitVec 64 :=
  (tx.src, tx.dst, tx.type, tx.requestedRights, tx.objectRef)

/-- What the destination has noted in the record. -/
def remote (tx : BhCapTxEntry) : BitVec 32 × BitVec 32 × BitVec 32 :=
  (tx.remoteCapId, tx.remoteDstSlot, tx.remoteDstGen)

/-- The record still stands for the same transaction, and the destination has noted
nothing new in it. -/
structure Kept (tx tx' : BhCapTxEntry) : Prop where
  generation : tx'.generation = tx.generation
  offer : tx'.offer = tx.offer
  remote : tx'.remote = tx.remote

theorem Kept.refl (tx : BhCapTxEntry) : Kept tx tx := ⟨rfl, rfl, rfl⟩

theorem Kept.trans {tx₁ tx₂ tx₃ : BhCapTxEntry} (h : Kept tx₁ tx₂) (h' : Kept tx₂ tx₃) :
    Kept tx₁ tx₃ :=
  ⟨h'.generation.trans h.generation, h'.offer.trans h.offer, h'.remote.trans h.remote⟩

end BhCapTxEntry

namespace TxTable

def Kept (txs txs' : TxTable) : Prop := ∀ core slot, (txs core slot).Kept (txs' core slot)

theorem Kept.refl (txs : TxTable) : Kept txs txs := fun _ _ => .refl _

theorem Kept.trans {txs₁ txs₂ txs₃ : TxTable} (h : Kept txs₁ txs₂) (h' : Kept txs₂ txs₃) :
    Kept txs₁ txs₃ := fun core slot => (h core slot).trans (h' core slot)

variable {core : Core} {slot : TxSlot} {txs : TxTable}

theorem kept_set {tx : BhCapTxEntry} (h : (txs core slot).Kept tx) :
    Kept txs (txs.set core slot tx) := by
  intro core' slot'
  by_cases same : core' = core ∧ slot' = slot
  · obtain ⟨rfl, rfl⟩ := same
    rw [set_self]
    exact h
  · rw [set_other tx same]
    exact .refl _

theorem kept_setState {state : BhCapTxState} : Kept txs (txs.setState core slot state) :=
  kept_set ⟨rfl, rfl, rfl⟩

end TxTable

namespace Kernel

open Registry EndpointPool

inductive Effect (k k' : Kernel) : Licence → Prop
  | created {licence : Licence} {out : Option TableRef}
      (made : Created k.registry k'.registry out) (txs : k'.txs = k.txs) : Effect k k' licence
  | destroyed (ref : TableRef) (registry : k'.registry = k.registry.destroy ref)
      (txs : k'.txs = k.txs) : Effect k k' (.tearDown ref)
  | rewrote {licence : Licence} (entries : Rewrites licence k.registry k'.registry)
      (txs : k.txs.Kept k'.txs) : Effect k k' licence
  | granted {licence : Licence} {core : Core} {ref : TableRef} {type : CapType}
      {objectRef : BitVec 64} {rights : CapRightsMask} {i : Slot}
      (installed : k.registry.install ref (grantedCap core type objectRef rights) =
        some (i, k'.registry)) (txs : k'.txs = k.txs) : Effect k k' licence
  | delegated {licence : Licence} {c : CapRef} {dst : TableRef} {rights : CapRightsMask} {j : Slot}
      {R : Registry} {link : BhCapLocator} (used : (k.registry.entry c).inUse = true)
      (may : mayDelegate (k.registry.entry c) rights = true)
      (installed : k.registry.install dst (k.registry.childOf c rights) = some (j, R))
      (registry : k'.registry = R.edit c (.firstChild link)) (txs : k'.txs = k.txs) :
      Effect k k' licence
  | claimed {core : Core} {op : BhCapTxOp} {slot : TxSlot} {txs : TxTable}
      (alloc : k.txs.capTxAlloc core op = some (slot, txs))
      (entries : Rewrites .plain k.registry k'.registry) (kept : txs.Kept k'.txs) :
      Effect k k' (.claim core)
  | offered {core : Core} {slot : TxSlot} {txs : TxTable} {c : CapRef} {dst : TableRef}
      {rights : CapRightsMask} (used : (k.registry.entry c).inUse = true)
      (may : mayDelegate (k.registry.entry c) rights = true)
      (alloc : k.txs.capTxAlloc core .delegate = some (slot, txs))
      (registry : k'.registry = k.registry)
      (set : k'.txs = txs.set core slot (k.snapshot (txs core slot) c dst rights)) :
      Effect k k' (.claim core)
  | received {req : TxRequest} {dst : TableRef} {dstId : BitVec 32} {read : BhCapTxEntry} {i : Slot}
      (home : k.registry.cspaceId dst = some dstId)
      (installed : k.registry.install dst (txNewCap read) = some (i, k'.registry))
      (txs : k'.txs = k.txs.set req.origin req.slot
        { k.txOf req with
          remoteCapId := slotId i
          remoteDstSlot := BitVec.ofNat 32 i
          remoteDstGen := (k'.registry.entry ⟨dst, i⟩).generation }) :
      Effect k k' (.install req dst dstId read)

variable {licence : Licence} {k k' : Kernel}

theorem effect_same (registry : k'.registry = k.registry) (txs : k.txs.Kept k'.txs) :
    Effect k k' licence :=
  .rewrote (registry ▸ .refl _) txs

variable {c : CapRef} {ed : EntryEdit}

theorem effect_count (registry : k'.registry = k.registry.edit c ed) (txs : k.txs.Kept k'.txs) :
    Effect k k' .count :=
  .rewrote (registry ▸ rewrites_edit _ _ _ (.inl rfl)) txs

/-- What a section of a call in progress writes: at most one entry, or one that it
frees together with the endpoint references it held. -/
inductive Writes (licence : Licence) (k k' : Kernel) : Prop
  | same (registry : k'.registry = k.registry) (endpoints : k'.endpoints = k.endpoints)
      (txs : k.txs.Kept k'.txs)
  | edit {c : CapRef} {ed : EntryEdit} (quiet : ed.quiet = true)
      (registry : k'.registry = k.registry.edit c ed) (endpoints : k'.endpoints = k.endpoints)
      (txs : k.txs.Kept k'.txs)
  | free {c : CapRef} (used : (k.registry.entry c).inUse = true) (may : licence.frees c)
      (freed : k' = k.freeEntry c)

/-- What the endpoints see of a step of the capability code. -/
def Shifts (k k' : Kernel) : Prop := k.endpoints.Shifts k'.endpoints

theorem Shifts.same (h : k'.endpoints = k.endpoints) : Shifts k k' := .of_eq h

theorem Shifts.ends {β : Type} {b : β} {out : Kernel × β} (h : Shifts k out.1) (eq : out = (k', b))
    : Shifts k k' := by
  rw [eq] at h
  exact h

theorem freeEntry_shifts : Shifts k (k.freeEntry c) := refRelease_shifts

variable {new : Message → Prop}

section

variable (h : Writes licence k k')

include h

theorem Writes.rewrites : Rewrites licence k.registry k'.registry ∧ k.txs.Kept k'.txs := by
  cases h with
  | same registry _ txs => exact ⟨registry ▸ .refl _, txs⟩
  | edit quiet registry _ txs => exact ⟨registry ▸ rewrites_edit _ _ _ (.inr quiet), txs⟩
  | free used may freed =>
    subst freed
    exact ⟨rewrites_release used may, .refl _⟩

theorem Writes.effect : Effect k k' licence := .rewrote h.rewrites.1 h.rewrites.2

theorem Writes.shifts : Shifts k k' := by
  cases h with
  | same _ endpoints | edit _ _ endpoints => exact .same endpoints
  | free _ _ freed => rw [freed]; exact freeEntry_shifts

/-- All that a step of the capability code does: to the tables and the offers, to the records and
the rings, where the words it adds satisfy `new`, and to the endpoints. -/
structure Acts (k k' : Kernel) (licence : Licence) (new : Message → Prop) : Prop where
  effect : Effect k k' licence
  traffic : Traffic k k' new
  shifts : Shifts k k'

theorem Writes.acts (traffic : Traffic k k' new) : Acts k k' licence new :=
  ⟨h.effect, traffic, h.shifts⟩

end

namespace Acts

theorem same : Acts k k licence new := ⟨effect_same rfl (.refl _), .same, .refl _⟩

theorem setTxState (core : Core) (slot : TxSlot) (state : BhCapTxState) :
    Acts k (k.setTxState core slot state) licence new :=
  ⟨effect_same rfl kept_setState, .setTxState .., .refl _⟩

end Acts

/-! ## Calls -/

variable {core target : Core} {ref dst src : TableRef} {rights : CapRightsMask} {capId : BitVec 32}
  {op : BhCapTxOp} {slot : TxSlot} {type : UrpcMsgType} {expired : Bool} {notice : RevokeNotice}
  {phase : RevokePhase}

theorem create_acts {kmalloc : Bool} : Acts k (k.capTableCreate core kmalloc).1 licence new :=
  ⟨.created (k.registry.create_created core kmalloc) rfl, .quiet rfl rfl, .refl _⟩

theorem destroy_acts :
    Acts k (k.capTableDestroy core ref).1 (if ref.core = core then .tearDown ref else .plain) new := by
  unfold capTableDestroy
  split
  · exact .same
  rename_i found
  split
  · exact .same
  rename_i owner
  rw [not_not, (named_of_table found).2.1] at owner
  rw [if_pos owner]
  refine ⟨.destroyed ref rfl rfl, .quiet rfl rfl, ?_⟩
  refine shifts_foldl id (fun pool i => ?_) _ k.endpoints
  unfold tearDownEntry
  simp only
  split
  · exact refRelease_shifts
  · exact .refl _

theorem grant_acts {type : CapType} {objectRef : BitVec 64} :
    Acts k (k.capTableGrant core ref type objectRef rights).1 licence new := by
  rcases k.grant_cases core ref type objectRef rights with ⟨code, failed⟩ |
    ⟨i, R, -, -, installed, done⟩
  · rw [failed]; exact .same
  · rw [done]; exact ⟨.granted installed rfl, .quiet rfl rfl, refAcquire_shifts⟩

theorem delegateLocal_acts {expected : Option BhCapLocator} :
    Acts k (k.capTableDelegateLocal src dst capId rights expected).1 licence new := by
  rcases k.delegateLocal_cases src dst capId rights expected with ⟨code, failed⟩ |
    ⟨c, j, R, found, -, may, subset, valid, nonempty, installed, done⟩
  · rw [failed]; exact .same
  rw [done]
  refine ⟨.delegated (findLive_some found).2 ?_ installed rfl rfl, .quiet rfl rfl,
    refAcquire_shifts⟩
  simp only [mayDelegate, subset, valid, Bool.and_eq_true, bne_iff_ne, beq_self_eq_true, and_true]
  exact ⟨may, nonempty⟩

theorem transferInstall_acts {locator : BhCapLocator} {destination : TableRef} :
    Acts k (k.bhCapTransferInstall core locator destination rights).1 licence new := by
  rcases k.transferInstall_cases core locator destination rights with ⟨code, failed⟩ |
    ⟨source, capId, -, done⟩
  · rw [failed]; exact .same
  · rw [done]; exact delegateLocal_acts

theorem delegate_acts :
    Acts k (k.capTableDelegate core src dst capId rights).1 (.claim core) new := by
  unfold capTableDelegate
  split
  · split
    · exact .same
    split
    · exact delegateLocal_acts
    split
    · exact .same
    split
    · exact .same
    rename_i c found
    split
    · exact .same
    rename_i may
    split
    · exact .same
    rename_i slot txs alloc
    refine ⟨.offered (findLive_some found).2 (by simpa using may) alloc rfl rfl, ?_, .refl _⟩
    obtain ⟨-, rfl⟩ := capTxAlloc_some alloc
    exact .writes (set_set ..) rfl (.reused (by simp [snapshot]; rfl) rfl)
  · exact .same

theorem revokeRoot_cases (k : Kernel) (core : Core) (ref : TableRef) (capId : BitVec 32)
    (tx : Option TxSlot) :
    (∃ c, (k.revokeRoot core ref capId tx).1 = k.edit c (.state .revoking)) ∨
      (k.revokeRoot core ref capId tx).1 = k ∨
      ∃ slot ∈ tx, (k.revokeRoot core ref capId tx).1 = k.releaseTx core slot := by
  unfold revokeRoot
  split
  · exact .inl ⟨_, rfl⟩
  split
  · exact .inr (.inl rfl)
  · exact .inr (.inr ⟨_, rfl, rfl⟩)

theorem revokeRoot_writes (k : Kernel) (core : Core) (ref : TableRef) (capId : BitVec 32)
    (tx : Option TxSlot) : Writes licence k (k.revokeRoot core ref capId tx).1 := by
  rcases k.revokeRoot_cases core ref capId tx with ⟨c, done⟩ | done | ⟨slot, -, done⟩
  · rw [done]; exact .edit rfl rfl rfl (.refl _)
  · rw [done]; exact .same rfl rfl (.refl _)
  · rw [done]; exact .same rfl rfl kept_setState

theorem revoke_acts : Acts k (k.capTableRevoke core ref capId).1 (.claim core) new := by
  unfold capTableRevoke
  split
  · exact .same
  split
  · split
    · exact .same
    rename_i slot txs alloc
    have writes : Writes .plain { k with txs := txs } _ :=
      revokeRoot_writes { k with txs := txs } core ref capId (some slot)
    refine ⟨.claimed alloc writes.rewrites.1 writes.rewrites.2, ?_, writes.shifts⟩
    obtain ⟨-, rfl⟩ := capTxAlloc_some alloc
    have fresh : RecordMove (k.txs core slot) ((k.txs core slot).prepared core .revoke) :=
      .reused rfl rfl
    rcases revokeRoot_cases _ core ref capId (some slot) with ⟨c, done⟩ | done | ⟨_, same, done⟩
    · rw [done]; exact .writes rfl rfl fresh
    · rw [done]; exact .writes rfl rfl fresh
    cases same
    rw [done]
    exact .writes (set_set ..) rfl (.reused (by simp; rfl) (by simp; rfl))
  · refine (revokeRoot_writes k core ref capId none).acts ?_
    rcases revokeRoot_cases k core ref capId none with ⟨c, done⟩ | done | ⟨_, e, -⟩
    · rw [done]; exact .quiet rfl rfl
    · rw [done]; exact .same
    · cases e

section

variable (k : Kernel) (core : Core) (ref : TableRef)

theorem revoke_shifts (capId : BitVec 32) : Shifts k (k.capTableRevoke core ref capId).1 :=
  (revoke_acts : Acts _ _ _ fun _ => True).shifts

end

theorem pin_acts {req : CapValidationRequest} :
    Acts k (k.capValidateAndPin ref req).1 .count new := by
  unfold capValidateAndPin
  split
  · exact .same
  · exact ⟨effect_count rfl (.refl _), .quiet rfl rfl, .refl _⟩

theorem unpin_acts {pinnedSlot : Nat} : Acts k (k.capUnpin ref pinnedSlot) .count new := by
  unfold capUnpin
  split
  · simp only
    split
    · exact ⟨effect_count rfl (.refl _), .quiet rfl rfl, .refl _⟩
    · exact .same
  · exact .same

/-! ## Sections -/

theorem sendReq_writes : Writes licence k (k.sendReq core target slot type op).1 :=
  .same (send_registry ..) (send_endpoints ..) ((send_txs ..).symm ▸ .refl _)

theorem delegate_step_acts {call : DelegateCall}
    (asks : ∀ req, call.requested k = some req → ∀ m : Message, m.Asks req → new m) :
    Acts k (DelegateCall.step expired k call).1 licence new := by
  obtain ⟨f, pc⟩ := call
  cases pc with
  | publish | sendFailed | timedOut | refused | release => exact .setTxState ..
  | send => exact (sendReq_writes).acts (.sendReq _ _ _ _ (.inl rfl) (asks _ rfl))
  | sendRollback => exact (sendReq_writes).acts (.sendReq _ _ _ _ (.inr rfl) (asks _ rfl))
  | await =>
    simp only [DelegateCall.step]
    split
    · exact .same
    · split <;> exact .same
  | result =>
    simp only [DelegateCall.step]
    split <;> exact .same
  | commit =>
    simp only [DelegateCall.step]
    split
    · exact .same
    have commit : Acts k (k.commitDelegation f).1 licence new := by
      unfold commitDelegation
      simp only
      split
      · exact ⟨.rewrote (rewrites_edit _ _ _ (.inr rfl)) kept_setState, .writes rfl rfl (.keeps rfl (.inl rfl)), .refl _⟩
      · exact .setTxState ..
    split <;> rename_i done <;> rwa [done] at commit

theorem visit_inUse {R : Registry} {l : BhCapLocator} (h : visit R l = .at c) :
    (R.entry c).inUse = true :=
  (resolve_eq_some.mp (visit_at.mp h)).2.1

/-- What a section of a revocation does to the entries, and what it sends. -/
structure Does (licence : Licence) (new : Message → Prop) (k k' : Kernel) : Prop where
  writes : Writes licence k k'
  traffic : Traffic k k' new

namespace Does

theorem same : Does licence new k k := ⟨.same rfl rfl (.refl _), .same⟩

theorem edit {ed : EntryEdit} (quiet : ed.quiet = true) : Does licence new k (k.edit c ed) :=
  ⟨.edit quiet rfl rfl (.refl _), .quiet rfl rfl⟩

theorem setTxState {state : BhCapTxState} : Does licence new k (k.setTxState core slot state) :=
  ⟨.same rfl rfl TxTable.kept_setState, .setTxState ..⟩

theorem unlinkRoot {f : RevokeFrame} {parent : BhCapLocator}
    (h : k.unlinkRoot f parent = .done k') : Does licence new k k' := by
  rcases unlinkRoot_done h with rfl | ⟨_, _, rfl⟩ | ⟨_, _, rfl⟩
  · exact .same
  · exact .edit rfl
  · exact .edit rfl

variable {f : RevokeFrame} {current : BhCapLocator}

/-- The walk that marks the descendants. -/
theorem mark :
    Does (RevokeCall.licence k ⟨f, .mark current⟩) new k
      (step expired k ⟨f, .mark current⟩).1 := by
  simp only [step]
  split
  · exact .same
  split
  · exact .same
  · split
    · exact .same
    exact ⟨.same rfl rfl ((TxTable.kept_setState).trans TxTable.kept_setState),
      .writes (TxTable.set_set ..) rfl (.keeps (by simp [Kernel.setTxState, TxTable.setState])
        (.inl (by simp [Kernel.setTxState, TxTable.setState])))⟩
  · exact .edit rfl

/-- The walk that frees them. -/
theorem free {dir : TraversalDir} :
    Does (RevokeCall.licence k ⟨f, .free current dir⟩) new k
      (step expired k ⟨f, .free current dir⟩).1 := by
  simp only [step]
  split
  · exact .same
  split
  · exact .same
  · exact .same
  rename_i c found
  split
  · exact .same
  split
  · exact .same
  rename_i unpinned
  exact ⟨.free (visit_inUse found) ⟨found, by simpa using unpinned⟩ rfl, .quiet rfl rfl⟩

theorem relock {onward : Onward} :
    Does (RevokeCall.licence k ⟨f, .relock current onward timedOut⟩) new k
      (step expired k ⟨f, .relock current onward timedOut⟩).1 := by
  simp only [step]
  split
  · exact .same
  · exact .same
  rename_i c found
  split
  · exact .edit rfl
  rename_i unpinned
  exact ⟨.free (visit_inUse found) ⟨found, by simpa using unpinned⟩ rfl, .quiet rfl rfl⟩

end Does

variable {call : RevokeCall}

theorem revoke_step_spec
    (asks : ∀ req, call.requested k = some req → ∀ m : Message, m.Asks req → new m) :
    Does (call.licence k) new k (step expired k call).1 := by
  obtain ⟨f, pc⟩ := call
  cases pc with
  | unlink parent =>
    simp only [step]
    split
    · exact .same
    split
    · exact .same
    · rename_i done; exact .unlinkRoot done
    split
    · exact .same
    · exact .setTxState
  | mark current => exact .mark
  | climb => exact .same
  | epoch | quarantine =>
    simp only [step]
    split
    · exact .same
    split
    · exact .edit rfl
    · exact .same
  | publish =>
    simp only [step]
    split
    · exact .same
    exact ⟨.same rfl rfl (TxTable.kept_set ⟨rfl, rfl, rfl⟩),
      .writes rfl rfl (.keeps rfl (.inr rfl))⟩
  | broadcast remaining =>
    cases remaining with
    | nil => exact .same
    | cons c rest =>
      cases tx : f.tx with
      | none => simp only [step, tx]; exact .same
      | some slot =>
        simp only [step, tx]
        exact ⟨sendReq_writes, .sendReq _ _ _ _ (.inr rfl) (asks _ (by simp [requested, tx]))⟩
  | await | drain current onward =>
    simp only [step]
    split
    · exact .same
    split
    · exact .same
    · split <;> exact .same
  | abort | releaseAborted | commit | releaseCommitted =>
    simp only [step]
    split
    · exact .same
    · exact .setTxState
  | free current dir => exact .free
  | relock current onward pinTimedOut => exact .relock
  | finish =>
    simp only [step]
    split <;> exact .same

theorem revoke_step_writes : Writes (call.licence k) k (step expired k call).1 :=
  (revoke_step_spec fun _ _ _ _ => trivial : Does _ (fun _ => True) _ _).writes

theorem scanEntry_aside :
    (scanEntry phase notice k c).inbox = k.inbox ∧ Shifts k (scanEntry phase notice k c) := by
  cases phase with
  | prepare =>
    simp only [scanEntry, prepareEntry]
    split <;> exact ⟨rfl, .refl _⟩
  | commit =>
    simp only [scanEntry, commitEntry]
    split
    · exact ⟨rfl, freeEntry_shifts⟩
    · exact ⟨rfl, .refl _⟩

theorem scan_acts {cs : List CapRef}
    (may : phase = .commit → ∀ c ∈ cs, commits notice (k.registry.entry c) = true →
      licence.frees c) : Acts k (cs.foldl (scanEntry phase notice) k) licence new := by
  obtain ⟨spaces, txs, entry⟩ := scan_spec phase notice cs k
  obtain ⟨inbox, shifts⟩ : (cs.foldl (scanEntry phase notice) k).inbox = k.inbox ∧
      Shifts k (cs.foldl (scanEntry phase notice) k) := by
    refine List.foldlRecOn (motive := fun k' => k'.inbox = k.inbox ∧ Shifts k k') cs _
      ⟨rfl, .refl _⟩ fun k' ⟨inbox, shifts⟩ c _ => ?_
    obtain ⟨inbox', shifts'⟩ := scanEntry_aside
    exact ⟨inbox'.trans inbox, shifts.trans shifts'⟩
  refine ⟨.rewrote ⟨spaces, fun d => ?_⟩ (txs ▸ .refl _), .quiet txs inbox, shifts⟩
  rw [entry d]
  split
  · rename_i pass
    cases phase with
    | prepare => exact .inr (.inl ⟨.state .revoking, .inr rfl, rfl⟩)
    | commit => exact .inr (.inr ⟨may rfl d pass.1 pass.2, scanTest_inUse pass.2, rfl⟩)
  · exact .inl rfl

theorem rollbackEntry_inUse {dst : TableRef} {slot generation : BitVec 32}
    (h : k.rollbackEntry dst slot generation = some c) : (k.registry.entry c).inUse = true := by
  unfold rollbackEntry at h
  split at h
  · simp only at h
    split at h
    · rename_i live
      cases h
      exact live.1
    · cases h
  · cases h

theorem useRead_acts {copy : BhCapTxEntry} {use : TxUse} {pc : HandlerPc} {core : Core}
    {reply : TxReply} (h : k.useRead reply.request copy use = some (k', pc)) :
    Acts k k' (HandlerCall.licence k ⟨core, reply, .read use copy []⟩) new := by
  cases use with
  | install dst dstId =>
    simp only [useRead] at h
    split at h
    · cases h
    rename_i home
    split at h
    · cases h; exact .same
    rename_i done
    cases h
    obtain ⟨⟨i, R⟩, installed, rfl⟩ := map_eq_some_iff.mp done
    exact ⟨.received (by simpa using home) installed rfl, .writes rfl rfl (.keeps rfl (.inl rfl)),
      .refl _⟩
  | acquire =>
    cases h
    exact ⟨effect_same rfl (.refl _), .quiet rfl rfl, refAcquire_shifts⟩
  | noted | bounds =>
    simp only [useRead] at h
    split at h <;> cases h <;> exact .same
  | resolve =>
    simp only [useRead] at h
    split at h <;> cases h <;> exact .same
  | entry => cases h; exact .same
  | undo dst dstId slot =>
    simp only [useRead] at h
    split at h
    · cases h
    split at h
    · cases h; exact .same
    rename_i c target
    split at h
    · cases h
    cases h
    have writes : Writes (.free fun c => k.rollbackEntry dst slot copy.remoteDstGen = some c) k
      (k.freeEntry c) := .free (rollbackEntry_inUse target) target rfl
    exact writes.acts (.quiet rfl rfl)

/-- The word of an acknowledgement is all that a handler sends. -/
theorem handler_step_acts (k : Kernel) (call : HandlerCall)
    (said : ∀ type status, call.pc = .ack type status →
      new ⟨call.core, urpcPackMsg type (call.reply.request.packedAck call.core status)⟩) :
    Acts k (HandlerCall.step k call).1 (call.licence k) new := by
  obtain ⟨core, reply, pc⟩ := call
  cases pc with
  | read use copy remaining =>
    cases remaining with
    | nil =>
      simp only [HandlerCall.step]
      split
      · exact .same
      · rename_i next
        exact useRead_acts next
    | cons => exact .same
  | scan phase notice remaining =>
    cases remaining with
    | nil => exact .same
    | cons cspace rest =>
      refine scan_acts fun commit c listed freed => ?_
      subst commit
      obtain ⟨i, -, rfl⟩ := List.mem_map.mp listed
      exact ⟨rfl, freed⟩
  | ack type status =>
    refine ⟨effect_same sendAck_registry ?_, .send (said type status rfl),
      .same (send_endpoints ..)⟩
    simp only [HandlerCall.step, sendAck_txs]
    exact .refl _

theorem ack_kept (k : Kernel) (core : Core) (payload : BitVec 64) :
    (k.capHandleTxAck core payload).registry = k.registry ∧
      k.txs.Kept (k.capHandleTxAck core payload).txs ∧
      (k.capHandleTxAck core payload).endpoints = k.endpoints := by
  have same : k.registry = k.registry ∧ k.txs.Kept k.txs ∧ k.endpoints = k.endpoints :=
    ⟨rfl, .refl _, rfl⟩
  unfold capHandleTxAck
  simp only
  split
  · split
    · exact same
    split
    · exact same
    split
    · exact same
    split
    · exact same
    · exact ⟨rfl, kept_set ⟨rfl, rfl, rfl⟩, rfl⟩
  · exact same

end Kernel

/-! ## The system -/

namespace System

open Kernel

def licence (s : System) : Action → Licence
  | .delegate _ core .. | .revoke _ core .. => .claim core
  | .destroy core table => if table.core = core then .tearDown table else .plain
  | .pin .. | .unpin .. => .count
  | .resume thread _ =>
    match s.calls thread with
    | some (.revoke call) => call.licence s.kernel
    | _ => .plain
  | .handle core =>
    match s.handlers core with
    | some call => call.licence s.kernel
    | none => .plain
  | _ => .plain

/-- The actions that go by the licence of a call or of a handler. -/
theorem licence_cases (s : System) (a : Action) : (∃ core, s.licence a = .claim core ∧
      ((∃ thread src dst capId rights, a = .delegate thread core src dst capId rights) ∨
        ∃ thread table capId, a = .revoke thread core table capId)) ∨
    (∃ core ref, a = .destroy core ref ∧ s.licence a = .tearDown ref) ∨
    (∃ core call dst dstId copy, s.handlers core = some call ∧
      call.pc = .read (.install dst dstId) copy [] ∧
      s.licence a = .install call.reply.request dst dstId copy) ∨
    (∃ which, s.licence a = .free which) ∨ s.licence a = .plain ∨
    s.licence a = .count ∧ ((∃ table req, a = .pin table req) ∨ ∃ table slot, a = .unpin table slot) := by
  cases a with
  | delegate thread core src dst capId rights =>
    exact .inl ⟨core, rfl, .inl ⟨thread, src, dst, capId, rights, rfl⟩⟩
  | revoke thread core table capId => exact .inl ⟨core, rfl, .inr ⟨thread, table, capId, rfl⟩⟩
  | destroy core table =>
    simp only [licence]
    split
    · exact .inr (.inl ⟨core, table, rfl, rfl⟩)
    · simp
  | pin | unpin => simp [licence]
  | resume thread expired =>
    simp only [licence]
    split
    · rename_i call _
      rcases call.licence_cases s.kernel with plain | ⟨which, free⟩
      · simp [plain]
      · simp [free]
    · simp
  | handle core =>
    simp only [licence]
    split
    · rename_i call found
      rcases call.licence_cases s.kernel with plain | ⟨which, free⟩ | ⟨dst, dstId, copy, pc, install⟩
      · simp [plain]
      · simp [free]
      · exact .inr (.inr (.inl ⟨core, call, dst, dstId, copy, found, pc, install⟩))
    · simp
  | _ => simp [licence]

theorem receive_kept {s : System} {core : Core} {message : Message} {rest : List Message} :
    Effect s.kernel (s.receive core message rest).kernel .plain ∧
      s.kernel.Shifts (s.receive core message rest).kernel := by
  unfold receive
  simp only
  split
  · exact ⟨effect_same rfl (.refl _), .refl _⟩
  split
  · obtain ⟨registry, txs, endpoints⟩ := ack_kept { s.kernel with
      inbox := Function.update s.kernel.inbox core rest } core (urpcUnpackMsg message.raw).payload
    exact ⟨effect_same registry txs, .same endpoints⟩
  · exact ⟨effect_same rfl (.refl _), .refl _⟩

variable {s s' : System} {a : Action}

/-- Words come from elsewhere in a post only, and a receive is the one action that deals with an
acknowledgement. -/
theorem step_acts (new : Message → Prop) (h : Steps s a s')
    (asks : ∀ req ∈ s.requested a, ∀ m : Message, m.Asks req → new m)
    (said : ∀ core call, a = .handle core → s.handlers core = some call →
      ∀ type status, call.pc = .ack type status →
        new ⟨call.core, urpcPackMsg type (call.reply.request.packedAck call.core status)⟩) :
    Acts s.kernel s'.kernel (s.licence a) new ∨
      ((∃ core message, a = .post core message) ∨ ∃ core, a = .receive core) ∧
        Effect s.kernel s'.kernel (s.licence a) ∧ s.kernel.Shifts s'.kernel := by
  obtain ⟨event, h⟩ := h
  have kernel : ∀ out, some out = some (s', event) → s'.kernel = out.1.kernel :=
    fun out e => by rw [some.inj e]
  cases a with
  | create core kmalloc => cases h; exact .inl create_acts
  | destroy core table => cases h; exact .inl destroy_acts
  | grant core table type objectRef rights => cases h; exact .inl grant_acts
  | delegate thread core src dst capId rights =>
    simp only [step] at h
    split at h
    · cases h
    rw [kernel _ h, afterDelegate, afterCall_kernel]
    exact .inl delegate_acts
  | transfer core locator destination rights => cases h; exact .inl transferInstall_acts
  | revoke thread core table capId =>
    simp only [step] at h
    split at h
    · cases h
    rw [kernel _ h, afterRevoke, afterCall_kernel]
    exact .inl revoke_acts
  | pin table req => cases h; exact .inl pin_acts
  | unpin table pinnedSlot => cases h; exact .inl unpin_acts
  | resume thread expired =>
    simp only [step] at h
    split at h
    · cases h
    · rename_i found
      rw [kernel _ h, afterDelegate, afterCall_kernel]
      simp only [requested, found] at asks
      exact .inl (delegate_step_acts asks)
    · rename_i found
      rw [kernel _ h, afterRevoke, afterCall_kernel]
      simp only [requested, found] at asks
      simp only [licence, found]
      obtain ⟨writes, traffic⟩ := revoke_step_spec asks
      exact .inl (writes.acts traffic)
  | post core message =>
    cases h
    exact .inr ⟨.inl ⟨core, message, rfl⟩, effect_same rfl (.refl _), .refl _⟩
  | receive core =>
    simp only [step] at h
    split at h
    · cases h
    split at h
    · cases h
    cases h
    exact .inr ⟨.inr ⟨core, rfl⟩, receive_kept⟩
  | handle core =>
    simp only [step] at h
    split at h
    · cases h
    rename_i call found
    have done := handler_step_acts s.kernel call (said core call rfl found)
    simp only [licence, found]
    split at h <;> rename_i ended <;> rw [ended] at done <;> cases h <;> exact .inl done

section

variable (h : Steps s a s')

include h

/-- The words that an action sends are requests, or answers to a request. -/
theorem step_traffic (acks : ∀ core call, s.handlers core = some call → call.Acks)
    (notPost : ∀ core message, a ≠ .post core message) (notReceive : ∀ core, a ≠ .receive core) :
    Traffic s.kernel s'.kernel fun m => (∃ req ∈ s.requested a, m.Asks req) ∨
      ∃ r req, s.answered a = some (r, req) ∧ m.Answers r req := by
  rcases step_acts (fun m => (∃ req ∈ s.requested a, m.Asks req) ∨
      ∃ r req, s.answered a = some (r, req) ∧ m.Answers r req) h
    (fun req asked m asks => .inl ⟨req, asked, asks⟩)
    (fun core call goes found type status now => .inr ⟨call.core, call.reply.request,
      by simp [goes, answered, found, HandlerCall.answered, now], type, status,
      acks core call found type status now, rfl⟩)
    with acts | ⟨⟨core, message, posts⟩ | ⟨core, receives⟩, -⟩
  · exact acts.traffic
  · exact absurd posts (notPost core message)
  · exact absurd receives (notReceive core)

/-- The effect of an action and what an endpoint sees of it, whatever it sends. -/
theorem step_cases : Effect s.kernel s'.kernel (s.licence a) ∧ s.kernel.Shifts s'.kernel := by
  rcases step_acts (fun _ => True) h (fun _ _ _ _ => trivial) fun _ _ _ _ _ _ _ => trivial with
    acts | ⟨-, done⟩
  · exact ⟨acts.effect, acts.shifts⟩
  · exact done

theorem step_effect : Effect s.kernel s'.kernel (s.licence a) := (step_cases h).1

/-- Whatever the capability code does, an endpoint only shifts. -/
theorem step_shifts : s.kernel.Shifts s'.kernel := (step_cases h).2

end

end System

end BharatOS
