import BharatOS.Cap.Generations

/-!
# Stale handles

A handle carries the low half of the generation its slot had. The slot only ever moves on, so a
handle whose slot was freed names nothing any more, if it was issued for the table it is returned
for.
-/

namespace BharatOS

open TxTable BitVec Option List

/-- The slot at a later time: its generation has not gone back, and while it is the
same, so is the capability in it. -/
structure CapabilityEntry.Later (e e' : CapabilityEntry) : Prop where
  generation : e.generation.toNat ≤ e'.generation.toNat
  same : e'.generation = e.generation → e'.inUse = e.inUse

open CapabilityEntry

theorem CapabilityEntry.Later.refl (e : CapabilityEntry) : Later e e := ⟨le_rfl, fun _ => rfl⟩

theorem CapabilityEntry.Later.trans {e₁ e₂ e₃ : CapabilityEntry} (h : Later e₁ e₂)
    (h' : Later e₂ e₃) : Later e₁ e₃ := by
  refine ⟨h.generation.trans h'.generation, fun same => ?_⟩
  have back := h'.generation
  rw [same] at back
  have middle : e₂.generation = e₁.generation := eq_of_toNat_eq (le_antisymm back h.generation)
  rw [h'.same (same.trans middle.symm), h.same middle]

theorem CapabilityEntry.Moves.later {e e' : CapabilityEntry} (h : Moves e e')
    (grows : e.generation.toNat ≤ e'.generation.toNat) : Later e e' := by
  refine ⟨grows, fun same => ?_⟩
  rcases h with ⟨-, used⟩ | ⟨next, -⟩
  · exact used
  rw [same] at next
  simp at next

namespace Registry

/-- Tables stay, and their slots move on. -/
structure Grows (R R' : Registry) : Prop where
  spaces : ∀ ref id, R.cspaceId ref = some id → R'.cspaceId ref = some id
  entries : ∀ c id, R.cspaceId c.table = some id → Later (R.entry c) (R'.entry c)

theorem Grows.refl (R : Registry) : Grows R R := ⟨fun _ _ h => h, fun _ _ _ => .refl _⟩

theorem Grows.trans {R₁ R₂ R₃ : Registry} (h : Grows R₁ R₂) (h' : Grows R₂ R₃) : Grows R₁ R₃ :=
  ⟨fun ref id home => h'.spaces ref id (h.spaces ref id home), fun c id home =>
    (h.entries c id home).trans (h'.entries c id (h.spaces _ id home))⟩

theorem grows_edit {R : Registry} {c : CapRef} {ed : EntryEdit} : Grows R (R.edit c ed) :=
  ⟨fun _ _ home => by rw [(edit_sameSpaces R c ed).cspaceId]; exact home, fun d _ _ =>
    ⟨le_of_eq (congrArg BitVec.toNat (edit_generation R c ed d).symm), fun _ => edit_inUse R c ed d⟩⟩

/-- Generation `g` of the slot has been handed out: the slot is past it, or still
holds what it was handed out for. -/
structure Issued (R : Registry) (c : CapRef) (g : BitVec 32) : Prop where
  home : ∃ id, R.cspaceId c.table = some id
  past : g.toNat ≤ (R.entry c).generation.toNat
  current : (R.entry c).generation = g → (R.entry c).inUse = true

variable {R R' : Registry} {c : CapRef} {g : BitVec 32} {ref : TableRef} {i : Slot}

theorem Issued.grows (h : R.Issued c g) (grows : Grows R R') : R'.Issued c g := by
  obtain ⟨id, home⟩ := h.home
  have later := grows.entries c id home
  refine ⟨⟨id, grows.spaces _ id home⟩, h.past.trans later.generation, fun same => ?_⟩
  have back := later.generation
  rw [same] at back
  have now : (R.entry c).generation = g := eq_of_toNat_eq (le_antisymm back h.past)
  rw [later.same (same.trans now.symm), h.current now]

theorem issued_of_inUse (used : (R.entry c).inUse = true) : R.Issued c (R.entry c).generation :=
  ⟨cspaceId_of_inUse used, le_rfl, fun _ => used⟩

/-- A handle that was issued for a table; 0 is what a delegation returns that noted
nothing. -/
def IssuedHandle (R : Registry) (ref : TableRef) (h : BitVec 32) : Prop :=
  h = 0 ∨ ∃ i g, h = capHandle (slotId i) g ∧ R.Issued ⟨ref, i⟩ g

theorem IssuedHandle.grows {h : BitVec 32} (issued : R.IssuedHandle ref h) (grows : Grows R R') :
    R'.IssuedHandle ref h := by
  rcases issued with zero | ⟨i, g, made, slot⟩
  · exact .inl zero
  · exact .inr ⟨i, g, made, slot.grows grows⟩

theorem issued_handle (used : (R.entry ⟨ref, i⟩).inUse = true) :
    R.IssuedHandle ref (R.handle ⟨ref, i⟩) :=
  .inr ⟨i, _, by rw [handle, id_of_inUse used], issued_of_inUse used⟩

/-- No entry of the table answers to the handle. -/
def Unmatched (R : Registry) (ref : TableRef) (h : BitVec 32) : Prop :=
  ∀ c, R.findIndex ref h = some c →
    bhCapGenerationMatches (R.entry c).generation (bhCapGeneration h) = false

/-- A slot that is past a generation does not answer to the handles of it. -/
theorem unmatched_of_past (past : g.toNat < (R.entry ⟨ref, i⟩).generation.toNat) :
    R.Unmatched ref (capHandle (slotId i) g) := by
  intro c found
  have small : (slotId i).toNat < 2 ^ 16 := by rw [slotId_toNat]; omega
  obtain ⟨index, low⟩ := capHandle_split (slotId i) g small
  obtain ⟨rfl, -, id⟩ := findIndex_some found
  have slot : i = c.slot := slotId_inj (index.symm.trans id)
  subst slot
  cases matched : bhCapGenerationMatches (R.entry c).generation
      (bhCapGeneration (capHandle (slotId c.slot) g)) with
  | false => rfl
  | true =>
    simp only [bhCapGenerationMatches, Bool.and_eq_true, beq_iff_eq] at matched
    rw [matched.2] at low
    have : (R.entry ⟨c.table, c.slot⟩).generation.toNat = g.toNat % 2 ^ 16 := low
    omega

end Registry

namespace Kernel

open Registry

/-- Every operation that takes a handle refuses this one. -/
structure Rejects (k : Kernel) (ref : TableRef) (h : BitVec 32) : Prop where
  lookup : ∀ type rights, ∃ code, k.registry.capTableLookup ref h type rights = .error code
  validate : ∀ req, req.capId = h → ∃ code, k.registry.capValidateEx ref req = .error code
  pin : ∀ req, req.capId = h → ∃ code, k.capValidateAndPin ref req = (k, .error code)
  capture : ∀ core rights, ∃ code,
    k.registry.bhCapTransferCapture core ref h rights = .error code
  revoke : ∀ core, ∃ k' code, k.capTableRevoke core ref h = (k', .inr code) ∧ code < 0

variable {R : Registry} {ref : TableRef} {h : BitVec 32} {k k' : Kernel} {licence : Licence}
    {tx : BhCapTxEntry}

theorem validate_unmatched {req : CapValidationRequest} (unmatched : R.Unmatched ref req.capId) :
    ∃ code, R.validate ref req = .error code := by
  unfold validate
  split
  · exact ⟨_, rfl⟩
  split
  · exact ⟨_, rfl⟩
  rename_i c found
  simp only [unmatched c found, if_true]
  exact ⟨_, rfl⟩

theorem findLive_unmatched (unmatched : R.Unmatched ref h) : R.findLive ref h = none := by
  unfold findLive
  split
  · rfl
  rename_i c found
  simp [unmatched c found]

theorem findRoot_unmatched (unmatched : R.Unmatched ref h) : findRoot R ref h = none := by
  unfold findRoot
  split
  · rfl
  rename_i c found
  simp [unmatched c found]

theorem revokeRoot_unmatched (unmatched : k.registry.Unmatched ref h) (core : Core)
    (tx : Option TxSlot) : ∃ k' code, k.revokeRoot core ref h tx = (k', .inr code) ∧ code < 0 := by
  unfold revokeRoot
  rw [findRoot_unmatched unmatched]
  cases tx with
  | none | some slot => exact ⟨_, -2, rfl, by decide⟩

theorem rejects_of_unmatched (unmatched : k.registry.Unmatched ref h) : k.Rejects ref h where
  lookup type rights := by
    unfold capTableLookup
    split
    · exact ⟨_, rfl⟩
    split
    · exact ⟨_, rfl⟩
    rename_i c found
    simp only [unmatched c found, Bool.not_false, if_true]
    exact ⟨_, rfl⟩
  validate := by
    rintro req rfl
    obtain ⟨code, refused⟩ := validate_unmatched unmatched
    exact ⟨code, by rw [capValidateEx, refused]; rfl⟩
  pin := by
    rintro req rfl
    obtain ⟨code, refused⟩ := validate_unmatched unmatched
    exact ⟨code, by rw [capValidateAndPin, refused]⟩
  capture core rights := by
    unfold bhCapTransferCapture
    split
    · exact ⟨_, rfl⟩
    split
    · exact ⟨_, rfl⟩
    rw [findLive_unmatched unmatched]
    exact ⟨_, rfl⟩
  revoke core := by
    unfold capTableRevoke
    split
    · exact ⟨k, -1, rfl, by decide⟩
    split
    · split
      · exact ⟨k, -6, rfl, by decide⟩
      rename_i slot txs _
      exact revokeRoot_unmatched (k := { k with txs := txs }) unmatched core (some slot)
    · exact revokeRoot_unmatched unmatched core none

/-- A handle that was issued is refused once its slot is free, and stays so. -/
theorem rejects_of_freed {i : Slot} (issued : k.registry.IssuedHandle ref h)
    (named : bhCapIndex h = slotId i) (freed : (k.registry.entry ⟨ref, i⟩).inUse = false)
    (grows : Grows k.registry k'.registry) : k'.Rejects ref h := by
  rcases issued with rfl | ⟨j, g, rfl, issued⟩
  · have := congrArg BitVec.toNat named
    rw [slotId_toNat] at this
    simp [bhCapIndex] at this
  have small : (slotId j).toNat < 2 ^ 16 := by rw [slotId_toNat]; omega
  obtain rfl : j = i := slotId_inj ((capHandle_split (slotId j) g small).1.symm.trans named)
  obtain ⟨id, home⟩ := issued.home
  have moved : (k.registry.entry ⟨ref, j⟩).generation ≠ g := fun same => by
    rw [issued.current same] at freed
    cases freed
  have past : g.toNat < (k.registry.entry ⟨ref, j⟩).generation.toNat :=
    lt_of_le_of_ne issued.past fun same => moved (BitVec.eq_of_toNat_eq same.symm)
  exact rejects_of_unmatched
    (unmatched_of_past (past.trans_le (grows.entries ⟨ref, j⟩ id home).generation))

/-- The destination has noted nothing in the record, or a generation that the table
of the record has handed out. -/
def Noted (R : Registry) (tx : BhCapTxEntry) : Prop :=
  tx.remoteCapId = 0 ∧ tx.remoteDstGen = 0 ∨
    ∃ ref i, R.cspaceId ref = some tx.dst.cspaceId ∧ tx.remoteCapId = slotId i ∧
      R.Issued ⟨ref, i⟩ tx.remoteDstGen

theorem Noted.kept {tx' : BhCapTxEntry} (h : Noted R tx) (kept : tx.Kept tx') : Noted R tx' := by
  have offer := kept.offer
  have remote := kept.remote
  simp only [BhCapTxEntry.offer, BhCapTxEntry.remote, Prod.mk.injEq] at offer remote
  unfold Noted
  rw [offer.2.1, remote.1, remote.2.2]
  exact h

section

variable (effect : Effect k k' licence)

include effect

/-! ## What the records say -/

theorem Effect.spaces (stays : ∀ ref, licence ≠ .tearDown ref)
    {id : BitVec 32} (home : k.registry.cspaceId ref = some id) :
    k'.registry.cspaceId ref = some id := by
  cases effect.turns ⟨ref, 0⟩ with
  | stays _ _ _ space =>
    rcases space with same | none
    · exact same.trans home
    · cases home.symm.trans none
  | fills _ _ _ _ space | frees _ _ _ space => exact space.trans home
  | leaves down => exact absurd down (stays _)

theorem Effect.grows (stays : ∀ ref, licence ≠ .tearDown ref)
    (noWrap : NoWrap k.registry k'.registry) : Grows k.registry k'.registry := by
  refine ⟨fun ref id home => effect.spaces stays home, fun c id home => ?_⟩
  have home' := effect.spaces stays home
  rcases effect.moves c with moves | ⟨gone, -⟩
  · exact moves.later (noWrap c ⟨id, home, home'⟩)
  rw [gone] at home'
  cases home'

omit effect in
theorem Noted.grows {R' : Registry} (h : Noted R tx) (grows : Grows R R') : Noted R' tx := by
  rcases h with nothing | ⟨ref, i, home, id, issued⟩
  · exact .inl nothing
  · exact .inr ⟨ref, i, grows.spaces _ _ home, id, issued.grows grows⟩

omit effect in
theorem noted_set {txs : TxTable} {core : Core} {slot : TxSlot}
    (notes : ∀ core slot, Noted R (txs core slot)) (new : Noted R tx) {core' : Core}
    {slot' : TxSlot} : Noted R (txs.set core slot tx core' slot') := by
  by_cases same : core' = core ∧ slot' = slot
  · obtain ⟨rfl, rfl⟩ := same
    rwa [set_self]
  · rw [set_other tx same]
    exact notes core' slot'

/-- Installing for a record that is still about the same table notes what that table
has handed out; nothing else is ever noted. -/
theorem Effect.notes (grows : Grows k.registry k'.registry)
    (about : ∀ req dst dstId read, licence = .install req dst dstId read →
      (k.txOf req).dst.cspaceId = dstId) (notes : ∀ core slot, Noted k.registry (k.txs core slot))
    (core : Core) (slot : TxSlot) : Noted k'.registry (k'.txs core slot) := by
  have notes' : ∀ core slot, Noted k'.registry (k.txs core slot) :=
    fun core slot => (notes core slot).grows grows
  cases effect with
  | created _ txs | destroyed _ _ txs | granted _ txs | delegated _ _ _ _ txs =>
    rw [txs]; exact notes' core slot
  | rewrote _ kept => exact (notes' core slot).kept (kept core slot)
  | @claimed core' op slot' txs alloc entries kept =>
    obtain ⟨-, rfl⟩ := TxTable.capTxAlloc_some alloc
    have cleared : Noted k'.registry ((k.txs core' slot').prepared core' op) := .inl ⟨rfl, rfl⟩
    exact (noted_set notes' cleared).kept (kept core slot)
  | @offered core' slot' txs c dst rights used may alloc registry set =>
    obtain ⟨-, rfl⟩ := TxTable.capTxAlloc_some alloc
    rw [set, TxTable.set_set]
    exact noted_set notes' (.inl ⟨rfl, rfl⟩)
  | @received req dst dstId read i home installed txs =>
    rw [txs]
    have used : (k'.registry.entry ⟨dst, i⟩).inUse = true := by
      rw [install_entry_self installed]; rfl
    refine noted_set notes' (.inr ⟨dst, i, ?_, rfl, issued_of_inUse used⟩)
    exact grows.spaces _ _ (home.trans (congrArg some (about req dst dstId read rfl).symm))

end

/-- A commit returns the handle that the record notes. -/
theorem commit_handle {f : DelegateFrame} (done : k.commitDelegation f = (k', .ok h)) :
    h = (k.txs f.core f.tx).remoteCapId ||| (k.txs f.core f.tx).remoteDstGen <<< 16 := by
  unfold commitDelegation at done
  simp only at done
  split at done
  · exact (Except.ok.inj (Prod.mk.inj done).2).symm
  · cases (Prod.mk.inj done).2

theorem Noted.handle (h : Noted R tx) (home : R.cspaceId ref = some tx.dst.cspaceId) :
    R.IssuedHandle ref (tx.remoteCapId ||| tx.remoteDstGen <<< 16) := by
  rcases h with ⟨id, gen⟩ | ⟨ref', i, home', id, issued⟩
  · exact .inl (by rw [id, gen]; rfl)
  obtain rfl : ref' = ref := cspaceId_inj home' home
  exact .inr ⟨i, _, by rw [id]; rfl, issued⟩

end Kernel

namespace System

open Registry Kernel

/-! ## Whole runs -/

/-- The core is in no delegation and no revocation. -/
def Idle (s : System) (core : Core) : Prop :=
  ∀ thread call, s.calls thread = some call → call.core ≠ core

/-- Tables stay; a core makes one call at a time, and claims no record that another core
is still reading. -/
def ClaimsIdleRecords (s : System) (a : Action) : Prop :=
  s.ClaimsUnread a ∧
    match a with
    | .destroy .. => False
    | .delegate _ core .. | .revoke _ core .. => s.Idle core
    | _ => True

def Orderly (s : System) (a : Action) : Prop := NoWrapStep s a ∧ s.ClaimsIdleRecords a

variable {s s' : System} {a : Action}

theorem ClaimsIdleRecords.stays (h : s.ClaimsIdleRecords a) (ref : TableRef) :
    s.licence a ≠ .tearDown ref := by
  intro licensed
  rcases s.licence_cases a with ⟨_, e, _⟩ | ⟨_, _, rfl, _⟩ | ⟨_, _, _, _, _, _, _, e⟩ | ⟨_, e⟩ | e |
    ⟨e, _⟩
  · cases e.symm.trans licensed
  · exact h.2
  all_goals cases e.symm.trans licensed

theorem ClaimsIdleRecords.idle {core : Core} (h : s.ClaimsIdleRecords a)
    (licensed : s.licence a = .claim core) : s.Idle core := by
  rcases licence_claim licensed with ⟨_, _, _, _, _, rfl⟩ | ⟨_, _, _, rfl⟩ <;> exact h.2

/-- Whoever installs into a table has a record about that table, and whoever is about
to return a handle has one that was issued for its table. -/
structure Ordered (s : System) : Prop where
  frames : ∀ thread call, s.calls thread = some (.delegate call) →
    s.kernel.registry.cspaceId call.frame.dst = some call.frame.dstId ∧
      (s.kernel.txs call.frame.core call.frame.tx).dst.cspaceId = call.frame.dstId
  installs : ∀ core call dst dstId copy remaining, s.handlers core = some call →
    call.pc = .read (.install dst dstId) copy remaining →
    (s.kernel.txOf call.reply.request).dst.cspaceId = dstId
  notes : ∀ core slot, Noted s.kernel.registry (s.kernel.txs core slot)
  returns : ∀ thread f h, s.calls thread = some (.delegate ⟨f, .release (.ok h)⟩) →
    s.kernel.registry.IssuedHandle f.dst h

variable {dst ref : TableRef} {h : BitVec 32}

/-- A delegation in progress started with this action, or had the same locals before. -/
theorem delegating_cases (step : Steps s a s') {thread : Nat} {call : DelegateCall}
    (now : s'.calls thread = some (.delegate call)) :
    (∃ call₀, s.calls thread = some (.delegate call₀) ∧ call.frame = call₀.frame) ∨
      ∃ core src dst capId rights,
        s.kernel.capTableDelegate core src dst capId rights = (s'.kernel, .inl call) := by
  cases (step_origin step).1 _ _ now with
  | before was => exact .inl ⟨call, was, rfl⟩
  | delegates _ first => exact .inr ⟨_, _, _, _, _, first⟩
  | delegating _ was next => exact .inl ⟨_, was, DelegateCall.step_frame next⟩

theorem Ordered.step (h : s.Ordered) (ok : s.Orderly a) (step : Steps s a s') : s'.Ordered := by
  have effect := step_effect step
  have grows := effect.grows ok.2.stays (ok.1 s' step)
  have about : ∀ req dst dstId read, s.licence a = .install req dst dstId read →
      (s.kernel.txOf req).dst.cspaceId = dstId := by
    intro req dst dstId read licensed
    obtain ⟨core, call, now, pc, rfl⟩ := licence_install licensed
    exact h.installs core call dst dstId read [] now pc
  refine ⟨?frames, ?installs, effect.notes grows about h.notes, ?returns⟩
  case frames =>
    intro thread call now
    rcases delegating_cases step now with ⟨call₀, was, frame⟩ | ⟨core, src, dst, capId, rights, first⟩
    · obtain ⟨home, record⟩ := h.frames thread call₀ was
      rw [frame]
      refine ⟨grows.spaces _ _ home, ?_⟩
      rcases effect.offer_kept call₀.frame.core call₀.frame.tx with offer | ⟨claim, -⟩
      · simp only [BhCapTxEntry.offer, Prod.mk.injEq] at offer
        rw [offer.2.1]
        exact record
      · exact absurd rfl (ok.2.idle claim thread _ was)
    · obtain ⟨srcId, dstId, c, slot, txs, home, kernel, rfl⟩ := delegate_started first
      refine ⟨grows.spaces _ _ home, ?_⟩
      rw [kernel]
      simp only [set_self]
      exact congrArg BhCapLocator.cspaceId (locatorMake_of_cspaceId (c := ⟨_, 0⟩) home 0 0)
  case installs =>
    intro core call dst dstId copy remaining now pc
    cases (step_origin step).2 _ _ now with
    | before was =>
      have offer := offer_unread step ok.2.1 was (by rw [pc]; rfl)
      simp only [BhCapTxEntry.offer, Prod.mk.injEq] at offer
      rw [offer.2.1]
      exact h.installs core call dst dstId copy remaining was pc
    | receives _ _ _ _ _ first => exact (HandlerCall.receive_install first pc).1
    | handling _ was next =>
      obtain ⟨kernel, reply, copy₀, remaining₀, pc₀, -⟩ := HandlerCall.step_next next pc
      rw [kernel, reply]
      exact h.installs core _ dst dstId copy₀ remaining₀ was pc₀
  case returns =>
    intro thread f capId now
    cases (step_origin step).1 _ _ now with
    | before was => exact (h.returns thread f capId was).grows grows
    | delegates _ first =>
      obtain ⟨_, _, _, _, _, -, -, e⟩ := delegate_started first
      cases e
    | delegating _ was next =>
      obtain ⟨rfl, done⟩ := DelegateCall.step_succeeds next
      obtain ⟨home, record⟩ := h.frames thread _ was
      rw [commit_handle done]
      exact ((h.notes _ _).handle (record ▸ home)).grows grows

theorem install_issued {R R' : Registry} {cap : NewCap} {i : Slot}
    (installed : R.install ref cap = some (i, R')) : R'.IssuedHandle ref (R'.handle ⟨ref, i⟩) :=
  issued_handle (by rw [install_entry_self installed]; rfl)

theorem delegateLocal_issued {k k' : Kernel} {src : TableRef} {capId : BitVec 32}
    {rights : CapRightsMask} {expected : Option BhCapLocator}
    (made : k.capTableDelegateLocal src dst capId rights expected = (k', .ok h)) :
    k'.registry.IssuedHandle dst h := by
  rcases k.delegateLocal_cases src dst capId rights expected with ⟨code, failed⟩ |
    ⟨c, j, R, -, -, -, -, -, -, installed, done⟩
  · rw [failed] at made
    cases made
  rw [done] at made
  cases made
  exact (install_issued installed).grows grows_edit

/-- Every handle that a call returns was issued for the table it is returned for. -/
theorem Ordered.made (ordered : s.Ordered) (made : s.step a = some (s', .made ref (.ok h))) :
    s'.kernel.registry.IssuedHandle ref h := by
  cases a with
  | create | destroy | pin | unpin | post => cases made
  | grant core table type objectRef rights =>
    simp only [System.step, some.injEq, Prod.mk.injEq, Event.made.injEq] at made
    obtain ⟨rfl, rfl, result⟩ := made
    rcases s.kernel.grant_cases core table type objectRef rights with ⟨code, failed⟩ |
      ⟨i, R, -, -, installed, done⟩
    · rw [failed] at result
      cases result
    rw [done] at result ⊢
    cases result
    exact install_issued installed
  | transfer core locator destination rights =>
    simp only [System.step, some.injEq, Prod.mk.injEq, Event.made.injEq] at made
    obtain ⟨rfl, rfl, result⟩ := made
    rcases s.kernel.transferInstall_cases core locator destination rights with ⟨code, failed⟩ |
      ⟨source, capId, -, done⟩
    · rw [failed] at result
      cases result
    · rw [done] at result ⊢
      exact delegateLocal_issued (Prod.ext rfl result)
  | delegate thread core src dst capId rights =>
    simp only [System.step, afterDelegate] at made
    split at made
    · cases made
    obtain ⟨result, done, e⟩ := afterCall_returned (some.inj made) (by simp)
    obtain ⟨rfl, rfl⟩ := Event.made.inj e
    rcases delegate_returned done with ⟨⟨code, failed⟩, -⟩ | here
    · cases failed
    · exact delegateLocal_issued here
  | revoke thread core table capId =>
    simp only [System.step, afterRevoke] at made
    split at made
    · cases made
    obtain ⟨result, -, e⟩ := afterCall_returned (some.inj made) (by simp)
    cases e
  | resume thread expired =>
    simp only [System.step, afterDelegate, afterRevoke] at made
    split at made
    · cases made
    · rename_i call was
      obtain ⟨result, done, e⟩ := afterCall_returned (some.inj made) (by simp)
      obtain ⟨rfl, rfl⟩ := Event.made.inj e
      obtain ⟨pc, registry⟩ := DelegateCall.step_returns done
      obtain ⟨f, _⟩ := call
      obtain rfl := pc
      rw [registry]
      exact ordered.returns thread f h was
    · obtain ⟨result, -, e⟩ := afterCall_returned (some.inj made) (by simp)
      cases e
  | receive core | handle core =>
    simp only [System.step] at made
    split at made
    · cases made
    · split at made <;> cases made

theorem orderly_grows (run : Run Steps Orderly s s') : Grows s.kernel.registry s'.kernel.registry :=
  run.invariant (fun t => Grows s.kernel.registry t.kernel.registry) (.refl _)
    fun _ _ _ grows ok step => grows.trans ((step_effect step).grows ok.2.stays (ok.1 _ step))

/-- Once the slot that a returned handle named has been freed, the handle is refused
for good. -/
theorem stale_handle_rejected {bound : Core → Bool} {pmmInitialized : Bool}
    {s s₀ s₁ s₂ : System} {a : Action} {ref : TableRef} {h : BitVec 32} {i : Slot}
    (before : Run Steps Orderly (boot bound pmmInitialized) s)
    (made : s.step a = some (s₀, .made ref (.ok h))) (run₁ : Run Steps Orderly s₀ s₁)
    (named : bhCapIndex h = slotId i) (freed : (s₁.kernel.registry.entry ⟨ref, i⟩).inUse = false)
    (run₂ : Run Steps Orderly s₁ s₂) : s₂.kernel.Rejects ref h := by
  have ordered : s.Ordered := before.invariant Ordered
    ⟨fun _ _ h => (by cases h), fun _ _ _ _ _ _ h => (by cases h), fun _ _ => .inl ⟨rfl, rfl⟩,
      fun _ _ _ h => (by cases h)⟩ fun _ _ _ => Ordered.step
  have issued := (ordered.made made).grows (orderly_grows run₁)
  exact rejects_of_freed issued named freed (orderly_grows run₂)

theorem exec_orderly {actions : List Action} (allowed : ∀ a ∈ actions, ∀ s, ClaimsIdleRecords s a)
    {n : Nat} (small : ∀ c, (s.kernel.registry.entry c).generation.toNat ≤ n)
    (room : n + actions.length < 2 ^ 32) (h : s.exec actions = some s') : Run Steps Orderly s s' ∧
      ∀ c, (s'.kernel.registry.entry c).generation.toNat ≤ n + actions.length :=
  exec_noWrap (fun a ha s wraps => ⟨wraps, allowed a ha s⟩) small room h

/-- A capability is granted and revoked, and another one is granted. -/
theorem stale_handle_rejected_after_revoke : ∃ s s₀ s₁ s₂ : System,
    Run Steps Orderly (boot (fun _ => false) false) s ∧
    s.step (.grant 0 ⟨0, 0⟩ .memory 0 capRightMemoryMap) = some (s₀, .made ⟨0, 0⟩ (.ok 0x10001)) ∧
    Run Steps Orderly s₀ s₁ ∧ bhCapIndex 0x10001 = slotId 0 ∧
    (s₁.kernel.registry.entry ⟨⟨0, 0⟩, 0⟩).inUse = false ∧ Run Steps Orderly s₁ s₂ ∧
    s₂.kernel.Rejects ⟨0, 0⟩ 0x10001 := by
  obtain ⟨s, first, s₀, made, ⟨begun, _⟩, third, s₁, fourth, freed, s₂, fifth⟩ :
      ∃ s, (boot (fun _ => false) false).exec [.create 0 true] = some s ∧
      ∃ s₀, s.step (.grant 0 ⟨0, 0⟩ .memory 0 capRightMemoryMap) =
        some (s₀, .made ⟨0, 0⟩ (.ok 0x10001)) ∧
      ∃ begun, s₀.step (.revoke 0 0 ⟨0, 0⟩ 0x10001) = some begun ∧
      ∃ s₁, begun.1.exec (replicate 5 (.resume 0 false)) = some s₁ ∧
        (s₁.kernel.registry.entry ⟨⟨0, 0⟩, 0⟩).inUse = false ∧
      ∃ s₂, s₁.exec [.grant 0 ⟨0, 0⟩ .memory 0 capRightMemoryMap] = some s₂ := by decide +kernel
  obtain ⟨run, small⟩ := exec_orderly (by simp [ClaimsIdleRecords, ClaimsUnread]) (boot_small _ _) (by decide) first
  have small₀ := ((step_effect ⟨_, made⟩).noWrap small (by decide)).2
  have wraps : NoWrapStep s₀ (.revoke 0 0 ⟨0, 0⟩ 0x10001) :=
    fun _ step => ((step_effect step).noWrap small₀ (by decide)).1
  have small₁ := ((step_effect ⟨_, third⟩).noWrap small₀ (by decide)).2
  -- no call has started yet, and no request has arrived
  have fresh : s₀.calls = (fun _ => none) ∧ s₀.handlers = fun _ => none := by
    cases first
    rw [← (Prod.mk.inj (some.inj made)).1]
    exact ⟨rfl, rfl⟩
  have quiet : s₀.ClaimsIdleRecords (.revoke 0 0 ⟨0, 0⟩ 0x10001) := by
    refine ⟨claimsUnread_of_idle fresh.2, fun _ _ h => ?_⟩
    rw [fresh.1] at h
    cases h
  obtain ⟨run₁, small₂⟩ := exec_orderly (by simp [ClaimsIdleRecords, ClaimsUnread]) small₁ (by decide) fourth
  obtain ⟨run₂, -⟩ := exec_orderly (by simp [ClaimsIdleRecords, ClaimsUnread]) small₂ (by decide) fifth
  have whole : Run Steps Orderly s₀ s₁ := Run.trans (.tail .refl ⟨wraps, quiet⟩ ⟨_, third⟩) run₁
  have named : bhCapIndex 0x10001 = slotId 0 := by decide
  exact ⟨s, s₀, s₁, s₂, run, made, whole, named, freed, run₂,
    stale_handle_rejected run made whole named freed run₂⟩

/-- Core 0 gives up a delegation to core 1, which has accepted it, and starts one to
core 2 with the same record. Both cores install for the second delegation, and
core 0 returns the slot of core 1 with the table of core 2. -/
def lateInstall : List Action :=
  [.create 0 true, .create 1 true, .create 2 true,
    .grant 0 ⟨0, 0⟩ .memory 0 (capRightMemoryMap ||| capRightDelegate),
    .grant 1 ⟨1, 0⟩ .memory 0 capRightMemoryMap, .revoke 0 1 ⟨1, 0⟩ 0x10001] ++
  replicate 5 (.resume 0 false) ++
  replicate 63 (.grant 1 ⟨1, 0⟩ .memory 0 capRightMemoryMap) ++
  [.grant 2 ⟨2, 0⟩ .memory 0 capRightMemoryMap,
    .delegate 0 0 ⟨0, 0⟩ ⟨1, 0⟩ 0x10001 capRightMemoryMap,
    .resume 0 false, .resume 0 false, .receive 1,
    .resume 0 true, .resume 0 true, .resume 0 true, .resume 0 true,
    .delegate 0 0 ⟨0, 0⟩ ⟨2, 0⟩ 0x10001 capRightMemoryMap,
    .resume 0 false, .resume 0 false, .receive 2] ++
  replicate 15 (.handle 2) ++ replicate 10 (.handle 1) ++
  [.receive 0, .resume 0 false, .resume 0 false, .resume 0 false]

/-- Core 2 frees the first slot of its table, and then fills it again. -/
def freesFirst : List Action :=
  .revoke 0 2 ⟨2, 0⟩ 0x10001 :: replicate 5 (.resume 0 false)

def fillsFirst : List Action :=
  replicate 63 (.grant 2 ⟨2, 0⟩ .memory 0 capRightMemoryMap)

/-- The handle names the first slot, but not the generation in it: when the slot has
been freed and filled again, the handle comes to life. -/
theorem stale_handle_revived : ∃ s s₀ s₁ s₂ : System,
    Run Steps NoWrapStep (boot (fun _ => true) false) s ∧
    s.step (.resume 0 false) = some (s₀, .made ⟨2, 0⟩ (.ok 0x30001)) ∧
    (s₀.kernel.registry.entry ⟨⟨2, 0⟩, 0⟩).inUse = true ∧
    Run Steps NoWrapStep s₀ s₁ ∧ bhCapIndex 0x30001 = slotId 0 ∧
    (s₁.kernel.registry.entry ⟨⟨2, 0⟩, 0⟩).inUse = false ∧ Run Steps NoWrapStep s₁ s₂ ∧
    ∃ e, s₂.kernel.registry.capTableLookup ⟨2, 0⟩ 0x30001 .memory capRightMemoryMap = .ok e := by
  obtain ⟨s, first, s₀, made, used, s₁, third, freed, s₂, fourth, found⟩ :
      ∃ s, (boot (fun _ => true) false).exec lateInstall = some s ∧
      ∃ s₀, s.step (.resume 0 false) = some (s₀, .made ⟨2, 0⟩ (.ok 0x30001)) ∧
        (s₀.kernel.registry.entry ⟨⟨2, 0⟩, 0⟩).inUse = true ∧
      ∃ s₁, s₀.exec freesFirst = some s₁ ∧ (s₁.kernel.registry.entry ⟨⟨2, 0⟩, 0⟩).inUse = false ∧
      ∃ s₂, s₁.exec fillsFirst = some s₂ ∧
        (s₂.kernel.registry.capTableLookup ⟨2, 0⟩ 0x30001 .memory capRightMemoryMap).isOk := by
    decide +kernel
  obtain ⟨run, small⟩ := exec_noWrap (fun _ _ _ h => h) (boot_small _ _) (by decide) first
  have small₀ := ((step_effect ⟨_, made⟩).noWrap small (by decide)).2
  obtain ⟨run₁, small₁⟩ := exec_noWrap (fun _ _ _ h => h) small₀ (by decide) third
  obtain ⟨run₂, -⟩ := exec_noWrap (fun _ _ _ h => h) small₁ (by decide) fourth
  refine ⟨s, s₀, s₁, s₂, run, made, used, run₁, by decide, freed, run₂, ?_⟩
  cases lookup : s₂.kernel.registry.capTableLookup ⟨2, 0⟩ 0x30001 .memory capRightMemoryMap with
  | error code => rw [lookup] at found; cases found
  | ok e => exact ⟨e, rfl⟩

end System

end BharatOS
