import BharatOS.Cap.Effects
import BharatOS.Ipc.EndpointOps
import BharatOS.Ipc.EndpointRefs
import BharatOS.Lib.Tally

/-!
# Endpoint reference counts

An endpoint counts the capabilities that can send to it and those that can receive from it.
-/

namespace BharatOS

open Function List

/-! ## Counts and capabilities -/

/-- The entry is a reference of the kind to this incarnation of the endpoint. -/
def CapabilityEntry.refersTo (e : CapabilityEntry) (kind : RefKind) (core : Core)
    (slot : EndpointSlot) (generation : BitVec 32) : Bool :=
  e.inUse && EndpointPool.refers e.type e.objectRef e.rights kind core slot generation

/-- Every endpoint in use counts the capabilities that refer to it. -/
def RefsExact (entries : CapRef → CapabilityEntry) (pool : EndpointPool) : Prop :=
  ∀ kind core slot, (pool core slot).inUse = true → ((pool core slot).capRefs kind).toNat =
    tally (·.refersTo kind core slot (pool core slot).generation) entries

/-- No endpoint in use is at its last generation. -/
def EndpointPool.Roomy (pool : EndpointPool) : Prop :=
  ∀ core slot, (pool core slot).inUse = true → (pool core slot).generation.toNat + 1 < 2 ^ 32

/-- The counts are exact, and no capability refers to an incarnation still to come. -/
structure Referenced (entries : CapRef → CapabilityEntry) (pool : EndpointPool) : Prop where
  exact : RefsExact entries pool
  fresh : ∀ c kind core slot g, (entries c).refersTo kind core slot g = true →
    g.toNat ≤ (pool core slot).generation.toNat

namespace Referenced

open IpcEndpoint EndpointPool CapabilityEntry

variable {entries : CapRef → CapabilityEntry} {pool : EndpointPool} {e : CapabilityEntry}

theorem refersTo_free (free : e.inUse = false) (kind : RefKind) (core : Core) (slot : EndpointSlot)
    (g : BitVec 32) : e.refersTo kind core slot g = false := by
  simp [refersTo, free]

variable {c : CapRef} {pool' : EndpointPool}

theorem nextGeneration_toNat {generation : BitVec 32} (room : generation.toNat + 1 < 2 ^ 32) :
    (nextGeneration generation).toNat = generation.toNat + 1 := by
  have next : (generation + 1).toNat = generation.toNat + 1 := by
    exact Nat.mod_eq_of_lt room
  unfold nextGeneration
  rw [if_neg, next]
  intro zero
  rw [zero] at next
  simp at next

/-- A pool whose endpoints are what they were, or have been reclaimed. -/
def Remain (pool pool' : EndpointPool) : Prop :=
  ∀ core slot, (pool core slot).Remains (pool' core slot)

theorem Remain.grows (h : Remain pool pool') (roomy : pool.Roomy) (core : Core)
    (slot : EndpointSlot) :
    (pool core slot).generation.toNat ≤ (pool' core slot).generation.toNat := by
  obtain ⟨generation, -, idle⟩ := h core slot
  rcases generation with same | ⟨gone, next⟩
  · rw [same]
  by_cases used : (pool core slot).inUse = true
  · rw [next, nextGeneration_toNat (roomy core slot used)]
    omega
  · rw [idle (by simpa using used)]

theorem Remain.roomy (h : Remain pool pool') (roomy : pool.Roomy) :
    pool'.Roomy := fun core slot used => by
  rw [(h core slot).same used]
  exact roomy core slot ((h core slot).used used)

section

variable (h : Referenced entries pool)

include h

theorem congr {entries' : CapRef → CapabilityEntry}
    (same : ∀ c kind core slot g, (entries' c).refersTo kind core slot g =
      (entries c).refersTo kind core slot g) : Referenced entries' pool := by
  refine ⟨fun kind core slot used => ?_, fun c kind core slot g refers => ?_⟩
  · rw [h.exact kind core slot used]
    exact (tally_congr fun c => same c kind core slot _).symm
  · rw [same] at refers
    exact h.fresh c kind core slot g refers

/-- A count never gets near the limit of its word. -/
theorem small (kind : RefKind) {core : Core} {slot : EndpointSlot}
    (used : (pool core slot).inUse = true) :
    ((pool core slot).capRefs kind).toNat + 1 < 2 ^ 32 := by
  have bound := tally_le_card (·.refersTo kind core slot (pool core slot).generation) entries
  rw [← h.exact kind core slot used, card_capRef] at bound
  omega

/-- A new capability takes its references while its endpoint is ready. -/
theorem fill (free : (entries c).inUse = false) (used : e.inUse = true)
    (ready : pool.Receptive e.type e.objectRef e.rights)
    (fresh : ∀ kind core slot g, e.refersTo kind core slot g = true →
      g.toNat ≤ (pool core slot).generation.toNat) : Referenced (update entries c e)
      (pool.capEndpointRefAcquire e.type e.objectRef e.rights) := by
  have spec := acquire_gains_refs ready
  refine ⟨fun kind core slot used' => ?_, fun d kind core slot g refers => ?_⟩
  · obtain ⟨sameUse, -, generation, refs⟩ := spec core slot
    rw [sameUse] at used'
    have room := h.small kind used'
    have count := h.exact kind core slot used'
    have change := tally_update (·.refersTo kind core slot (pool core slot).generation) entries c e
    rw [refersTo_free free, Bool.toNat_false, Nat.add_zero] at change
    have now : e.refersTo kind core slot (pool core slot).generation =
        refers e.type e.objectRef e.rights kind core slot (pool core slot).generation := by
      simp [refersTo, used]
    rw [refs, generation, change, ← count, now]
    simp only [used', true_and]
    split
    · rename_i yes
      rw [yes, BitVec.toNat_add]
      exact Nat.mod_eq_of_lt room
    · rename_i no
      simp [no]
  · rw [(spec core slot).generation]
    by_cases hd : d = c
    · subst hd
      rw [update_self] at refers
      exact fresh kind core slot g refers
    · rw [update_of_ne hd] at refers
      exact h.fresh d kind core slot g refers

/-- A capability that goes gives its references back. -/
theorem clear (roomy : pool.Roomy) (used : (entries c).inUse = true)
    (gone : e.inUse = false) : Referenced (update entries c e)
      (pool.capEndpointRefRelease (entries c).type (entries c).objectRef (entries c).rights) := by
  have remain : Remain pool
      (pool.capEndpointRefRelease (entries c).type (entries c).objectRef (entries c).rights) :=
    fun core slot => (EndpointPool.release_spec).1
  refine ⟨fun kind core slot used' => ?_, fun d kind core slot g refers => ?_⟩
  · obtain ⟨remains, refs⟩ := EndpointPool.release_spec
    have count := h.exact kind core slot (remains.used used')
    have change := tally_update (·.refersTo kind core slot (pool core slot).generation) entries c e
    rw [refersTo_free gone, Bool.toNat_false, Nat.add_zero] at change
    have was : (entries c).refersTo kind core slot (pool core slot).generation =
        refers (entries c).type (entries c).objectRef (entries c).rights kind core slot
          (pool core slot).generation := by
      simp [refersTo, used]
    rw [refs used' kind, remains.same used']
    rw [was] at change
    cases held : refers (entries c).type (entries c).objectRef (entries c).rights kind core slot
      (pool core slot).generation with
    | false =>
      rw [held, Bool.toNat_false, Nat.add_zero] at change
      rw [if_neg (by simp), count, change]
    | true =>
      rw [held, Bool.toNat_true] at change
      have some : 0 < (pool core slot).capRefs kind := by
        rw [BitVec.lt_def, count]
        exact lt_of_lt_of_eq (Nat.succ_pos _) change
      have one : (1 : BitVec 32) ≤ (pool core slot).capRefs kind := some
      have unit : (1 : BitVec 32).toNat = 1 := rfl
      rw [if_pos ⟨rfl, some⟩, BitVec.toNat_sub_of_le one, count, ← change, unit, Nat.add_sub_cancel]
  · refine le_trans ?_ (remain.grows roomy core slot)
    by_cases hd : d = c
    · subst hd
      rw [update_self, refersTo_free gone] at refers
      cases refers
    · rw [update_of_ne hd] at refers
      exact h.fresh d kind core slot g refers

end

end Referenced

/-! ## Operations -/

namespace Kernel

open Registry Referenced EndpointPool

/-- The counts of a kernel state are right, and can go on. -/
structure Accounted (k : Kernel) : Prop where
  refs : Referenced k.registry.entry k.endpoints
  roomy : k.endpoints.Roomy

variable {ed : EntryEdit}

variable {k k' : Kernel} {core : Core} {capId : BitVec 32} {rights : CapRightsMask}
  {slot : EndpointSlot} {c : CapRef} {table ref : TableRef}

section

variable (h : k.Accounted)

include h

theorem Accounted.edit (registry : k'.registry = k.registry.edit c ed)
    (endpoints : k'.endpoints = k.endpoints) : k'.Accounted := by
  refine ⟨?_, endpoints ▸ h.roomy⟩
  rw [registry, endpoints]
  refine h.refs.congr fun d kind core slot g => ?_
  rcases edit_entry_cases with e | e
  · rw [e]
  · simp [e, CapabilityEntry.refersTo]

theorem Accounted.free (used : (k.registry.entry c).inUse = true) : (k.freeEntry c).Accounted := by
  refine ⟨?_, Remain.roomy (fun core slot => (EndpointPool.release_spec).1) h.roomy⟩
  have entry : (k.freeEntry c).registry.entry =
      update k.registry.entry c (k.registry.entry c).freed :=
    release_entry (registered_of_inUse used)
  rw [entry]
  exact h.refs.clear h.roomy used rfl

theorem Accounted.writes {licence : Licence} (writes : Writes licence k k') : k'.Accounted := by
  cases writes with
  | same registry endpoints => exact ⟨registry ▸ endpoints ▸ h.refs, endpoints ▸ h.roomy⟩
  | edit quiet registry endpoints => exact h.edit registry endpoints
  | free used may freed => exact freed ▸ h.free used

/-- A revocation keeps the counts, section by section. -/
theorem Accounted.revokes {code : Int}
    (revoked : k.Revokes core table capId k' code) : k'.Accounted := by
  have start : (k.capTableRevoke core table capId).1.Accounted := by
    unfold capTableRevoke
    split
    · exact h
    split
    · split
      · exact h
      rename_i slot txs _
      have claimed : { k with txs := txs }.Accounted := ⟨h.refs, h.roomy⟩
      exact claimed.writes (revokeRoot_writes .. : Writes .plain _ _)
    · exact h.writes (revokeRoot_writes .. : Writes .plain _ _)
  have section' : ∀ (k : Kernel) (call : RevokeCall), k.Accounted →
      (RevokeCall.step true k call).1.Accounted := fun k call h =>
    h.writes revoke_step_writes
  unfold Revokes at revoked
  cases first : k.capTableRevoke core table capId with
  | mk k₁ out =>
    rw [first] at start revoked
    cases out with
    | inr result => exact revoked.1 ▸ start
    | inl call =>
      refine Sections.Returns.invariant (fun k _ => k.Accounted) (fun k _ => k.Accounted)
        (fun k call k' call' h step => ?_) (fun k call k' r h step => ?_) revoked start
      · have kept := section' k call h
        rwa [step] at kept
      · have kept := section' k call h
        rwa [step] at kept

/-- A capability is installed, and takes its references. -/
theorem Accounted.install {cap : NewCap} {i : Slot}
    (installed : k.registry.install ref cap = some (i, k'.registry)) (endpoints : k'.endpoints =
      k.endpoints.capEndpointRefAcquire cap.type cap.objectRef cap.rights)
    (ready : k.endpoints.Receptive cap.type cap.objectRef cap.rights)
    (fresh : ∀ kind core slot g, refers cap.type cap.objectRef cap.rights kind core slot g = true →
      g.toNat ≤ (k.endpoints core slot).generation.toNat) : k'.Accounted := by
  obtain ⟨-, free, -, entry⟩ := install_some installed
  have filled := h.refs.fill (e := cap.written (k.registry.entry ⟨ref, i⟩) i) free rfl ready fresh
  rw [← entry] at filled
  refine ⟨endpoints ▸ filled, fun core slot used => ?_⟩
  obtain ⟨sameUse, -, generation, -⟩ := acquire_gains_refs ready core slot
  rw [endpoints, sameUse] at used
  rw [endpoints, generation]
  exact h.roomy core slot used

end

/-- A capability may be passed on while its endpoint takes new references. -/
def MayRefer (k : Kernel) (c : CapRef) (rights : CapRightsMask) : Prop :=
  (k.registry.entry c).type = .endpoint → ∀ kind, rights &&& RefKind.right kind ≠ 0 →
    ∀ core slot, k.endpoints.endpointByRef (k.registry.entry c).objectRef = some (core, slot) →
      (k.endpoints core slot).state = .ready

section

variable (h : k.Accounted)

include h

variable {dst src : TableRef}

theorem Accounted.delegateLocal {expected : Option BhCapLocator}
    (may : ∀ c, k.registry.findLive src capId = some c →
      k.registry.expectedMatches c expected = true → k.MayRefer c rights) :
    (k.capTableDelegateLocal src dst capId rights expected).1.Accounted := by
  rcases k.delegateLocal_cases src dst capId rights expected with ⟨code, failed⟩ |
    ⟨c, j, R, found, expect, -, subset, -, -, installed, done⟩
  · rw [failed]; exact h
  rw [done]
  have used := (findLive_some found).2
  have made : Accounted { k with
      registry := R
      endpoints := k.endpoints.capEndpointRefAcquire (k.registry.entry c).type
        (k.registry.entry c).objectRef rights } := by
    refine h.install installed rfl (fun kind core slot named endpoint wanted =>
      may c found expect endpoint kind wanted core slot named) fun kind core slot g refers' => ?_
    -- what the child refers to, the source refers to as well
    obtain ⟨endpoint, names, wanted⟩ := refers_iff.mp refers'
    refine h.refs.fresh c kind core slot g ?_
    simp only [CapabilityEntry.refersTo, used, Bool.true_and]
    refine refers_iff.mpr ⟨endpoint, names, fun none => wanted ?_⟩
    change rights &&& kind.right = 0
    rw [← subset, BitVec.and_assoc, BitVec.and_comm rights, ← BitVec.and_assoc, none]
    exact BitVec.zero_and
  exact made.edit rfl rfl

theorem Accounted.delegate (here : dst.core = core)
    (may : ∀ c, k.registry.findLive src capId = some c → k.MayRefer c rights) :
    (k.capTableDelegate core src dst capId rights).1.Accounted := by
  unfold capTableDelegate
  split
  · split
    · exact h
    · exact h.delegateLocal fun c found _ => may c found
  · exact h

/-- A transfer passes on the capability that its locator points to. -/
theorem Accounted.transfer {locator : BhCapLocator} {destination : TableRef}
    (may : ∀ c, k.registry.locate locator = some c → k.MayRefer c rights) :
    (k.bhCapTransferInstall core locator destination rights).1.Accounted := by
  rcases k.transferInstall_cases core locator destination rights with ⟨code, failed⟩ |
    ⟨source, capId, place, done⟩
  · rw [failed]; exact h
  rw [done]
  refine h.delegateLocal fun c found expect => may c ?_
  simp only [expectedMatches, Bool.and_eq_true, beq_iff_eq] at expect
  obtain ⟨table, i⟩ := c
  obtain ⟨home, core', slot⟩ := locate_eq_some.mp place
  obtain rfl : table = source.table := (findLive_some found).1
  exact locate_eq_some.mpr ⟨home, core', expect.1.1.symm⟩

/-- Endpoints that keep their counts, or are given up. -/
theorem Accounted.remain (registry : k'.registry = k.registry)
    (remain : Remain k.endpoints k'.endpoints)
    (refs : ∀ kind core slot, (k'.endpoints core slot).inUse = true →
      (k'.endpoints core slot).capRefs kind = (k.endpoints core slot).capRefs kind) :
    k'.Accounted := by
  refine ⟨⟨fun kind core slot used => ?_, fun c kind core slot g refers => ?_⟩,
    remain.roomy h.roomy⟩
  · rw [refs kind core slot used, (remain core slot).same used, registry]
    exact h.refs.exact kind core slot ((remain core slot).used used)
  · rw [registry] at refers
    exact (h.refs.fresh c kind core slot g refers).trans (remain.grows h.roomy core slot)

theorem Accounted.setEndpoint {ep : IpcEndpoint} (remains : (k.endpoints core slot).Remains ep)
    (refs : ∀ kind, ep.inUse = true → ep.capRefs kind = (k.endpoints core slot).capRefs kind) :
    (k.setEndpoint core slot ep).Accounted := by
  have entry : ∀ core' slot', (k.setEndpoint core slot ep).endpoints core' slot' =
      if core' = core ∧ slot' = slot then ep else k.endpoints core' slot' :=
    fun _ _ => set_apply ep
  refine h.remain rfl (fun core' slot' => ?_) fun kind core' slot' used => ?_
  · rw [entry]
    split
    · rename_i here
      rw [here.1, here.2]
      exact remains
    · exact .refl _
  · rw [entry] at used ⊢
    split
    · rename_i here
      rw [if_pos here] at used
      rw [here.1, here.2]
      exact refs kind used
    · rfl

theorem Accounted.discardEndpoint (core : Core) (slot : EndpointSlot) :
    (k.discardEndpoint core slot).Accounted :=
  h.setEndpoint ⟨.inl rfl, fun used => (by cases used), fun _ => rfl⟩ fun _ used => by cases used

theorem Accounted.ownerClose (core : Core) (table : TableRef) (capId : BitVec 32) :
    (k.ipcEndpointOwnerClose core table capId).1.Accounted := by
  unfold ipcEndpointOwnerClose
  split
  · exact h
  split
  · exact h
  split
  · exact h
  rename_i owner slot _
  simp only
  split
  · exact h
  exact h.setEndpoint (IpcEndpoint.ownerClose_recounts _).toRemains fun kind _ =>
    IpcEndpoint.ownerClose_capRefs _ kind

/-- A new incarnation has no references, and nothing refers to it yet. -/
theorem Accounted.opened (idle : (k.endpoints core slot).inUse = false)
    (room : (k.endpoints core slot).generation.toNat + 2 < 2 ^ 32) :
    (k.setEndpoint core slot ((k.endpoints core slot).opened core)).Accounted := by
  have next : ((k.endpoints core slot).opened core).generation.toNat =
      (k.endpoints core slot).generation.toNat + 1 := nextGeneration_toNat (by omega)
  have entry : ∀ core' slot', (k.setEndpoint core slot
      ((k.endpoints core slot).opened core)).endpoints core' slot' =
      if core' = core ∧ slot' = slot then (k.endpoints core slot).opened core
      else k.endpoints core' slot' := fun _ _ => set_apply _
  refine ⟨⟨fun kind core' slot' used => ?_, fun c kind core' slot' g refers => ?_⟩,
    fun core' slot' used => ?_⟩
  · rw [entry] at used ⊢
    split at used
    · rename_i here
      obtain ⟨rfl, rfl⟩ := here
      rw [if_pos ⟨rfl, rfl⟩, show ((k.endpoints core' slot').opened core').capRefs kind = 0 from
        by cases kind <;> rfl]
      refine (tally_eq_zero.mpr fun c => ?_).symm
      by_contra refers
      have old := h.refs.fresh c kind core' slot' _ (eq_true_of_ne_false refers)
      omega
    · rename_i other
      rw [if_neg other]
      exact h.refs.exact kind core' slot' used
  · refine (h.refs.fresh c kind core' slot' g refers).trans ?_
    rw [entry]
    split
    · rename_i here
      obtain ⟨rfl, rfl⟩ := here
      omega
    · exact le_rfl
  · rw [entry] at used ⊢
    split at used
    · rename_i here
      rw [if_pos here]
      omega
    rename_i other
    rw [if_neg other]
    exact h.roomy core' slot' used

end

/-- The endpoint that a create call has opened, until it is done with it. -/
structure OpenAt (k : Kernel) (core : Core) (slot : EndpointSlot) (generation : BitVec 32) :
    Prop where
  ready : (k.endpoints core slot).state = .ready
  generation : (k.endpoints core slot).generation = generation

/-- Tear-down, slot by slot: a live entry gives its references back and is cleared. -/
theorem tearDown_accounted {t : CapabilityTable} {slots : List Slot} (nodup : slots.Nodup)
    {entries : CapRef → CapabilityEntry} {pool : EndpointPool} (h : Referenced entries pool)
    (roomy : pool.Roomy) (there : ∀ i ∈ slots, entries ⟨ref, i⟩ = t.entries i) :
    ∃ entries', Referenced entries' (slots.foldl (tearDownEntry t) pool) ∧
      (slots.foldl (tearDownEntry t) pool).Roomy ∧
      (∀ i ∈ slots, entries' ⟨ref, i⟩ = tornDown (t.entries i)) ∧
      ∀ c, c.table ≠ ref ∨ c.slot ∉ slots → entries' c = entries c := by
  induction slots generalizing entries pool with
  | nil => exact ⟨entries, h, roomy, fun _ h => (by cases h), fun _ _ => rfl⟩
  | cons i rest ih =>
    obtain ⟨new, nodup⟩ := nodup_cons.mp nodup
    have here := there i mem_cons_self
    have one : Referenced (update entries ⟨ref, i⟩ (tornDown (t.entries i)))
        (tearDownEntry t pool i) ∧ (tearDownEntry t pool i).Roomy := by
      unfold tearDownEntry tornDown
      simp only
      split
      · rename_i live
        have cleared := h.clear (e := { t.entries i with state := .free, inUse := false }) roomy
          (here.symm ▸ live.1) rfl
        rw [here] at cleared
        exact ⟨cleared, Remain.roomy (fun core slot => (EndpointPool.release_spec).1) roomy⟩
      · rw [← here, update_eq_self]
        exact ⟨h, roomy⟩
    obtain ⟨entries', refs, roomy', torn, kept⟩ := ih nodup one.1 one.2 fun j hj => by
      have other : j ≠ i := fun e => new (e ▸ hj)
      rw [update_of_ne (by simp [other])]
      exact there j (mem_cons_of_mem _ hj)
    refine ⟨entries', refs, roomy', fun j hj => ?_, fun c outside => ?_⟩
    · rcases mem_cons.mp hj with rfl | later
      · rw [kept ⟨ref, j⟩ (.inr new), update_self]
      · exact torn j later
    · have other : c ≠ ⟨ref, i⟩ := by
        rintro rfl
        rcases outside with table | slot
        · exact table rfl
        · exact slot mem_cons_self
      rw [kept c (outside.imp_right fun out later => out (mem_cons_of_mem _ later)),
        update_of_ne other]

section

variable (h : k.Accounted)

include h

/-- A grant of a capability for the endpoint that was just opened. -/
theorem Accounted.grantEndpoint {generation : BitVec 32}
    (opened : k.OpenAt core slot generation) (table : TableRef) (rights : CapRightsMask) :
    (k.capTableGrant core table .endpoint (endpointMakeRef core slot generation)
        rights).1.Accounted ∧
      (k.capTableGrant core table .endpoint (endpointMakeRef core slot generation) rights).1.OpenAt
        core slot generation := by
  rcases k.grant_cases core table .endpoint (endpointMakeRef core slot generation) rights with
    ⟨code, failed⟩ | ⟨i, R, -, -, installed, done⟩
  · rw [failed]; exact ⟨h, opened⟩
  have names := names_makeRef core slot generation
  have ready : k.endpoints.Receptive .endpoint (endpointMakeRef core slot generation) rights := by
    intro kind core' slot' found _ _
    obtain ⟨rfl, rfl, -⟩ := names.unique (endpointByRef_eq_some.mp found).2
    exact opened.ready
  rw [done]
  refine ⟨h.install installed rfl ready fun kind core' slot' g refers' => ?_, ?_⟩
  · obtain ⟨-, names', -⟩ := refers_iff.mp refers'
    obtain ⟨rfl, rfl, rfl⟩ := names.unique names'
    rw [opened.generation]
  · obtain ⟨-, state, same, -⟩ := acquire_gains_refs ready core slot
    exact ⟨state.trans opened.ready, same.trans opened.generation⟩

theorem Accounted.create (core : Core) (table : TableRef)
    (room : ∀ core slot, (k.endpoints core slot).generation.toNat + 2 < 2 ^ 32) :
    (k.ipcEndpointCreate core table).1.Accounted := by
  unfold ipcEndpointCreate
  split
  · exact h
  split
  · exact h
  split
  · exact h
  rename_i slot free
  have started := h.opened (by simpa using find?_some free) (room core slot)
  have open₀ : (k.setEndpoint core slot ((k.endpoints core slot).opened core)).OpenAt core slot
      ((k.endpoints core slot).opened core).generation := by
    have now := set_self k.endpoints core slot ((k.endpoints core slot).opened core)
    exact ⟨congrArg IpcEndpoint.state now, congrArg IpcEndpoint.generation now⟩
  obtain ⟨first, open₁⟩ := started.grantEndpoint open₀ table
    (capRightEndpointSend ||| capRightDelegate)
  simp only
  split <;> rename_i sent <;> rw [sent] at first open₁
  · exact first.discardEndpoint core slot
  · obtain ⟨second, -⟩ := first.grantEndpoint open₁ table
      (capRightEndpointReceive ||| capRightDelegate)
    split <;> rename_i received <;> rw [received] at second <;> exact second

theorem Accounted.creates {result : Except Int (BitVec 32 × BitVec 32)}
    (room : ∀ core slot, (k.endpoints core slot).generation.toNat + 2 < 2 ^ 32)
    (created : k.CreatesEndpoint core table k' result) : k'.Accounted := by
  have first := h.create core table room
  cases created with
  | done created => rwa [created] at first
  | undone created revoked =>
    rw [created] at first
    exact (first.revokes revoked).discardEndpoint core _

theorem Accounted.destroy
    (alive : ref.core = core → ∀ c : CapRef, c.table = ref → (k.registry.entry c).inUse = true →
      (k.registry.entry c).state ≠ .live → ∀ kind core' slot g,
        (k.registry.entry c).refersTo kind core' slot g = false) :
    (k.capTableDestroy core ref).1.Accounted := by
  unfold capTableDestroy
  cases found : k.registry.table ref with
  | none => exact h
  | some t =>
    simp only
    split
    · exact h
    rename_i owner
    rw [not_not, (named_of_table found).2.1] at owner
    obtain ⟨entries, refs, roomy, torn, kept⟩ := tearDown_accounted
      (nodup_finRange 64) h.refs h.roomy fun i _ => entry_of_table (c := ⟨ref, i⟩) found
    refine ⟨refs.congr fun c kind core' slot g => ?_, roomy⟩
    rw [destroy_entry]
    split
    · rename_i inside
      obtain ⟨table, i⟩ := c
      obtain rfl : table = ref := inside
      rw [torn i (mem_finRange i), refersTo_free (e := .zero) rfl]
      have entry := entry_of_table (c := ⟨table, i⟩) found
      unfold tornDown
      split
      · rw [refersTo_free rfl]
      rename_i dead
      rw [← entry] at dead ⊢
      by_cases used : (k.registry.entry ⟨table, i⟩).inUse = true
      · exact (alive owner _ rfl used (fun live => dead ⟨used, live⟩) kind core' slot g).symm
      · exact (refersTo_free (by simpa using used) ..).symm
    · rename_i outside
      rw [kept c (.inl outside)]

end

/-! ## Runs -/

/-- Endpoint capabilities that can send or receive are passed on only while their
endpoint is ready; a table is destroyed only when the capabilities that tear-down
passes over are not among them; and no endpoint is about to run out of generations. -/
def SparesRefs (k : Kernel) (op : EndpointOp) : Prop :=
  (∀ core slot, (k.endpoints core slot).generation.toNat + 2 < 2 ^ 32) ∧
  match op with
  | .delegate _ src _ capId rights => ∀ c, k.registry.findLive src capId = some c →
    k.MayRefer c rights
  | .transfer _ locator _ rights => ∀ c, k.registry.locate locator = some c →
    k.MayRefer c rights
  | .tableDestroy core ref => ref.core = core → ∀ c : CapRef, c.table = ref →
    (k.registry.entry c).inUse = true → (k.registry.entry c).state ≠ .live →
      ∀ kind core' slot g, (k.registry.entry c).refersTo kind core' slot g = false
  | _ => True

/-- One operation keeps the counts. -/
theorem operates_referenced {op : EndpointOp} (h : Referenced k.registry.entry k.endpoints)
    (ok : k.SparesRefs op) (done : k.Operates op k') :
    Referenced k'.registry.entry k'.endpoints := by
  obtain ⟨room, ok⟩ := ok
  have accounted : k.Accounted := ⟨h, fun core slot _ => by have := room core slot; omega⟩
  suffices k'.Accounted from this.refs
  cases op with
  | tableCreate core kmalloc =>
    cases done
    refine ⟨?_, accounted.roomy⟩
    have entry := (k.registry.create_created core kmalloc).entry
    exact (congrArg (Referenced · k.endpoints) entry).mpr h
  | tableDestroy core table =>
    cases done
    exact accounted.destroy ok
  | create core table =>
    obtain ⟨result, created⟩ := done
    exact accounted.creates room created
  | ownerClose core table capId =>
    cases done
    exact accounted.ownerClose core table capId
  | delegate core src dst capId rights =>
    obtain ⟨here, rfl⟩ := done
    exact accounted.delegate here ok
  | transfer core locator destination rights =>
    cases done
    exact accounted.transfer ok
  | revoke core table capId =>
    obtain ⟨code, revoked⟩ := done
    exact accounted.revokes revoked

/-- In every state that such operations lead to, the counts of the endpoints in use are
the numbers of the capabilities that refer to them. -/
theorem endpoint_refs_exact {bound : Core → Bool} {pmmInitialized : Bool} {k : Kernel}
    (run : Run Operates SparesRefs (boot bound pmmInitialized) k) :
    RefsExact k.registry.entry k.endpoints :=
  (run.invariant (fun k => Referenced k.registry.entry k.endpoints)
    ⟨fun _ _ _ used => (by cases used), fun _ _ _ _ _ refers => (by cases refers)⟩
    fun _ _ _ h ok done => operates_referenced h ok done).exact

/-- A table, and an endpoint with its two capabilities in it. -/
def oneEndpoint : Kernel :=
  (((boot (fun _ => true) false).capTableCreate 0 true).1.ipcEndpointCreate 0 ⟨0, 0⟩).1

theorem oneEndpoint_run {ok : Kernel → EndpointOp → Prop}
    (first : ok (boot (fun _ => true) false) (.tableCreate 0 true))
    (second : ok ((boot (fun _ => true) false).capTableCreate 0 true).1 (.create 0 ⟨0, 0⟩)) :
    Run Operates ok (boot (fun _ => true) false) oneEndpoint :=
  .tail (.tail .refl first rfl) second (createsEndpoint_of_done (by decide +kernel))

/-- The send capability is passed on while the endpoint is ready. -/
theorem endpoint_refs_exact_delegated : ∃ k, Run Operates SparesRefs (boot (fun _ => true) false) k ∧
    (k.endpoints 0 0).inUse = true ∧ (k.endpoints 0 0).sendCapRefs = 2 ∧
    RefsExact k.registry.entry k.endpoints := by
  have found : oneEndpoint.registry.findLive ⟨0, 0⟩ 0x10001 = some ⟨⟨0, 0⟩, 0⟩ := by decide +kernel
  have named : oneEndpoint.endpoints.endpointByRef
      (oneEndpoint.registry.entry ⟨⟨0, 0⟩, 0⟩).objectRef = some (0, 0) := by decide +kernel
  have ready : (oneEndpoint.endpoints 0 0).state = .ready := by decide +kernel
  have fresh : ∀ core slot,
      ((boot (fun _ => true) false).endpoints core slot).generation.toNat + 2 < 2 ^ 32 :=
    fun _ _ => (by decide : 0 + 2 < 2 ^ 32)
  have room : ∀ core slot, (oneEndpoint.endpoints core slot).generation.toNat + 2 < 2 ^ 32 := by
    decide +kernel
  have ok : oneEndpoint.SparesRefs (.delegate 0 ⟨0, 0⟩ ⟨0, 0⟩ 0x10001 capRightEndpointSend) := by
    refine ⟨room, fun c live _ _ _ core slot there => ?_⟩
    cases found.symm.trans live
    cases named.symm.trans there
    exact ready
  have run : Run Operates SparesRefs (boot (fun _ => true) false)
      (oneEndpoint.capTableDelegate 0 ⟨0, 0⟩ ⟨0, 0⟩ 0x10001 capRightEndpointSend).1 :=
    .tail (oneEndpoint_run ⟨fresh, trivial⟩ ⟨fresh, trivial⟩) ok ⟨rfl, rfl⟩
  exact ⟨_, run, by decide +kernel, by decide +kernel, endpoint_refs_exact run⟩

/-- The owner closes the endpoint, and only then is the send capability passed on. -/
def closedThenDelegated : Kernel :=
  ((oneEndpoint.ipcEndpointOwnerClose 0 ⟨0, 0⟩ 0x10002).1.capTableDelegate 0 ⟨0, 0⟩ ⟨0, 0⟩ 0x10001
    capRightEndpointSend).1

/-- The endpoint is still in use and counts one sender, but two capabilities can send. -/
theorem endpoint_refs_inexact :
    Run Operates (fun _ _ => True) (boot (fun _ => true) false) closedThenDelegated ∧
    (closedThenDelegated.endpoints 0 0).inUse = true ∧
    (closedThenDelegated.endpoints 0 0).sendCapRefs = 1 ∧
    2 ≤ tally (·.refersTo .send 0 0 (closedThenDelegated.endpoints 0 0).generation)
      closedThenDelegated.registry.entry := by
  refine ⟨.tail (.tail (oneEndpoint_run trivial trivial) (a := .ownerClose 0 ⟨0, 0⟩ 0x10002)
    trivial rfl) (a := .delegate 0 ⟨0, 0⟩ ⟨0, 0⟩ 0x10001 capRightEndpointSend) trivial ⟨rfl, rfl⟩,
    by decide +kernel, by decide +kernel, ?_⟩
  exact two_le_tally (i := ⟨⟨0, 0⟩, 0⟩) (j := ⟨⟨0, 0⟩, 2⟩) (by decide) (by decide +kernel)
    (by decide +kernel)

end Kernel

end BharatOS
