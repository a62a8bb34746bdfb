import BharatOS.Cap.LocalRun

/-!
# The handle of a new capability

A handle has room for the low half of a generation, and the checks compare it with the whole one.
A slot that has been filled and freed 32768 times gives handles that nothing accepts.
-/

namespace BharatOS

open Option BitVec

namespace Registry

/-- The slot that the allocator of a table hands out next. -/
def nextSlot (R : Registry) (ref : TableRef) : Option Slot :=
  (R.table ref).bind fun t => t.idAllocator.alloc.map (·.1)

variable {R R' : Registry} {ref : TableRef} {cap : NewCap} {i : Slot} {capId : BitVec 32}

section

variable (h : R.install ref cap = some (i, R'))

include h

/-- What an installation does to the table it goes to. -/
theorem install_table : ∃ t t' a, R.table ref = some t ∧
      R'.table ref = some t' ∧ t.idAllocator.alloc = some (i, a) ∧ t'.idAllocator = a := by
  unfold install at h
  split at h
  · cases h
  rename_i t found
  split at h
  · cases h
  rename_i j t' installed
  cases h
  obtain ⟨-, -, -, a, alloc, same⟩ := CapabilityTable.install_some installed
  exact ⟨t, t', a, found, by simp [table, put], alloc, same⟩

theorem install_nextSlot : R.nextSlot ref = some i := by
  obtain ⟨t, -, a, found, -, alloc, -⟩ := install_table h
  simp [nextSlot, found, alloc]

omit h in
theorem install_isSome {t : CapabilityTable} {a : BhIdAllocator 64} (found : R.table ref = some t)
    (alloc : t.idAllocator.alloc = some (i, a)) : ∃ R', R.install ref cap = some (i, R') := by
  cases h : R.install ref cap with
  | some made =>
    obtain ⟨j, R'⟩ := made
    have next := install_nextSlot h
    simp only [nextSlot, found, bind_some, alloc, map_some, some.injEq] at next
    exact ⟨R', by rw [next]⟩
  | none =>
    unfold install at h
    split at h
    · rename_i none; rw [none] at found; cases found
    rename_i u there
    split at h
    · rename_i failed
      obtain rfl : u = t := some.inj (there.symm.trans found)
      rw [CapabilityTable.install_none, alloc] at failed
      cases failed
    · cases h

theorem install_generation :
    (R'.entry ⟨ref, i⟩).generation.toNat = ((R.entry ⟨ref, i⟩).generation.toNat + 1) % 2 ^ 32 := by
  rw [install_entry_self h]
  exact toNat_add ..

end

theorem findIndex_of_inUse {c : CapRef} (used : (R.entry c).inUse = true)
    (id : bhCapIndex capId = slotId c.slot) : R.findIndex c.table capId = some c := by
  obtain ⟨t, found⟩ := isSome_iff_exists.mp (registered_of_inUse used)
  rw [entry_of_table found] at used
  simp [findIndex, found, CapabilityTable.findId_eq_some.mpr ⟨used, id⟩]

theorem lookup_ok {type : CapType} {rights : CapRightsMask} {e : CapabilityEntry}
    (h : R.capTableLookup ref capId type rights = .ok e) :
    ∃ c, R.findIndex ref capId = some c ∧
      bhCapGenerationMatches (R.entry c).generation (bhCapGeneration capId) = true := by
  unfold capTableLookup at h
  split at h
  · cases h
  split at h
  · cases h
  rename_i c found
  simp only at h
  split at h
  · cases h
  rename_i same
  exact ⟨c, found, by simpa using same⟩

/-- A handle fits a generation exactly when the low half is all of it, and not 0. -/
theorem handle_matches_iff (i : Slot) (g : BitVec 32) :
    bhCapGenerationMatches g (bhCapGeneration (capHandle (slotId i) g)) = true ↔
      0 < g.toNat ∧ g.toNat < 2 ^ 16 := by
  have small : (slotId i).toNat < 2 ^ 16 := by rw [slotId_toNat]; omega
  have low := (capHandle_split (slotId i) g small).2
  simp only [bhCapGenerationMatches, Bool.and_eq_true, bne_iff_ne, beq_iff_eq]
  constructor
  · rintro ⟨nonzero, same⟩
    rw [same] at low nonzero
    have positive : g.toNat ≠ 0 := fun h => nonzero (eq_of_toNat_eq h)
    omega
  · rintro ⟨positive, bound⟩
    have same : bhCapGeneration (capHandle (slotId i) g) = g := eq_of_toNat_eq (by rw [low]; omega)
    rw [same]
    refine ⟨fun zero => ?_, rfl⟩
    rw [zero] at positive
    exact absurd positive (by decide)

section

variable {R : Registry} {c : CapRef} {type : CapType} {rights : CapRightsMask}
  (used : (R.entry c).inUse = true)

include used

theorem handle_of_inUse : R.handle c = capHandle (slotId c.slot) (R.entry c).generation := by
  rw [handle, id_of_inUse used]

theorem findIndex_handle : R.findIndex c.table (R.handle c) = some c := by
  have small : (slotId c.slot).toNat < 2 ^ 16 := by rw [slotId_toNat]; omega
  refine findIndex_of_inUse used ?_
  rw [handle_of_inUse used]
  exact (capHandle_split (slotId c.slot) _ small).1

/-- A capability that answers to its own handle has a generation that the handle can
carry, -/
theorem range_of_lookup {e : CapabilityEntry}
    (h : R.capTableLookup c.table (R.handle c) type rights = .ok e) :
    0 < (R.entry c).generation.toNat ∧ (R.entry c).generation.toNat < 2 ^ 16 := by
  obtain ⟨d, found, same⟩ := lookup_ok h
  obtain rfl : c = d := some.inj ((findIndex_handle used).symm.trans found)
  rwa [handle_of_inUse used, handle_matches_iff] at same

/-- and a live one with such a generation does answer. -/
theorem lookup_of_range (live : (R.entry c).state = .live)
    (sameType : (R.entry c).type = type) (within : (R.entry c).rights &&& rights = rights)
    (range : 0 < (R.entry c).generation.toNat ∧ (R.entry c).generation.toNat < 2 ^ 16) :
    R.capTableLookup c.table (R.handle c) type rights = .ok (R.entry c) := by
  have same := (handle_matches_iff c.slot (R.entry c).generation).mpr range
  rw [← handle_of_inUse used] at same
  have nonzero : R.handle c ≠ 0 := fun zero => by
    have id := (findIndex_some (findIndex_handle used)).2.2
    rw [zero] at id
    have := congrArg BitVec.toNat id
    rw [slotId_toNat] at this
    simp [bhCapIndex] at this
  have there : R.table c.table ≠ none := fun none => by
    have some := registered_of_inUse used
    rw [none] at some
    cases some
  unfold capTableLookup
  rw [if_neg (by simpa [there] using nonzero), findIndex_handle used]
  simp [same, live, sameType, within]

end

end Registry

/-! ## Grants and local delegations -/

namespace Kernel

open Registry

/-- A grant, or a delegation on the same core, that returns a handle. The type and
the rights are those of the new capability. -/
inductive Makes (k : Kernel) : TableRef → CapType → CapRightsMask → Kernel → BitVec 32 → Prop
  | grant {core : Core} {ref : TableRef} {type : CapType} {objectRef : BitVec 64}
      {rights : CapRightsMask} {k' : Kernel} {h : BitVec 32}
      (done : k.capTableGrant core ref type objectRef rights = (k', .ok h)) :
      Makes k ref type rights k' h
  | delegate {core : Core} {src dst : TableRef} {capId : BitVec 32} {rights : CapRightsMask}
      {c : CapRef} {k' : Kernel} {h : BitVec 32} (here : dst.core = core)
      (source : k.registry.findLive src capId = some c)
      (done : k.capTableDelegate core src dst capId rights = (k', .inr (.ok h))) :
      Makes k dst (k.registry.entry c).type rights k' h

/-- What both have in common: a slot of the table was filled, and nothing that comes
after that changes the new entry. -/
theorem Makes.installed {k k' : Kernel} {ref : TableRef} {type : CapType} {rights : CapRightsMask}
    {h : BitVec 32} (made : k.Makes ref type rights k' h) :
    ∃ cap i R, k.registry.install ref cap = some (i, R) ∧ cap.type = type ∧ cap.rights = rights ∧
      h = R.handle ⟨ref, i⟩ ∧ k'.registry.entry ⟨ref, i⟩ = R.entry ⟨ref, i⟩ := by
  cases made with
  | @grant core _ _ objectRef _ _ _ done =>
    rcases k.grant_cases core ref type objectRef rights with ⟨code, failed⟩ |
      ⟨i, R, -, -, installed, made⟩
    · rw [failed] at done
      cases done
    rw [made] at done
    cases done
    exact ⟨_, i, R, installed, rfl, rfl, rfl, rfl⟩
  | @delegate core src _ capId _ c _ _ here source done =>
    rcases delegate_returned done with ⟨⟨code, failed⟩, -⟩ | here
    · cases failed
    rcases k.delegateLocal_cases src ref capId rights none with ⟨code, failed⟩ |
      ⟨d, j, R, found, -, -, -, -, -, installed, made⟩
    · rw [failed] at here
      cases here
    obtain rfl : c = d := some.inj (source.symm.trans found)
    rw [made] at here
    cases here
    refine ⟨_, j, R, installed, rfl, rfl, rfl, edit_entry_other fun e => ?_⟩
    have free := (install_some installed).2.1
    rw [e, (findLive_some found).2] at free
    cases free

/-- A lookup with the handle, the type and the rights yields the entry that the call
has made. -/
def Usable (k k' : Kernel) (ref : TableRef) (type : CapType) (rights : CapRightsMask)
    (h : BitVec 32) : Prop :=
  ∃ c, c.table = ref ∧ (k.registry.entry c).inUse = false ∧ (k'.registry.entry c).inUse = true ∧
    k'.registry.capTableLookup ref h type rights = .ok (k'.registry.entry c)

/-- The handle of a new capability can be used exactly when the slot that the
allocator hands out has a generation below 65535. -/
theorem new_handle_usable_iff {k k' : Kernel} {ref : TableRef} {type : CapType}
    {rights : CapRightsMask} {h : BitVec 32} (made : k.Makes ref type rights k' h) :
    k.Usable k' ref type rights h ↔ ∀ i, k.registry.nextSlot ref = some i →
        (k.registry.entry ⟨ref, i⟩).generation.toNat < 65535 := by
  obtain ⟨cap, i, R, installed, rfl, rfl, rfl, same⟩ := made.installed
  have free := (install_some installed).2.1
  have written := install_entry_self installed
  have new : k'.registry.entry ⟨ref, i⟩ =
      cap.written (k.registry.entry ⟨ref, i⟩) i := same.trans written
  have handles : k'.registry.handle ⟨ref, i⟩ = R.handle ⟨ref, i⟩ := by rw [handle, handle, same]
  have used : (k'.registry.entry ⟨ref, i⟩).inUse = true := by rw [new]; rfl
  have next := install_generation installed
  rw [← same] at next
  rw [Usable, install_nextSlot installed, ← handles]
  simp only [some.injEq, forall_eq']
  constructor
  · rintro ⟨c, -, -, -, found⟩
    have range := range_of_lookup (c := ⟨ref, i⟩) used found
    omega
  · intro small
    refine ⟨⟨ref, i⟩, rfl, free, used, lookup_of_range (c := ⟨ref, i⟩) used ?_ ?_ ?_ ?_⟩
    · rw [new]; rfl
    · rw [new]; rfl
    · rw [new]; exact and_self
    · rw [next]; omega

/-- The first grant into a new table. -/
theorem new_handle_usable_first : ∃ k k' : Kernel,
    Run (LocalStep 0) (fun _ _ => True) (boot (fun _ => false) true) k ∧
    k.Makes ⟨0, 0⟩ .memory capRightMemoryMap k' 0x10001 ∧
    (k.Usable k' ⟨0, 0⟩ .memory capRightMemoryMap 0x10001 ↔
      ∀ i, k.registry.nextSlot ⟨0, 0⟩ = some i →
        (k.registry.entry ⟨⟨0, 0⟩, i⟩).generation.toNat < 65535) := by
  have run : Run (LocalStep 0) (fun _ _ => True) (boot (fun _ => false) true)
      ((boot (fun _ => false) true).capTableCreate 0 true).1 := .tail .refl trivial (.create _ _)
  have made : ((boot (fun _ => false) true).capTableCreate 0 true).1.Makes ⟨0, 0⟩ .memory
      capRightMemoryMap (((boot (fun _ => false) true).capTableCreate 0 true).1.capTableGrant 0 ⟨0, 0⟩
        .memory 0 capRightMemoryMap).1 0x10001 := .grant (Prod.ext rfl (by decide +kernel))
  exact ⟨_, _, run, made, new_handle_usable_iff made⟩

/-! ## A slot that is used over and over -/

end Kernel

namespace Registry

/-- Where the allocator of a table starts its next search. -/
def hint (R : Registry) (ref : TableRef) : Option Nat :=
  (R.table ref).map (·.idAllocator.nextHint)

variable {R : Registry} {ref : TableRef}

theorem put_hint {t t' : CapabilityTable} (old : R.table ref = some t) (same : t'.ident = t.ident)
    (hint : t'.idAllocator.nextHint = t.idAllocator.nextHint) :
    (R.put ref t t' old same).hint = R.hint := by
  funext r
  unfold Registry.hint
  by_cases h : r = ref
  · subst h
    simp [table, put, show (R.slots r).table = some t from old, hint]
  · simp [table, put, h]

variable {c : CapRef}

@[simp] theorem edit_hint {ed : EntryEdit} : (R.edit c ed).hint = R.hint := by
  unfold edit
  split
  · rfl
  · exact put_hint _ _ rfl

@[simp] theorem release_hint : (R.release c).hint = R.hint := by
  unfold release
  split
  · rfl
  · exact put_hint _ _ BhIdAllocator.free_nextHint

/-- A free slot at the hint is the one that is filled, and the hint moves past it. -/
theorem install_at_hint {i : Slot} (cap : NewCap) (hint : R.hint ref = some i.val)
    (free : (R.entry ⟨ref, i⟩).inUse = false) :
    ∃ R', R.install ref cap = some (i, R') ∧ R'.hint ref = some ((i.val + 1) % 64) := by
  obtain ⟨t, found, start⟩ := map_eq_some_iff.mp hint
  rw [entry_of_table found, ← t.allocated] at free
  have alloc : t.idAllocator.alloc = some (i, t.idAllocator.take i free) :=
    BhIdAllocator.alloc_of_hint (by rw [start]; exact Nat.mod_eq_of_lt i.isLt) free
  obtain ⟨R', installed⟩ := install_isSome found alloc
  obtain ⟨t₀, t', a, found₀, now, alloc₀, same⟩ := install_table installed
  obtain rfl : t₀ = t := some.inj (found₀.symm.trans found)
  obtain ⟨-, rfl⟩ := Prod.mk.inj (some.inj (alloc₀.symm.trans alloc))
  exact ⟨R', installed, by simp [Registry.hint, now, same, BhIdAllocator.take]⟩

end Registry

namespace Kernel

open Registry Sections RevokeCall

/-- A capability that nobody is linked to and nobody has pinned. -/
structure Lone (R : Registry) (c : CapRef) : Prop where
  parent : (R.entry c).parent = capLocatorNull
  firstChild : (R.entry c).firstChild = capLocatorNull
  nextSibling : (R.entry c).nextSibling = capLocatorNull
  activePins : (R.entry c).activePins = 0

variable {R : Registry} {c : CapRef} {k : Kernel}

theorem Lone.marked (h : Lone R c) (state : CapState) : Lone (R.edit c (.state state)) c := by
  rcases edit_entry_cases with e | e <;>
    exact ⟨by rw [e]; exact h.parent, by rw [e]; exact h.firstChild, by rw [e]; exact h.nextSibling,
      by rw [e]; exact h.activePins⟩

theorem Lone.bumped (h : Lone R c) : Lone (R.edit c .bumpEpoch) c := by
  rcases edit_entry_cases with e | e <;>
    exact ⟨by rw [e]; exact h.parent, by rw [e]; exact h.firstChild, by rw [e]; exact h.nextSibling,
      by rw [e]; exact h.activePins⟩

/-- The sections of a revocation of such a capability, when there is nobody to ask. -/
theorem lone_returns {f : RevokeFrame} (root : AtRoot k f) (lone : Lone k.registry f.root)
    (tx : f.tx = none) : Returns (step true) k ⟨f, .mark (f.rootLocator 0)⟩
      (((k.edit f.root (.state .revoking)).edit f.root .bumpEpoch).freeEntry f.root) 0 := by
  have root₁ : AtRoot (k.edit f.root (.state .revoking)) f :=
    MarkedOnly.atRoot (markedOnly_edit k f.root) root
  have root₂ : AtRoot ((k.edit f.root (.state .revoking)).edit f.root .bumpEpoch) f :=
    atRoot_bumpEpoch root₁ k.txs
  have lone₂ : Lone ((k.edit f.root (.state .revoking)).edit f.root .bumpEpoch).registry f.root :=
    (lone.marked .revoking).bumped
  have mark : step true k ⟨f, .mark (f.rootLocator 0)⟩ =
      (k.edit f.root (.state .revoking), .inl ⟨f, .climb capLocatorNull⟩) := by
    rw [step_mark true (root.resolve 0), afterMark, lone.firstChild, lone.nextSibling, lone.parent]
    rfl
  have climb : step true (k.edit f.root (.state .revoking)) ⟨f, .climb capLocatorNull⟩ =
      (k.edit f.root (.state .revoking), .inl ⟨f, .epoch⟩) := rfl
  have bump := step_epoch true root₁
  rw [tx] at bump
  have free : step true ((k.edit f.root (.state .revoking)).edit f.root .bumpEpoch)
      ⟨f, .free (f.rootLocator 0) .down⟩ =
      (((k.edit f.root (.state .revoking)).edit f.root .bumpEpoch).freeEntry f.root,
        .inl ⟨f, .finish⟩) := by
    rw [step_free true (root₂.resolve 0) lone₂.activePins fun _ => by rw [lone₂.firstChild]; rfl,
      afterFree, if_pos (root₂.isRoot (root₂.resolve 0))]
  have done (k' : Kernel) : step true k' ⟨f, .finish⟩ = (k', .inr 0) := by simp only [step, tx]
  exact (Reaches.single mark).returns ((Reaches.single climb).returns ((Reaches.single bump).returns
    ((Reaches.single free).returns (.last (done _)))))

/-- What is left of it. -/
def freedAlone (R : Registry) (c : CapRef) : Registry :=
  (((R.edit c (.state .revoking)).edit c (.state .revoking)).edit c .bumpEpoch).release c

theorem revokes_lone {capId : BitVec 32} (early : k.pmmInitialized = false)
    (found : findRoot k.registry c.table capId = some c) (lone : Lone k.registry c) (core : Core) :
    ∃ k', k.Revokes core c.table capId k' 0 ∧ k'.registry = freedAlone k.registry c ∧
      k'.pmmInitialized = false := by
  have nonzero : capId ≠ 0 := fun zero => by rw [zero, findRoot_zero] at found; cases found
  have there : (k.registry.table c.table).isNone = false := by
    simpa [isNone_iff_eq_none, isSome_iff_ne_none] using registered_of_inUse (findRoot_some found).2
  obtain ⟨f, rfl, tx, root, start⟩ := revokeRoot_found found core none
  have lone₁ := lone.marked .revoking
  have begin : (k.edit f.root (.state .revoking)).afterRoot f = .mark (f.rootLocator 0) := by
    unfold afterRoot
    rw [edit_registry, lone₁.parent]
    simp [capLocatorResolveTable, position]
  refine ⟨(((k.edit f.root (.state .revoking)).edit f.root (.state .revoking)).edit f.root
    .bumpEpoch).freeEntry f.root, ?_, rfl, early⟩
  unfold Revokes capTableRevoke
  rw [if_neg (by simpa [there] using nonzero), early, if_neg (by decide), start, begin]
  exact lone_returns root lone₁ tx

theorem freedAlone_other {d : CapRef} (h : d ≠ c) : (freedAlone R c).entry d = R.entry d := by
  rw [freedAlone, release_entry_other h, edit_entry_other h, edit_entry_other h, edit_entry_other h]

theorem freedAlone_self (used : (R.entry c).inUse = true) :
    ((freedAlone R c).entry c).inUse = false ∧
      ((freedAlone R c).entry c).generation = (R.entry c).generation + 1 := by
  have there : ((((R.edit c (.state .revoking)).edit c (.state .revoking)).edit c .bumpEpoch).entry
      c).inUse = true := by rw [edit_inUse, edit_inUse, edit_inUse, used]
  rw [freedAlone, release_entry (registered_of_inUse there), Function.update_self]
  refine ⟨rfl, ?_⟩
  show _ + 1 = _
  rw [edit_generation, edit_generation, edit_generation]

theorem grant_installs {ref : TableRef} {i : Slot} {core : Core}
    (installed : k.registry.install ref (grantedCap core .memory 0 capRightMemoryMap) =
      some (i, R)) : k.capTableGrant core ref .memory 0 capRightMemoryMap =
      ({ k with
          registry := R
          endpoints := k.endpoints.capEndpointRefAcquire .memory 0 capRightMemoryMap },
        .ok (R.handle ⟨ref, i⟩)) := by
  have there : (k.registry.table ref).isNone = false := by
    simpa [isNone_iff_eq_none, isSome_iff_ne_none] using (install_some installed).1
  have valid : ¬(capRightsValid .memory capRightMemoryMap = false ∨
      capRightMemoryMap = capRightNone) := by decide
  unfold capTableGrant
  rw [if_neg (by simp [there]), if_neg valid, installed]

/-- After `q` grants, each of them revoked again, all slots of the first table are
free and have been used in turn. -/
structure Cycled (k : Kernel) (q : Nat) : Prop where
  early : k.pmmInitialized = false
  hint : k.registry.hint ⟨0, 0⟩ = some (q % 64)
  free : ∀ j, (k.registry.entry ⟨⟨0, 0⟩, j⟩).inUse = false
  generation : ∀ j : Slot,
    (k.registry.entry ⟨⟨0, 0⟩, j⟩).generation.toNat = 2 * ((q + 63 - j) / 64)

theorem created_cycled : ((boot (fun _ => false) false).capTableCreate 0 true).1.Cycled 0 where
  early := rfl
  hint := by decide +kernel
  free := by decide +kernel
  generation := by decide +kernel

variable {q : Nat}

/-- The grant after `q` cycles. -/
theorem Cycled.grants (h : k.Cycled q) : ∃ i R, i.val = q % 64 ∧
      k.registry.install ⟨0, 0⟩ (grantedCap 0 .memory 0 capRightMemoryMap) = some (i, R) ∧
      R.hint ⟨0, 0⟩ = some ((q + 1) % 64) := by
  have bound : q % 64 < 64 := Nat.mod_lt _ (by decide)
  obtain ⟨R, installed, hint⟩ := install_at_hint (i := ⟨q % 64, bound⟩)
    (grantedCap 0 .memory 0 capRightMemoryMap) h.hint (h.free _)
  exact ⟨⟨q % 64, bound⟩, R, rfl, installed, by rw [hint]; simp⟩

theorem Cycled.next (h : k.Cycled q) (low : q < 64 * 32768) :
    ∃ k₁ capId k₂, LocalStep 0 k (.grant ⟨0, 0⟩ .memory 0 capRightMemoryMap) k₁ ∧
      LocalStep 0 k₁ (.revoke ⟨0, 0⟩ capId) k₂ ∧ k₂.Cycled (q + 1) := by
  obtain ⟨i, R, slot, installed, hint⟩ := h.grants
  have grant : LocalStep 0 k (.grant ⟨0, 0⟩ .memory 0 capRightMemoryMap) _ := .grant k _ _ _ _
  rw [grant_installs installed] at grant
  have written := install_entry_self installed
  have used : (R.entry ⟨⟨0, 0⟩, i⟩).inUse = true := by rw [written]; rfl
  have gen : (R.entry ⟨⟨0, 0⟩, i⟩).generation.toNat = 2 * (q / 64) + 1 := by
    rw [install_generation installed, h.generation i]
    omega
  have found : findRoot R ⟨0, 0⟩ (R.handle ⟨⟨0, 0⟩, i⟩) = some ⟨⟨0, 0⟩, i⟩ := by
    have same := (handle_matches_iff i (R.entry ⟨⟨0, 0⟩, i⟩).generation).mpr (by rw [gen]; omega)
    rw [← handle_of_inUse (c := ⟨⟨0, 0⟩, i⟩) used] at same
    have live : (R.entry ⟨⟨0, 0⟩, i⟩).state = .live := by rw [written]; rfl
    simp [findRoot, findIndex_handle (c := ⟨⟨0, 0⟩, i⟩) used, same, live]
  have lone : Lone R ⟨⟨0, 0⟩, i⟩ := by
    refine ⟨?_, ?_, ?_, ?_⟩ <;> rw [written] <;> rfl
  obtain ⟨k₂, revoked, registry, early⟩ := revokes_lone (k := { k with
    registry := R
    endpoints := k.endpoints.capEndpointRefAcquire .memory 0 capRightMemoryMap }) h.early found lone 0
  obtain ⟨freed, moved⟩ := freedAlone_self used
  have others : ∀ j, j ≠ i → (freedAlone R ⟨⟨0, 0⟩, i⟩).entry ⟨⟨0, 0⟩, j⟩ =
      k.registry.entry ⟨⟨0, 0⟩, j⟩ := by
    intro j ne
    have apart : (⟨⟨0, 0⟩, j⟩ : CapRef) ≠ ⟨⟨0, 0⟩, i⟩ := by simpa using ne
    rw [freedAlone_other apart, install_entry_other installed apart]
  refine ⟨_, _, k₂, grant, .revoke revoked, early, ?_, fun j => ?_, fun j => ?_⟩ <;> rw [registry]
  · simp [freedAlone, hint]
  · by_cases ne : j = i
    · rw [ne]; exact freed
    · rw [others j ne]; exact h.free j
  · by_cases ne : j = i
    · rw [ne, moved, toNat_add, gen]
      show (2 * (q / 64) + 1 + 1) % 2 ^ 32 = _
      omega
    rw [others j ne, h.generation j]
    have apart : j.val ≠ i.val := fun e => ne (Fin.ext e)
    omega

theorem cycled_of_run (low : q ≤ 64 * 32768) : ∃ k,
    Run (LocalStep 0) (fun _ _ => True) (boot (fun _ => false) false) k ∧ k.Cycled q := by
  induction q with
  | zero => exact ⟨_, .tail .refl trivial (.create _ _), created_cycled⟩
  | succ q ih =>
    obtain ⟨k, run, cycled⟩ := ih (by omega)
    obtain ⟨k₁, capId, k₂, grant, revoke, next⟩ := cycled.next (by omega)
    exact ⟨k₂, .tail (.tail run trivial grant) trivial revoke, next⟩

/-- When every slot has been granted and revoked 32768 times, the next grant returns
a handle that is not accepted for its own capability. -/
theorem new_handle_unusable : ∃ k k' : Kernel, ∃ h,
    Run (LocalStep 0) (fun _ _ => True) (boot (fun _ => false) false) k ∧
    k.capTableGrant 0 ⟨0, 0⟩ .memory 0 capRightMemoryMap = (k', .ok h) ∧
    ¬ k.Usable k' ⟨0, 0⟩ .memory capRightMemoryMap h := by
  obtain ⟨k, run, cycled⟩ := cycled_of_run le_rfl
  obtain ⟨i, R, slot, installed, -⟩ := cycled.grants
  have done := grant_installs installed
  refine ⟨k, _, _, run, done, fun ⟨_, _, _, _, found⟩ => ?_⟩
  have used : (R.entry ⟨⟨0, 0⟩, i⟩).inUse = true := by rw [install_entry_self installed]; rfl
  have range := range_of_lookup (c := ⟨⟨0, 0⟩, i⟩) used found
  rw [install_generation installed, cycled.generation i] at range
  omega

end Kernel

end BharatOS
