import BharatOS.Cap.Generations

/-!
# No amplification

A capability that was derived from another never has more rights than that one, as long as it is
still there.
-/

namespace BharatOS

/-- Authority of this type, rights and object is within the capability `p`. -/
structure CapabilityEntry.Covers (p : CapabilityEntry) (type : CapType) (rights : CapRightsMask)
    (objectRef : BitVec 64) : Prop where
  rights : p.rights &&& rights = rights
  type : type = p.type
  objectRef : objectRef = p.objectRef

/-- A capability with no more authority than `p`, and with lawful rights. -/
structure CapabilityEntry.Within (e p : CapabilityEntry) : Prop where
  covered : p.Covers e.type e.rights e.objectRef
  nonempty : e.rights ≠ capRightNone
  lawful : capTransferRightsValid e.type e.rights = true

namespace Registry

/-- Authority derived through a parent locator: the locator is fresh, the rights
are lawful unless there is no parent, and a parent that is there covers it. -/
structure Derived (R : Registry) (parent : BhCapLocator) (type : CapType) (rights : CapRightsMask)
    (objectRef : BitVec 64) : Prop where
  fresh : R.Fresh parent
  lawful : capLocatorIsNull parent = true ∨
    rights ≠ capRightNone ∧ capTransferRightsValid type rights = true
  covered : ∀ p, R.resolve parent = some p → (R.entry p).Covers type rights objectRef

section

variable {R R' : Registry} {parent : BhCapLocator} {type : CapType} {rights : CapRightsMask}
  {objectRef : BitVec 64}

theorem derived_null (null : capLocatorIsNull parent = true) :
    R.Derived parent type rights objectRef :=
  ⟨fresh_null null, .inl null, fun p target => by rw [resolve_null null] at target; cases target⟩

section

variable (h : R.Derived parent type rights objectRef)

include h

theorem Derived.created {out : Option TableRef}
    (made : Created R R' out) : R'.Derived parent type rights objectRef := by
  refine ⟨h.fresh.created made, h.lawful, fun p target => ?_⟩
  rw [made.entry]
  exact h.covered p (made.resolve ▸ target)

theorem Derived.destroyed (ref : TableRef) :
    (R.destroy ref).Derived parent type rights objectRef := by
  refine ⟨h.fresh.destroyed ref, h.lawful, fun p target => ?_⟩
  obtain ⟨before, outside⟩ := destroy_resolve.mp target
  rw [destroy_entry, if_neg outside]
  exact h.covered p before

theorem Derived.rewrites {licence : Licence}
    (entries : Rewrites licence R R') (noWrap : NoWrap R R') : R'.Derived parent type rights objectRef := by
  refine ⟨h.fresh.sameSpaces entries.spaces noWrap, h.lawful, fun p target => ?_⟩
  obtain ⟨place, used, same⟩ := resolve_eq_some.mp target
  rw [locate_congr entries.spaces.cspaceId] at place
  rcases entries.entry p with e | ⟨ed, -, e⟩ | ⟨-, -, e⟩ <;> rw [e] at used same ⊢
  · exact h.covered p (resolve_eq_some.mpr ⟨place, used, same⟩)
  · rw [EntryEdit.apply_inUse] at used
    rw [EntryEdit.apply_generation] at same
    obtain ⟨subset, sameType, sameObject⟩ := h.covered p (resolve_eq_some.mpr ⟨place, used, same⟩)
    exact ⟨by rwa [EntryEdit.apply_rights], by rwa [EntryEdit.apply_type],
      by rwa [EntryEdit.apply_objectRef]⟩
  · cases used

theorem Derived.installed {ref : TableRef} {cap : NewCap} {i : Slot} (installed : R.install ref cap = some (i, R'))
    (noWrap : NoWrap R R') : R'.Derived parent type rights objectRef := by
  refine ⟨h.fresh.sameSpaces (install_some installed).2.2.1 noWrap, h.lawful, fun p target => ?_⟩
  have other : p ≠ ⟨ref, i⟩ := fun e => h.fresh.not_installed installed noWrap (e ▸ target)
  rw [install_entry_other installed other]
  exact h.covered p ((install_resolve installed other).mp target)

end

/-- What passes the check of a delegation is derived from its source. -/
theorem derived_child {c : CapRef} (used : (R.entry c).inUse = true)
    (may : Kernel.mayDelegate (R.entry c) rights = true) (epoch : BitVec 32) :
    R.Derived (R.locatorMake c.table c.slot (R.entry c).generation epoch) (R.entry c).type rights
      (R.entry c).objectRef := by
  simp only [Kernel.mayDelegate, Bool.and_eq_true, beq_iff_eq, bne_iff_ne] at may
  obtain ⟨⟨⟨-, subset⟩, valid⟩, nonempty⟩ := may
  refine ⟨fresh_locatorMake used epoch, .inr ⟨nonempty, valid⟩, fun p target => ?_⟩
  obtain rfl : c = p := Option.some.inj ((resolve_locatorMake used).symm.trans target)
  exact ⟨subset, rfl, rfl⟩

end

/-- What an entry says about where its authority comes from. -/
def EntryDerived (R : Registry) (c : CapRef) : Prop :=
  R.Derived (R.entry c).parent (R.entry c).type (R.entry c).rights (R.entry c).objectRef

variable {R R' : Registry}

theorem entryDerived_of_free {c : CapRef} (free : (R.entry c).inUse = false) : R.EntryDerived c :=
  derived_null (by rw [(cleared_of_free free).1]; rfl)

theorem entryDerived_install {ref : TableRef} {cap : NewCap} {i : Slot}
    (entries : ∀ c, R.EntryDerived c) (installed : R.install ref cap = some (i, R'))
    (noWrap : NoWrap R R') (new : R.Derived cap.parent cap.type cap.rights cap.objectRef)
    (c : CapRef) : R'.EntryDerived c := by
  unfold EntryDerived
  by_cases hc : c = ⟨ref, i⟩
  · subst hc
    rw [install_entry_self installed]
    exact new.installed installed noWrap
  · rw [install_entry_other installed hc]
    exact (entries c).installed installed noWrap

theorem entryDerived_rewrites {licence : Licence} (entries : ∀ c, R.EntryDerived c)
    (rewrites : Rewrites licence R R') (noWrap : NoWrap R R') (c : CapRef) : R'.EntryDerived c := by
  have kept := (entries c).rewrites rewrites noWrap
  unfold EntryDerived
  rcases rewrites.entry c with e | ⟨ed, -, e⟩ | ⟨-, -, e⟩
  · rwa [e]
  · rw [e, EntryEdit.apply_parent, EntryEdit.apply_type, EntryEdit.apply_rights,
      EntryEdit.apply_objectRef]
    exact kept
  · exact entryDerived_of_free (by rw [e]; rfl)

end Registry

/-- What a copy offers in the end depends on the offers only. -/
theorem TxField.readAll_offer {record record' copy copy' : BhCapTxEntry} {fields : List TxField}
    (same : record'.offer = record.offer) (copies : copy'.offer = copy.offer) :
    (readAll record' copy' fields).offer = (readAll record copy fields).offer := by
  induction fields generalizing copy copy' with
  | nil => exact copies
  | cons field rest ih =>
    refine ih ?_
    simp only [BhCapTxEntry.offer, Prod.mk.injEq] at same copies ⊢
    cases field <;> simp [TxField.read, same, copies]

namespace Kernel

open Registry

/-- What a record offers is derived from its source. -/
def OfferDerived (R : Registry) (tx : BhCapTxEntry) : Prop :=
  R.Derived tx.src tx.type tx.requestedRights tx.objectRef

structure Attenuated (k : Kernel) : Prop where
  entries : ∀ c, k.registry.EntryDerived c
  offers : ∀ core slot, OfferDerived k.registry (k.txs core slot)

variable {R : Registry} {tx : BhCapTxEntry}

theorem OfferDerived.same {tx' : BhCapTxEntry} (h : OfferDerived R tx)
    (offer : tx'.offer = tx.offer) : OfferDerived R tx' := by
  simp only [BhCapTxEntry.offer, Prod.mk.injEq] at offer
  unfold OfferDerived
  rw [offer.1, offer.2.2.1, offer.2.2.2.1, offer.2.2.2.2]
  exact h

theorem offers_set {txs : TxTable} {core : Core} {slot : TxSlot}
    (offers : ∀ core slot, OfferDerived R (txs core slot)) (new : OfferDerived R tx) (core' : Core)
    (slot' : TxSlot) : OfferDerived R (txs.set core slot tx core' slot') := by
  by_cases same : core' = core ∧ slot' = slot
  · obtain ⟨rfl, rfl⟩ := same
    rwa [TxTable.set_self]
  · rw [TxTable.set_other tx same]
    exact offers core' slot'

/-- An action that wraps no generation keeps every capability and every offer within
its source, if what it installs for a record was read as the record offers it. -/
theorem Attenuated.step {k k' : Kernel} {licence : Licence} (h : k.Attenuated)
    (effect : Effect k k' licence) (noWrap : NoWrap k.registry k'.registry)
    (copied : ∀ req dst dstId read, licence = .install req dst dstId read →
      read.offer = (k.txOf req).offer) : k'.Attenuated := by
  cases effect with
  | created made txs =>
    refine ⟨fun c => ?_, fun core slot => ?_⟩
    · have entry := (h.entries c).created made
      rw [← made.entry] at entry
      exact entry
    · rw [txs]; exact (h.offers core slot).created made
  | destroyed ref registry txs =>
    refine ⟨fun c => ?_, fun core slot => ?_⟩
    · rw [registry]
      by_cases hc : c.table = ref
      · exact entryDerived_of_free (by rw [destroy_entry, if_pos hc]; rfl)
      have entry := (h.entries c).destroyed ref
      unfold EntryDerived
      rw [destroy_entry, if_neg hc]
      exact entry
    · rw [registry, txs]; exact (h.offers core slot).destroyed ref
  | rewrote entries txs =>
    exact ⟨entryDerived_rewrites h.entries entries noWrap, fun core slot =>
      OfferDerived.same ((h.offers core slot).rewrites entries noWrap) (txs core slot).offer⟩
  | @claimed core op slot txs alloc entries kept =>
    -- the claimed record is cleared, so it offers nothing
    have cleared : OfferDerived k'.registry ((k.txs core slot).prepared core op) := derived_null rfl
    obtain ⟨-, rfl⟩ := TxTable.capTxAlloc_some alloc
    refine ⟨entryDerived_rewrites h.entries entries noWrap, fun core' slot' =>
      OfferDerived.same ?_ (kept core' slot').offer⟩
    exact offers_set (fun core slot => (h.offers core slot).rewrites entries noWrap) cleared _ _
  | granted installed txs =>
    refine ⟨entryDerived_install h.entries installed noWrap (derived_null rfl), fun core slot => ?_⟩
    rw [txs]; exact (h.offers core slot).installed installed noWrap
  | @delegated _ c dst rights j R link used may installed registry txs =>
    -- the child is installed first, and then only a link of the source changes
    have edit : Rewrites .plain R _ := rewrites_edit R c (.firstChild link) (.inr rfl)
    have noWrap₁ : NoWrap k.registry R := fun d same => by
      have grows := noWrap d (by rw [registry, SameTable, edit.spaces.cspaceId]; exact same)
      rwa [registry, edit_generation] at grows
    have noWrap₂ : NoWrap R (R.edit c (.firstChild link)) := fun d _ => by rw [edit_generation]
    have child := derived_child used may ((k.registry.entry c).revocationEpoch.setWidth 32)
    have entries := entryDerived_install h.entries installed noWrap₁ child
    rw [← registry] at edit noWrap₂
    refine ⟨entryDerived_rewrites entries edit noWrap₂, fun core slot => ?_⟩
    rw [txs]
    exact ((h.offers core slot).installed installed noWrap₁).rewrites edit noWrap₂
  | offered used may alloc registry set =>
    obtain ⟨-, rfl⟩ := TxTable.capTxAlloc_some alloc
    refine ⟨by rw [registry]; exact h.entries, ?_⟩
    rw [registry, set, TxTable.set_set]
    exact offers_set h.offers (derived_child used may _)
  | @received req dst dstId read i home installed txs =>
    have offer := h.offers req.origin req.slot
    have new : OfferDerived k.registry read := offer.same (copied req dst dstId read rfl)
    refine ⟨entryDerived_install h.entries installed noWrap new, ?_⟩
    rw [txs]
    exact offers_set (fun core slot => (h.offers core slot).installed installed noWrap)
      (offer.installed installed noWrap)

end Kernel

namespace System

open Registry Kernel

/-- No generation wraps, and no record is claimed while a handler is still reading it. -/
def KeepsOffers (s : System) (a : Action) : Prop := NoWrapStep s a ∧ s.ClaimsUnread a

/-- With the fields that a handler has yet to read for an installation, its copy comes to
what the record offers. -/
structure Attenuated (s : System) : Prop where
  kernel : s.kernel.Attenuated
  copies : ∀ core call dst dstId copy remaining, s.handlers core = some call →
    call.pc = .read (.install dst dstId) copy remaining →
    (TxField.readAll (s.kernel.txOf call.reply.request) copy remaining).offer =
      (s.kernel.txOf call.reply.request).offer

theorem Attenuated.step {s s' : System} {a : Action} (h : s.Attenuated) (ok : s.KeepsOffers a)
    (step : Steps s a s') : s'.Attenuated := by
  refine ⟨h.kernel.step (step_effect step) (ok.1 s' step) fun req dst dstId read licensed => ?_,
    fun core call dst dstId copy remaining now pc => ?_⟩
  · obtain ⟨core, call, now, pc, rfl⟩ := licence_install licensed
    exact h.copies core call dst dstId read [] now pc
  cases (step_origin step).2 _ _ now with
  | before was =>
    have offer := offer_unread step ok.2 was (by rw [pc]; rfl)
    rw [TxField.readAll_offer offer rfl, offer]
    exact h.copies core call dst dstId copy remaining was pc
  | receives _ _ _ _ _ first =>
    cases (HandlerCall.receive_install first pc).2
    rfl
  | handling _ was next =>
    obtain ⟨kernel, reply, copy₀, remaining₀, pc₀, same⟩ := HandlerCall.step_next next pc
    rw [kernel, reply, same]
    exact h.copies core _ dst dstId copy₀ remaining₀ was pc₀

/-- In every state that the cores can reach together without wrapping a generation and
without claiming a record that is being read, a capability whose parent is there has no
more rights than the parent, the same type and object, and lawful rights. -/
theorem no_amplification {bound : Core → Bool} {pmmInitialized : Bool} {s : System}
    (run : Run Steps KeepsOffers (boot bound pmmInitialized) s) {c p : CapRef}
    (parent : s.kernel.registry.resolve (s.kernel.registry.entry c).parent = some p) :
    (s.kernel.registry.entry c).Within (s.kernel.registry.entry p) := by
  have attenuated : s.Attenuated := run.invariant Attenuated
    ⟨⟨fun _ => entryDerived_of_free rfl, fun _ _ => derived_null rfl⟩,
      fun _ _ _ _ _ _ h => (by cases h)⟩ fun _ _ _ => Attenuated.step
  obtain ⟨-, lawful, covered⟩ := attenuated.kernel.entries c
  rcases lawful with null | ⟨nonempty, valid⟩
  · rw [resolve_null null] at parent
    cases parent
  · exact ⟨covered p parent, nonempty, valid⟩

/-- Core 0 has two capabilities to delegate, and core 1 has a table. -/
def twoSources : List Action :=
  [.create 0 true, .create 1 true,
    .grant 0 ⟨0, 0⟩ .memory 1 (capRightMemoryMap ||| capRightDelegate),
    .grant 0 ⟨0, 0⟩ .memory 2 (capRightMemoryUnmap ||| capRightDelegate)]

/-- Core 1 installs what it is sent and answers. -/
def answersDelegation : List Action :=
  [.resume 0 false, .resume 0 false, .receive 1] ++ List.replicate 15 (.handle 1) ++
    [.receive 0, .resume 0 false, .resume 0 false, .resume 0 false, .resume 0 false]

theorem no_amplification_remote : ∃ s : System, Run Steps KeepsOffers (boot (fun _ => true) true) s ∧
    s.kernel.registry.resolve (s.kernel.registry.entry ⟨⟨1, 0⟩, 0⟩).parent = some ⟨⟨0, 0⟩, 0⟩ ∧
    (s.kernel.registry.entry ⟨⟨1, 0⟩, 0⟩).Within (s.kernel.registry.entry ⟨⟨0, 0⟩, 0⟩) := by
  obtain ⟨s₀, first, ⟨s₁, event⟩, second, s, third, parent⟩ :
      ∃ s₀, (boot (fun _ => true) true).exec twoSources = some s₀ ∧
      ∃ begun, s₀.step (.delegate 0 0 ⟨0, 0⟩ ⟨1, 0⟩ 0x10001 capRightMemoryMap) = some begun ∧
      ∃ s, begun.1.exec answersDelegation = some s ∧
        s.kernel.registry.resolve (s.kernel.registry.entry ⟨⟨1, 0⟩, 0⟩).parent =
          some ⟨⟨0, 0⟩, 0⟩ := by decide +kernel
  have unclaimed : ∀ actions : List Action, (∀ a ∈ actions, ∀ s, ClaimsUnread s a) →
      ∀ a ∈ actions, ∀ s, NoWrapStep s a → KeepsOffers s a :=
    fun _ unread a listed s wraps => ⟨wraps, unread a listed s⟩
  obtain ⟨run, small⟩ := exec_noWrap (unclaimed _ (by simp [twoSources, ClaimsUnread]))
    (boot_small _ _) (by decide) first
  -- no request has arrived when the record is claimed
  have idle : s₀.handlers = fun _ => none := by rw [← Option.some.inj first]; rfl
  have bounds := fun {s} (step : Steps s₀ (.delegate 0 0 ⟨0, 0⟩ ⟨1, 0⟩ 0x10001 capRightMemoryMap) s) =>
    (step_effect step).noWrap small (by decide)
  obtain ⟨run₁, -⟩ := exec_noWrap (unclaimed _ (by simp [answersDelegation, ClaimsUnread]))
    (bounds ⟨_, second⟩).2 (by decide) third
  have whole : Run Steps KeepsOffers (boot (fun _ => true) true) s := Run.trans
    (.tail run ⟨fun _ step => (bounds step).1, claimsUnread_of_idle idle⟩ ⟨_, second⟩) run₁
  exact ⟨s, whole, parent, no_amplification whole parent⟩

/-- Core 1 has read seven fields of a delegation of the first capability when core 0 gives
it up and offers the second one in the same record; core 1 reads the parent from there. -/
def tornDelegation : List Action :=
  twoSources ++ [.delegate 0 0 ⟨0, 0⟩ ⟨1, 0⟩ 0x10001 capRightMemoryMap,
    .resume 0 false, .resume 0 false, .receive 1] ++ List.replicate 7 (.handle 1) ++
  [.resume 0 true, .resume 0 true, .resume 0 true, .resume 0 true,
    .delegate 0 0 ⟨0, 0⟩ ⟨1, 0⟩ 0x10002 capRightMemoryUnmap] ++ List.replicate 3 (.handle 1)

/-- The child has a right and an object that its parent does not have. -/
theorem rights_amplified : ∃ s : System, Run Steps NoWrapStep (boot (fun _ => true) true) s ∧
    (s.kernel.registry.entry ⟨⟨1, 0⟩, 0⟩).state = .live ∧
    s.kernel.registry.resolve (s.kernel.registry.entry ⟨⟨1, 0⟩, 0⟩).parent = some ⟨⟨0, 0⟩, 1⟩ ∧
    (s.kernel.registry.entry ⟨⟨0, 0⟩, 1⟩).rights &&& (s.kernel.registry.entry ⟨⟨1, 0⟩, 0⟩).rights ≠
      (s.kernel.registry.entry ⟨⟨1, 0⟩, 0⟩).rights ∧
    (s.kernel.registry.entry ⟨⟨1, 0⟩, 0⟩).objectRef ≠
      (s.kernel.registry.entry ⟨⟨0, 0⟩, 1⟩).objectRef := by
  exact found_noWrap tornDelegation (by decide) (by decide +kernel)

end System

end BharatOS
