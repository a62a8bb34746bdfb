import BharatOS.Cap.Effects
import BharatOS.Cap.Tidy

/-!
# Slot generations

A slot's generation moves on by one when the slot is filled and when it is freed.
As long as no generation wraps, a locator that was made in the past (`Fresh`)
never comes to name a capability that was made later.
-/

namespace BharatOS

namespace Registry

/-- The table is the same one before and after. -/
def SameTable (R R' : Registry) (ref : TableRef) : Prop :=
  ∃ id, R.cspaceId ref = some id ∧ R'.cspaceId ref = some id

/-- No generation of a table that stays has wrapped. -/
def NoWrap (R R' : Registry) : Prop :=
  ∀ c, SameTable R R' c.table →
    (R.entry c).generation.toNat ≤ (R'.entry c).generation.toNat

/-- The locator names nothing that is yet to come: neither a CSpace nor an instance. -/
structure Fresh (R : Registry) (l : BhCapLocator) : Prop where
  space : ∀ ref generation, generation ≤ bhCapCspaceGenerationMax →
    l.cspaceId = capCspaceIdMake ref.core ref.cspace generation →
    generation ≤ (R.slots ref).generation
  slot : ∀ c, R.cspaceId c.table = some l.cspaceId → l.slot = c.slot →
    l.generation.toNat ≤ (R.entry c).generation.toNat

variable {R R' : Registry} {l : BhCapLocator}

theorem fresh_null (null : capLocatorIsNull l = true) : R.Fresh l := by
  have gone : R.Gone l := gone_null null
  refine ⟨fun ref g bound e => (gone ref g bound e).1, fun c id => ?_⟩
  exact absurd id (gone c.table _ (R.bounded _) (cspaceId_eq_some.mp id).2).2

theorem fresh_locatorMake {c : CapRef} (used : (R.entry c).inUse = true) (epoch : BitVec 32) :
    R.Fresh (R.locatorMake c.table c.slot (R.entry c).generation epoch) := by
  obtain ⟨id, home⟩ := cspaceId_of_inUse used
  rw [locatorMake_of_cspaceId home]
  refine ⟨fun ref g bound e => ?_, fun d there slot => ?_⟩
  · obtain ⟨rfl, rfl⟩ := capCspaceIdMake_inj bound (R.bounded _)
      (e.symm.trans (cspaceId_eq_some.mp home).2)
    exact le_rfl
  · obtain ⟨ref, i⟩ := d
    obtain rfl : ref = c.table := cspaceId_inj there home
    obtain rfl : i = c.slot := Fin.ext slot.symm
    exact le_rfl

theorem Fresh.sameSpaces (h : R.Fresh l) (same : SameSpaces R R') (noWrap : NoWrap R R') :
    R'.Fresh l := by
  refine ⟨fun ref g bound e => ?_, fun c id slot => ?_⟩
  · rw [same.generation]
    exact h.space ref g bound e
  · rw [same.cspaceId] at id
    exact (h.slot c id slot).trans (noWrap c ⟨_, id, by rw [same.cspaceId, id]⟩)

theorem Fresh.created {out : Option TableRef} (h : R.Fresh l) (made : Created R R' out) :
    R'.Fresh l := by
  refine ⟨fun ref g bound e => (h.space ref g bound e).trans (made.generation ref),
    fun c id slot => ?_⟩
  rw [made.entry]
  rcases made.cspaceId c.table with same | ⟨-, newer⟩
  · exact h.slot c (same ▸ id) slot
  -- the new table's id is newer than the locator
  have := h.space c.table _ (R'.bounded _) (cspaceId_eq_some.mp id).2
  omega

theorem Fresh.destroyed (h : R.Fresh l) (ref : TableRef) : (R.destroy ref).Fresh l := by
  refine ⟨fun r g bound e => ?_, fun c id slot => ?_⟩
  · rw [destroy_generation]
    exact h.space r g bound e
  · rw [destroy_cspaceId] at id
    by_cases hc : c.table = ref
    · rw [hc, Function.update_self] at id
      cases id
    rw [Function.update_of_ne hc] at id
    rw [destroy_entry, if_neg hc]
    exact h.slot c id slot

/-- A fresh locator does not name the capability that an installation makes. -/
theorem Fresh.not_installed {ref : TableRef} {cap : NewCap} {i : Slot} (h : R.Fresh l)
    (installed : R.install ref cap = some (i, R')) (noWrap : NoWrap R R') :
    R'.resolve l ≠ some ⟨ref, i⟩ := by
  intro target
  obtain ⟨-, -, spaces, -⟩ := install_some installed
  obtain ⟨place, -, same⟩ := resolve_eq_some.mp target
  obtain ⟨id, -, slot⟩ := locate_eq_some.mp place
  have before := id
  rw [spaces.cspaceId] at before
  have old := h.slot ⟨ref, i⟩ before slot
  have grows := noWrap ⟨ref, i⟩ ⟨_, before, id⟩
  rw [install_entry_self installed] at same grows
  have next : (R.entry ⟨ref, i⟩).generation + 1 = l.generation := same
  have moved : (R.entry ⟨ref, i⟩).generation.toNat ≤
      ((R.entry ⟨ref, i⟩).generation + 1).toNat := grows
  rw [next] at moved
  have equal : (R.entry ⟨ref, i⟩).generation = l.generation :=
    BitVec.eq_of_toNat_eq (le_antisymm moved old)
  rw [← equal] at next
  simp at next

end Registry

/-- A slot either stays as it is or is filled or freed, and then its generation moves on. -/
def CapabilityEntry.Moves (e e' : CapabilityEntry) : Prop :=
  e'.generation = e.generation ∧ e'.inUse = e.inUse ∨
    e'.generation = e.generation + 1 ∧ e'.inUse = !e.inUse

open CapabilityEntry

/-- What an action does to one slot: the capability stays, the slot is filled or freed, or it goes
with its table. Only an action that counts pins changes the pins of a capability that stays. -/
inductive Registry.Turns (licence : Licence) (R R' : Registry) (c : CapRef) : Prop
  | stays (used : (R'.entry c).inUse = (R.entry c).inUse)
      (generation : (R'.entry c).generation = (R.entry c).generation)
      (pins : licence = .count ∨ (R'.entry c).activePins = (R.entry c).activePins)
      (space : R'.cspaceId c.table = R.cspaceId c.table ∨ R.cspaceId c.table = none)
  | fills (free : (R.entry c).inUse = false) (used : (R'.entry c).inUse = true)
      (generation : (R'.entry c).generation = (R.entry c).generation + 1)
      (pins : (R'.entry c).activePins = 0)
      (space : R'.cspaceId c.table = R.cspaceId c.table)
  | frees (may : licence.frees c) (used : (R.entry c).inUse = true)
      (freed : R'.entry c = (R.entry c).freed) (space : R'.cspaceId c.table = R.cspaceId c.table)
  | leaves (down : licence = .tearDown c.table) (space : R'.cspaceId c.table = none)
      (zero : R'.entry c = .zero)

namespace Registry

variable {R R' : Registry} {licence : Licence} {c : CapRef}

theorem turns_same (entry : R'.entry c = R.entry c)
    (space : R'.cspaceId c.table = R.cspaceId c.table ∨ R.cspaceId c.table = none) :
    Turns licence R R' c := .stays (by rw [entry]) (by rw [entry]) (.inr (by rw [entry])) space

/-- After an installation, and perhaps a change that does not bear on slots. -/
theorem install_turns {ref : TableRef} {cap : NewCap} {i : Slot} {R₁ : Registry}
    (h : R.install ref cap = some (i, R₁)) (later : Rewrites .plain R₁ R') :
    Turns licence R R' c := by
  obtain ⟨-, free, spaces, -⟩ := install_some h
  have space : R'.cspaceId c.table = R.cspaceId c.table := by
    rw [later.spaces.cspaceId, spaces.cspaceId]
  have same : (R'.entry c).inUse = (R₁.entry c).inUse ∧
      (R'.entry c).generation = (R₁.entry c).generation ∧
      (R'.entry c).activePins = (R₁.entry c).activePins := by
    rcases later.entry c with e | ⟨ed, counts, e⟩ | ⟨never, -⟩
    · rw [e]; exact ⟨rfl, rfl, rfl⟩
    · rw [e]
      exact ⟨EntryEdit.apply_inUse .., EntryEdit.apply_generation ..,
        EntryEdit.apply_activePins _ _ (counts.resolve_left nofun)⟩
    · exact never.elim
  by_cases hc : c = ⟨ref, i⟩
  · subst hc
    rw [install_entry_self h] at same
    exact .fills free same.1 same.2.1 same.2.2 space
  · rw [install_entry_other h hc] at same
    exact .stays same.1 same.2.1 (.inr same.2.2) (.inl space)

theorem Rewrites.turns (h : Rewrites licence R R') : Turns licence R R' c := by
  have space : R'.cspaceId c.table = R.cspaceId c.table := by rw [h.spaces.cspaceId]
  rcases h.entry c with e | ⟨ed, counts, e⟩ | ⟨may, used, e⟩
  · exact turns_same e (.inl space)
  · refine .stays ?_ ?_ (counts.imp_right fun quiet => ?_) (.inl space) <;> rw [e]
    · exact EntryEdit.apply_inUse ..
    · exact EntryEdit.apply_generation ..
    · exact EntryEdit.apply_activePins _ _ quiet
  · exact .frees may used e space

end Registry

namespace Kernel

open Registry

variable {k k' : Kernel} {licence : Licence}

section

variable (h : Effect k k' licence) (c : CapRef)

include h

theorem Effect.turns : Turns licence k.registry k'.registry c := by
  cases h with
  | created made =>
    exact turns_same (by rw [made.entry]) ((made.cspaceId c.table).imp_right And.left)
  | destroyed ref registry =>
    rw [registry]
    by_cases hc : c.table = ref
    · subst hc
      exact .leaves rfl (by rw [destroy_cspaceId, Function.update_self])
        (by rw [destroy_entry, if_pos rfl])
    · exact turns_same (by rw [destroy_entry, if_neg hc])
        (.inl (by rw [destroy_cspaceId, Function.update_of_ne hc]))
  | rewrote entries => exact entries.turns
  | claimed _ entries =>
    cases entries.turns with
    | stays used generation pins space =>
      exact .stays used generation (.inr (pins.resolve_left nofun)) space
    | frees may => exact may.elim
    | fills free used generation pins space => exact .fills free used generation pins space
    | leaves down => cases down
  | granted installed | received _ installed => exact install_turns installed (.refl _)
  | delegated _ _ installed registry =>
    rw [registry]
    exact install_turns installed (rewrites_edit _ _ _ (.inr rfl))
  | offered _ _ _ registry => rw [registry]; exact turns_same rfl (.inl rfl)

/-- Over one action every slot moves by at most one step, or its table goes. -/
theorem Effect.moves : Moves (k.registry.entry c) (k'.registry.entry c) ∨
      k'.registry.cspaceId c.table = none ∧ k'.registry.entry c = .zero := by
  cases h.turns c with
  | stays used generation => exact .inl (.inl ⟨generation, used⟩)
  | fills free used generation => exact .inl (.inr ⟨generation, by rw [used, free]; rfl⟩)
  | frees _ used freed => exact .inl (.inr (by rw [freed, used]; exact ⟨rfl, rfl⟩))
  | leaves _ space zero => exact .inr ⟨space, zero⟩

end

/-- A record keeps its offer unless it was reusable and its core claims it. -/
theorem Effect.offer_kept (effect : Effect k k' licence) (core : Core) (slot : TxSlot) :
    (k'.txs core slot).offer = (k.txs core slot).offer ∨
      licence = .claim core ∧ (k.txs core slot).reusable = true := by
  cases effect with
  | created _ txs | destroyed _ _ txs | granted _ txs | delegated _ _ _ _ txs =>
    rw [txs]; exact .inl rfl
  | rewrote _ kept => exact .inl (kept core slot).offer
  | @claimed core' op slot' txs alloc entries kept =>
    obtain ⟨reusable, rfl⟩ := TxTable.capTxAlloc_some alloc
    by_cases same : core = core' ∧ slot = slot'
    · obtain ⟨rfl, rfl⟩ := same
      exact .inr ⟨rfl, reusable⟩
    · rw [(kept core slot).offer, TxTable.set_other _ same]
      exact .inl rfl
  | @offered core' slot' txs c dst rights used may alloc registry set =>
    obtain ⟨reusable, rfl⟩ := TxTable.capTxAlloc_some alloc
    by_cases same : core = core' ∧ slot = slot'
    · obtain ⟨rfl, rfl⟩ := same
      exact .inr ⟨rfl, reusable⟩
    · rw [set, TxTable.set_other _ same, TxTable.set_other _ same]
      exact .inl rfl
  | @received req dst dstId read i home installed txs =>
    left
    by_cases same : core = req.origin ∧ slot = req.slot
    · obtain ⟨rfl, rfl⟩ := same
      rw [txs, TxTable.set_self]
      rfl
    · rw [txs, TxTable.set_other _ same]

/-- While generations are small, an action does not wrap any. -/
theorem Effect.noWrap (h : Effect k k' licence) {n : Nat}
    (small : ∀ c, (k.registry.entry c).generation.toNat ≤ n) (room : n + 1 < 2 ^ 32) :
    NoWrap k.registry k'.registry ∧ ∀ c, (k'.registry.entry c).generation.toNat ≤ n + 1 := by
  have each : ∀ c, Moves (k.registry.entry c) (k'.registry.entry c) →
      (k.registry.entry c).generation.toNat ≤ (k'.registry.entry c).generation.toNat ∧
        (k'.registry.entry c).generation.toNat ≤ n + 1 := by
    intro c moves
    have := small c
    rcases moves with ⟨same, -⟩ | ⟨next, -⟩
    · rw [same]; omega
    rw [next, BitVec.toNat_add]
    have one : (1 : BitVec 32).toNat = 1 := rfl
    omega
  refine ⟨fun c same => ?_, fun c => ?_⟩
  · rcases h.moves c with moves | ⟨gone, -⟩
    · exact (each c moves).1
    obtain ⟨id, -, there⟩ := same
    rw [gone] at there
    cases there
  · rcases h.moves c with moves | ⟨-, zero⟩
    · exact (each c moves).2
    · rw [zero]; exact Nat.zero_le _

end Kernel

namespace System

open Registry Kernel

/-- The action wraps no generation of a table that stays. -/
def NoWrapStep (s : System) (a : Action) : Prop :=
  ∀ s', Steps s a s' → NoWrap s.kernel.registry s'.kernel.registry

/-- A core claims no record for which a handler has accepted a request and still has
fields to read. -/
def ClaimsUnread (s : System) : Action → Prop
  | .delegate _ core .. | .revoke _ core .. => ∀ c call, s.handlers c = some call →
    call.pc.reads = true → call.reply.request.origin = core →
      (s.kernel.txOf call.reply.request).reusable = false
  | _ => True

variable {s s' : System} {a : Action}

theorem claimsUnread_of_idle (idle : s.handlers = fun _ => none) : s.ClaimsUnread a := by
  unfold ClaimsUnread
  split
  · intro c call now
    rw [idle] at now
    cases now
  · intro c call now
    rw [idle] at now
    cases now
  · trivial

theorem licence_claim {core : Core} (h : s.licence a = .claim core) :
    (∃ thread src dst capId rights, a = .delegate thread core src dst capId rights) ∨
      ∃ thread table capId, a = .revoke thread core table capId := by
  rcases s.licence_cases a with ⟨core', e, start⟩ | ⟨_, _, _, e⟩ | ⟨_, _, _, _, _, _, _, e⟩ |
    ⟨_, e⟩ | e | ⟨e, _⟩
  · cases e.symm.trans h
    exact start
  all_goals cases e.symm.trans h

theorem licence_install {req : TxRequest} {dst : TableRef} {dstId : BitVec 32}
    {read : BhCapTxEntry} (h : s.licence a = .install req dst dstId read) :
    ∃ core call, s.handlers core = some call ∧ call.pc = .read (.install dst dstId) read [] ∧
      call.reply.request = req := by
  rcases s.licence_cases a with ⟨_, e, _⟩ | ⟨_, _, _, e⟩ | ⟨core, call, _, _, _, found, pc, e⟩ |
    ⟨_, e⟩ | e | ⟨e, _⟩
  · cases e.symm.trans h
  · cases e.symm.trans h
  · cases e.symm.trans h
    exact ⟨core, call, found, pc, rfl⟩
  all_goals cases e.symm.trans h

/-- What a handler is reading stays as it is. -/
theorem offer_unread (step : Steps s a s') (ok : s.ClaimsUnread a) {core : Core}
    {call : HandlerCall} (now : s.handlers core = some call) (reads : call.pc.reads = true) :
    (s'.kernel.txOf call.reply.request).offer = (s.kernel.txOf call.reply.request).offer := by
  rcases (step_effect step).offer_kept call.reply.request.origin call.reply.request.slot with
    offer | ⟨claim, reusable⟩
  · exact offer
  have busy : (s.kernel.txOf call.reply.request).reusable = false := by
    rcases licence_claim claim with ⟨_, _, _, _, _, rfl⟩ | ⟨_, _, _, rfl⟩ <;>
      exact ok core call now reads rfl
  cases busy.symm.trans reusable

/-- A short run wraps no generation. -/
theorem exec_noWrap {ok : System → Action → Prop} {actions : List Action}
    (allowed : ∀ a ∈ actions, ∀ s, NoWrapStep s a → ok s a) {s s' : System} {n : Nat}
    (small : ∀ c, (s.kernel.registry.entry c).generation.toNat ≤ n)
    (room : n + actions.length < 2 ^ 32) (h : s.exec actions = some s') : Run Steps ok s s' ∧
      ∀ c, (s'.kernel.registry.entry c).generation.toNat ≤ n + actions.length := by
  induction actions generalizing s n with
  | nil => cases h; exact ⟨.refl, small⟩
  | cons a rest ih =>
    obtain ⟨⟨s₁, event⟩, now, later⟩ := Option.bind_eq_some_iff.mp h
    rw [List.length_cons] at room
    have wraps : NoWrapStep s a := fun t step => ((step_effect step).noWrap small (by omega)).1
    have small₁ := ((step_effect ⟨event, now⟩).noWrap small (by omega)).2
    obtain ⟨run, small'⟩ := ih (fun b hb => allowed b (List.mem_cons_of_mem _ hb)) small₁
      (by omega) later
    have first : Run Steps ok s s₁ :=
      .tail .refl (allowed a List.mem_cons_self s wraps) ⟨event, now⟩
    exact ⟨first.trans run, fun c => (small' c).trans (by rw [List.length_cons]; omega)⟩

theorem boot_small (bound : Core → Bool) (pmmInitialized : Bool) (c : CapRef) :
    ((boot bound pmmInitialized).kernel.registry.entry c).generation.toNat ≤ 0 :=
  le_of_eq rfl

theorem found_noWrap {bound : Core → Bool} {pmmInitialized : Bool} {P : System → Prop}
    (actions : List Action) (room : actions.length < 2 ^ 32)
    (h : ∃ s, (boot bound pmmInitialized).exec actions = some s ∧ P s) :
    ∃ s, Run Steps NoWrapStep (boot bound pmmInitialized) s ∧ P s := by
  obtain ⟨s, ran, holds⟩ := h
  exact ⟨s, (exec_noWrap (fun _ _ _ h => h) (boot_small _ _) (by omega) ran).1, holds⟩

end System

end BharatOS
