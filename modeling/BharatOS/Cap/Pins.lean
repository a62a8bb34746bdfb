import BharatOS.Cap.Generations

/-!
# Pins

A pin keeps a capability in place while its holder works with it. Revocation waits for the pins of
an entry before it frees it; the other paths do not look at the pin count.
-/

namespace BharatOS

open Function Option List EntryEdit

/-- A pin that was not undone yet: the slot its holder knows, and the instance that
was in the slot. -/
structure PinHolder where
  cap : CapRef
  space : BitVec 32
  generation : BitVec 32
  deriving DecidableEq, Repr

/-- The pinned instance is still in its slot. -/
structure PinHolder.Holds (holder : PinHolder) (R : Registry) : Prop where
  space : R.cspaceId holder.cap.table = some holder.space
  used : (R.entry holder.cap).inUse = true
  generation : (R.entry holder.cap).generation = holder.generation

/-- The pin that a successful `cap_validate_and_pin` hands out. -/
def Registry.pinHolder (R : Registry) (table : TableRef) (req : CapValidationRequest) :
    Option PinHolder :=
  match R.validate table req with
  | .error _ => none
  | .ok c => (R.cspaceId c.table).map (⟨c, ·, (R.entry c).generation⟩)

/-- The system together with the pins that are held. -/
structure PinState where
  system : System
  holders : List PinHolder

inductive PinAction where
  | act (a : Action)
  | unpin (holder : PinHolder)

namespace PinState

def boot (bound : Core → Bool) (pmmInitialized : Bool) : PinState :=
  ⟨.boot bound pmmInitialized, []⟩

def registry (p : PinState) : Registry := p.system.kernel.registry

def pins (p : PinState) (c : CapRef) : BitVec 32 := (p.registry.entry c).activePins

def newHolders (s : System) : Action → List PinHolder
  | .pin table req => (s.kernel.registry.pinHolder table req).toList
  | _ => []

def step (p : PinState) : PinAction → Option PinState
  | .act a => (p.system.step a).map fun done => ⟨done.1, newHolders p.system a ++ p.holders⟩
  | .unpin holder =>
    if holder ∈ p.holders then
      (p.system.step (.unpin holder.cap.table holder.cap.slot)).map fun done =>
        ⟨done.1, p.holders.erase holder⟩
    else none

def Steps (p : PinState) (x : PinAction) (p' : PinState) : Prop := p.step x = some p'

end PinState

/-! ## What the paths that free entries need -/

/-- The revocation has waited for the pins of the entry, has seen that there are none,
and now frees it. -/
def RevokeCall.Drained (R : Registry) (call : RevokeCall) (c : CapRef) : Prop :=
  ∃ current onward, call.pc = .relock current onward false ∧ Kernel.visit R current = .at c

/-- The handler is not about to free a pinned entry. -/
def HandlerCall.SparesPins (k : Kernel) (call : HandlerCall) : Prop :=
  match call.pc with
  | .read (.undo dst _ slot) copy [] => ∀ c, k.rollbackEntry dst slot copy.remoteDstGen = some c →
    (k.registry.entry c).activePins = 0
  | .scan .commit notice (cspace :: _) => ∀ c : CapRef, c.table = ⟨call.core, cspace⟩ →
    Kernel.commits notice (k.registry.entry c) = true → (k.registry.entry c).activePins = 0
  | _ => True

namespace PinState

/-- Only a holder undoes a pin. -/
def HoldersUnpin (_ : PinState) : PinAction → Prop
  | .act (.unpin ..) => False
  | _ => True

/-- Pins are only undone by their holders; no table is destroyed and no handler frees
entries while they are pinned; no record is claimed while a handler reads it; and no
capability is pinned that a revocation is about to free, or that has as many pins as can
be counted. -/
def SparesPins (p : PinState) : PinAction → Prop
  | .act (.unpin ..) => False
  | .act (.destroy core table) => table.core = core → ∀ c : CapRef, c.table = table → p.pins c = 0
  | .act (.handle core) => ∀ call, p.system.handlers core = some call →
    call.SparesPins p.system.kernel
  | .act (.pin table req) => ∀ c, p.registry.validate table req = .ok c →
    (p.pins c).toNat + 1 < 2 ^ 32 ∧
      ∀ thread call, p.system.calls thread = some (.revoke call) → ¬ call.Drained p.registry c
  | .act a => p.system.ClaimsUnread a
  | .unpin _ => True

/-- A pinned entry stays in use, and a holder takes back no pin but its own. -/
structure PinSafe (p : PinState) (x : PinAction) (p' : PinState) : Prop where
  stays : ∀ c, (p.registry.entry c).inUse = true → p.pins c ≠ 0 →
    (p'.registry.entry c).inUse = true
  unpins : ∀ holder, x = .unpin holder → ∀ c, p'.pins c ≠ p.pins c →
    c = holder.cap ∧ holder.Holds p.registry ∧ (p'.pins c).toNat + 1 = (p.pins c).toNat

end PinState

/-! ## What an action does to pins -/

namespace Registry

/-- The instance in a slot is the same before and after. -/
structure Persists (R R' : Registry) (c : CapRef) : Prop where
  space : R'.cspaceId c.table = R.cspaceId c.table
  used : (R'.entry c).inUse = (R.entry c).inUse
  generation : (R'.entry c).generation = (R.entry c).generation

theorem edit_persists (R : Registry) (c : CapRef) (ed : EntryEdit) (d : CapRef) :
    Persists R (R.edit c ed) d :=
  ⟨by rw [(edit_sameSpaces R c ed).cspaceId], edit_inUse .., edit_generation ..⟩

variable {R R' : Registry}

theorem Persists.visit {c : CapRef} (h : Persists R R' c) {current : BhCapLocator} :
    Kernel.visit R' current = .at c ↔ Kernel.visit R current = .at c := by
  rw [Kernel.visit_at, Kernel.visit_at, resolve_eq_some, resolve_eq_some, locate_eq_some,
    locate_eq_some, h.space, h.used, h.generation]

theorem Persists.holds {holder : PinHolder} (h : Persists R R' holder.cap) (held : holder.Holds R) :
    holder.Holds R' :=
  ⟨h.space.trans held.space, h.used.trans held.used, h.generation.trans held.generation⟩

end Registry

namespace Kernel

open Registry

variable {k k' : Kernel} {licence : Licence}

/-- An action that does not count pins leaves the pins of an entry as they are, unless
it frees or fills the slot. -/
theorem Effect.pins (h : Effect k k' licence) (quiet : licence ≠ .count) (c : CapRef) :
    (k'.registry.entry c).activePins = (k.registry.entry c).activePins ∨
      (k'.registry.entry c).activePins = 0 ∧
        ((k.registry.entry c).inUse = true → licence.frees c) := by
  cases h.turns c with
  | stays _ _ pins => exact .inl (pins.resolve_left quiet)
  | fills free _ _ pins => exact .inr ⟨pins, fun used => by rw [free] at used; cases used⟩
  | frees may _ freed => exact .inr ⟨by rw [freed]; rfl, fun _ => may⟩
  | leaves down _ zero => exact .inr ⟨by rw [zero]; rfl, fun _ => by rw [down]; rfl⟩

/-- An entry in use that an action does not free stays the same capability. -/
theorem Effect.stays (h : Effect k k' licence) {c : CapRef}
    (used : (k.registry.entry c).inUse = true) (spared : ¬ licence.frees c) :
    Persists k.registry k'.registry c := by
  cases h.turns c with
  | stays same generation _ space =>
    refine ⟨space.resolve_right fun none => ?_, same, generation⟩
    obtain ⟨id, home⟩ := cspaceId_of_inUse used
    cases home.symm.trans none
  | fills free => rw [free] at used; cases used
  | frees may => exact absurd may spared
  | leaves down => exact absurd (by rw [down]; rfl) spared

end Kernel

/-! ## Runs -/

namespace PinState

open Registry Kernel

/-- The number of pins held on an entry. -/
def held (p : PinState) (c : CapRef) : Nat := p.holders.countP (·.cap = c)

/-- Every pin count is the number of holders, and what they hold is in place. -/
structure Counted (p : PinState) : Prop where
  count : ∀ c, (p.pins c).toNat = p.held c
  holds : ∀ holder ∈ p.holders, holder.Holds p.registry
  drained : ∀ thread call c, p.system.calls thread = some (.revoke call) →
    call.Drained p.registry c → p.pins c = 0

variable {c : CapRef} {p : PinState}

theorem Counted.used (h : p.Counted) (pinned : p.pins c ≠ 0) :
    (p.registry.entry c).inUse = true := by
  have some : 0 < p.held c := by
    rw [← h.count]
    exact Nat.pos_of_ne_zero fun zero => pinned (BitVec.eq_of_toNat_eq zero)
  obtain ⟨holder, listed, there⟩ := countP_pos_iff.mp some
  have used := (h.holds holder listed).used
  rwa [of_decide_eq_true there] at used

theorem Counted.pinned (h : p.Counted) {holder : PinHolder} (listed : holder ∈ p.holders) :
    p.pins holder.cap ≠ 0 := by
  intro zero
  have count := h.count holder.cap
  rw [zero] at count
  have some : 0 < p.held holder.cap := countP_pos_iff.mpr ⟨holder, listed, by simp⟩
  simp at count
  omega

/-- No entry that an action may free is pinned: a revocation looks at the pins itself,
and the others are asked to. -/
theorem Counted.spares (h : p.Counted) {a : Action} (ok : p.SparesPins (.act a))
    (frees : (p.system.licence a).frees c) : p.pins c = 0 := by
  cases a with
  | destroy core table =>
    simp only [System.licence] at frees
    split at frees
    · rename_i owner; exact ok owner c frees
    · exact frees.elim
  | resume thread expired =>
    simp only [System.licence] at frees
    split at frees
    · rename_i call found
      simp only [RevokeCall.licence] at frees
      split at frees
      · exact frees.2
      · rename_i current onward pinTimedOut pc
        cases pinTimedOut with
        | false => exact h.drained thread call c found ⟨current, onward, pc, frees.1⟩
        | true => exact frees.2 rfl
      · exact frees.elim
    · exact frees.elim
  | handle core =>
    simp only [System.licence] at frees
    split at frees
    · rename_i call found
      have spares := ok call found
      unfold HandlerCall.SparesPins at spares
      simp only [HandlerCall.licence] at frees
      split at frees
      · exact frees.elim
      · rename_i pc
        simp only [pc] at spares
        exact spares c frees
      · rename_i pc
        simp only [pc] at spares
        exact spares c frees.1 frees.2
      · exact frees.elim
    · exact frees.elim
  | _ => exact frees.elim

end PinState

/-! ## The end of a wait -/

def RevokePc.relocks : RevokePc → Bool
  | .relock .. => true
  | _ => false

namespace Kernel

variable {f : RevokeFrame} {current : BhCapLocator}

theorem afterMark_relocks {c : CapRef} {e : CapabilityEntry} :
    (afterMark f c e).relocks = false := by
  unfold afterMark
  split
  · rfl
  · split <;> rfl

theorem climbStep_relocks {R : Registry} : (climbStep R f current).relocks = false := by
  unfold climbStep siblingOrUp
  repeat' split
  all_goals rfl

theorem afterFree_relocks {onward : Onward} : (afterFree f current onward).relocks = false := by
  unfold afterFree
  split
  · rfl
  · split <;> rfl

end Kernel

namespace RevokeCall

open Kernel

variable {call call' : RevokeCall} {k k' : Kernel} {expired : Bool}

theorem relocks_start {core : Core} {ref : TableRef} {capId : BitVec 32}
    (h : k.capTableRevoke core ref capId = (k', .inl call)) : call.pc.relocks = false := by
  unfold capTableRevoke revokeRoot at h
  repeat' split at h
  all_goals cases h
  all_goals
    split <;> rfl

/-- What comes before the section that frees an entry after a wait. -/
theorem relocks_step (h : (call.step expired k).2 = .inl call') (relocks : call'.pc.relocks = true)
    :
    (∃ current onward, call.pc = .drain current onward) ∨ call.pc.relocks = true := by
  obtain ⟨f, pc⟩ := call
  cases pc with
  | drain current onward => exact .inl ⟨current, onward, rfl⟩
  | relock => exact .inr rfl
  | mark | climb | free =>
    simp only [step] at h
    repeat' split at h
    all_goals cases h
    all_goals first
      | cases relocks
      | simp only [afterMark_relocks, climbStep_relocks, afterFree_relocks, reduceCtorEq] at relocks
  | broadcast remaining =>
    cases remaining <;> simp only [step] at h
    · cases h; cases relocks
    · split at h <;> cases h <;> cases relocks
  | _ =>
    simp only [step] at h
    repeat' split at h
    all_goals cases h
    all_goals cases relocks

/-- An entry that a revocation is about to free after a wait was not pinned at the end
of the wait. -/
theorem drained_step {c : CapRef} (next : call.step expired k = (k', .inl call'))
    (h : call'.Drained k'.registry c) :
    (k.registry.entry c).activePins = 0 ∨ call.Drained k.registry c := by
  obtain ⟨f, pc⟩ := call
  obtain ⟨current, onward, pc', found⟩ := h
  have relocks : call'.pc.relocks = true := by rw [pc']; rfl
  rcases relocks_step (by rw [next]) relocks with ⟨current₀, onward₀, rfl⟩ | relocks₀
  · simp only [step] at next
    repeat' split at next
    all_goals cases next
    all_goals cases pc'
    -- the wait ended because the entry has no pins, or is another one by now
    rename_i d place ended
    obtain ⟨there, used, generation⟩ := Registry.resolve_eq_some.mp (visit_at.mp found)
    cases place.symm.trans there
    left
    rcases ended with free | stale | unpinned
    · rw [free] at used; cases used
    · exact absurd generation stale
    · exact unpinned
  · cases pc with
    | relock current₀ onward₀ pinTimedOut =>
      simp only [step] at next
      repeat' split at next
      all_goals cases next
      · exact .inr ⟨current, onward, pc', found⟩
      · cases pc'
      · simp only [afterFree_relocks, reduceCtorEq] at relocks
    | _ => cases relocks₀

end RevokeCall

namespace PinState

open Registry Kernel

variable {a : Action} {p p' : PinState} {s : System} {c : CapRef} {req : CapValidationRequest}

/-- What an action that does not count pins keeps. -/
theorem Counted.act (h : p.Counted) (ok : p.SparesPins (.act a))
    (quiet : p.system.licence a ≠ .count) (step : System.Steps p.system a s) :
    (⟨s, p.holders⟩ : PinState).Counted ∧ ∀ c, p.pins c ≠ 0 → (p.registry.Persists s.kernel.registry c) := by
  have effect := System.step_effect step
  have stays : ∀ c, p.pins c ≠ 0 → p.registry.Persists s.kernel.registry c := fun c pinned =>
    effect.stays (h.used pinned) fun frees => pinned (h.spares ok frees)
  have pins : ∀ c, (s.kernel.registry.entry c).activePins = p.pins c := by
    intro c
    rcases effect.pins quiet c with same | ⟨zero, frees⟩
    · exact same
    by_cases pinned : p.pins c = 0
    · rw [zero, pinned]
    · exact absurd (h.spares ok (frees (h.used pinned))) pinned
  refine ⟨⟨fun c => ?_, fun holder listed => ?_, fun thread call c now drained => ?_⟩, stays⟩
  · exact (congrArg BitVec.toNat (pins c)).trans (h.count c)
  · exact (stays _ (h.pinned listed)).holds (h.holds holder listed)
  · by_contra pinned
    have before : p.pins c ≠ 0 := fun zero => pinned ((pins c).trans zero)
    have visits : ∀ {call}, RevokeCall.Drained s.kernel.registry call c →
        call.Drained p.registry c := fun ⟨current, onward, pc, found⟩ =>
      ⟨current, onward, pc, (stays c before).visit.mp found⟩
    cases (System.step_origin step).1 _ _ now with
    | before was => exact before (h.drained thread call c was (visits drained))
    | revokes start first =>
      obtain ⟨current, onward, pc, -⟩ := drained
      have never := RevokeCall.relocks_start first
      rw [pc] at never
      cases never
    | revoking resumed was next =>
      rcases RevokeCall.drained_step next drained with unpinned | earlier
      · exact before unpinned
      · exact before (h.drained thread _ c was earlier)

/-- A pin is added or taken back, in the count and in the list of holders. -/
theorem Counted.edit (h : p.Counted) {ed : EntryEdit} {holders : List PinHolder}
    (used : (p.registry.entry c).inUse = true)
    (idle : ∀ thread call, p.system.calls thread = some (.revoke call) →
      ¬ call.Drained p.registry c) (holds : ∀ holder ∈ holders, holder.Holds p.registry)
    (self : (ed.apply (p.registry.entry c)).activePins.toNat = holders.countP (·.cap = c))
    (others : ∀ d, d ≠ c → holders.countP (·.cap = d) = p.held d) :
    (⟨p.system.setKernel (p.system.kernel.edit c ed), holders⟩ : PinState).Counted := by
  have entry := edit_entry ed (registered_of_inUse used)
  refine ⟨fun d => ?_, fun holder listed => ?_, fun thread call d now drained => ?_⟩
  · change ((p.registry.edit c ed).entry d).activePins.toNat = _
    rw [entry]
    by_cases hd : d = c
    · subst hd
      rw [update_self]
      exact self
    · rw [update_of_ne hd]
      exact (h.count d).trans (others d hd).symm
  · exact (edit_persists p.registry c ed holder.cap).holds (holds holder listed)
  · obtain ⟨current, onward, pc, found⟩ := drained
    have drained : call.Drained p.registry d :=
      ⟨current, onward, pc, (edit_persists p.registry c ed d).visit.mp found⟩
    have hd : d ≠ c := fun e => idle thread call now (e ▸ drained)
    change ((p.registry.edit c ed).entry d).activePins = 0
    rw [edit_entry_other hd]
    exact h.drained thread call d now drained

theorem validate_inUse {R : Registry} {ref : TableRef} (h : R.validate ref req = .ok c) :
    (R.entry c).inUse = true := by
  unfold validate at h
  split at h
  · cases h
  split at h
  · cases h
  rename_i found
  simp only at h
  repeat' split at h
  all_goals cases h
  exact (findIndex_some found).2.1

theorem Counted.pin (h : p.Counted) {table : TableRef} (ok : p.SparesPins (.act (.pin table req)))
    (step : p.Steps (.act (.pin table req)) p') :
    p'.Counted ∧ ∀ c, (p'.registry.entry c).inUse = (p.registry.entry c).inUse := by
  cases step
  simp only [newHolders, pinHolder, capValidateAndPin]
  cases valid : p.system.kernel.registry.validate table req with
  | error code => exact ⟨h, fun _ => rfl⟩
  | ok c =>
    have used := validate_inUse valid
    obtain ⟨id, home⟩ := cspaceId_of_inUse used
    obtain ⟨room, idle⟩ := ok c valid
    simp only [home, map_some, toList_some, singleton_append]
    refine ⟨h.edit used idle (fun holder listed => ?_) ?_ fun d hd => ?_, fun d => edit_inUse ..⟩
    · rcases mem_cons.mp listed with rfl | old
      · exact ⟨home, used, rfl⟩
      · exact h.holds holder old
    · rw [countP_cons_of_pos (by simp)]
      have count := h.count c
      change (p.pins c + 1).toNat = p.held c + 1
      rw [BitVec.toNat_add, ← count]
      exact Nat.mod_eq_of_lt room
    · exact countP_cons_of_neg (by simpa using Ne.symm hd)

theorem unpin_pinned {k : Kernel} (used : (k.registry.entry c).inUse = true)
    (pinned : (k.registry.entry c).activePins ≠ 0) :
    k.capUnpin c.table c.slot = k.edit c .unpin := by
  simpa [capUnpin, used] using fun zero => absurd zero pinned

/-- A holder takes back its own pin, and the instance it pinned is still there. -/
theorem Counted.unpin (h : p.Counted) {holder : PinHolder} (step : p.Steps (.unpin holder) p') :
    p'.Counted ∧ holder.Holds p.registry ∧
      p'.registry = p.registry.edit holder.cap .unpin ∧
      (p'.pins holder.cap).toNat + 1 = (p.pins holder.cap).toNat := by
  simp only [Steps, PinState.step] at step
  split at step
  · rename_i listed
    cases step
    have holds := h.holds holder listed
    have pinned := h.pinned listed
    have count := h.count holder.cap
    have less : (p.pins holder.cap - 1).toNat + 1 = (p.pins holder.cap).toNat := by
      have : (p.pins holder.cap).toNat ≠ 0 := fun zero => pinned (BitVec.eq_of_toNat_eq zero)
      simp
      omega
    have erased : ∀ c, (p.holders.erase holder).countP (·.cap = c) =
        p.held c - if holder.cap = c then 1 else 0 := fun c => by
      rw [countP_erase, held]
      simp [listed]
    simp only [unpin_pinned holds.used pinned]
    refine ⟨h.edit holds.used (fun thread call now drained => ?_) (fun other kept => ?_) ?_
      fun d hd => ?_, holds, rfl, ?_⟩
    · exact pinned (h.drained thread call _ now drained)
    · exact h.holds other (mem_of_mem_erase kept)
    · rw [erased, if_pos rfl]
      change (p.pins holder.cap - 1).toNat = _
      omega
    · rw [erased, if_neg (Ne.symm hd), Nat.sub_zero]
    · change ((p.registry.edit holder.cap .unpin).entry holder.cap).activePins.toNat + 1 = _
      rw [edit_entry .unpin (registered_of_inUse holds.used), update_self]
      exact less
  · cases step

theorem count_cases (h : s.licence a = .count) :
    (∃ table req, a = .pin table req) ∨ ∃ table slot, a = .unpin table slot := by
  rcases s.licence_cases a with ⟨_, e, _⟩ | ⟨_, _, _, e⟩ | ⟨_, _, _, _, _, _, _, e⟩ | ⟨_, e⟩ | e |
    ⟨_, pins⟩
  case inr.inr.inr.inr.inr => exact pins
  all_goals cases e.symm.trans h

/-- One step keeps the pins counted, and is safe. -/
theorem Counted.step {x : PinAction} (h : p.Counted) (ok : p.SparesPins x) (step : p.Steps x p') :
    p'.Counted ∧ p.PinSafe x p' := by
  cases x with
  | unpin holder =>
    obtain ⟨counted, holds, edited, less⟩ := h.unpin step
    refine ⟨counted, fun c used _ => ?_, fun holder' e c changed => ?_⟩
    · rw [edited, edit_inUse]
      exact used
    · cases e
      by_cases own : c = holder.cap
      · subst own
        exact ⟨rfl, holds, less⟩
      refine absurd ?_ changed
      unfold pins
      rw [edited, edit_entry_other own]
  | act a =>
    by_cases counts : p.system.licence a = .count
    · rcases count_cases counts with ⟨table, req, rfl⟩ | ⟨table, slot, rfl⟩
      · obtain ⟨counted, same⟩ := h.pin ok step
        exact ⟨counted, fun c used _ => (same c).trans used, fun _ e => by cases e⟩
      · exact ok.elim
    obtain ⟨⟨s, event⟩, taken, rfl⟩ := map_eq_some_iff.mp step
    have none : newHolders p.system a = [] := by
      cases a with
      | pin => exact absurd rfl counts
      | _ => rfl
    obtain ⟨counted, stays⟩ := h.act ok counts ⟨event, taken⟩
    rw [none, nil_append]
    exact ⟨counted, fun c used pinned => (stays c pinned).used.trans used, fun _ e => by cases e⟩

theorem counted_of_run {bound : Core → Bool} {pmmInitialized : Bool}
    (run : Run Steps SparesPins (boot bound pmmInitialized) p) : p.Counted :=
  run.invariant Counted ⟨fun _ => rfl, fun _ h => (by cases h), fun _ _ _ h => (by cases h)⟩
    fun _ _ _ counted ok step => (counted.step ok step).1

/-- In every run that spares the pins where the code does not look at them, no step
frees a pinned entry, and a holder takes back no pin but its own. -/
theorem pinned_never_freed {bound : Core → Bool} {pmmInitialized : Bool} {p p' : PinState}
    {x : PinAction} (run : Run Steps SparesPins (boot bound pmmInitialized) p)
    (ok : p.SparesPins x) (step : p.Steps x p') : p.PinSafe x p' :=
  ((counted_of_run run).step ok step).2

/-- Pin a memory capability in order to map it. -/
def pinMemory (table : TableRef) (capId : BitVec 32) : PinAction :=
  .act (.pin table ⟨capId, .memory, capRightMemoryMap, 0, 0⟩)

/-- A revocation waits for a pin, and the holder takes the pin back. -/
theorem pinned_never_freed_drain : ∃ p p' holder,
    Run Steps SparesPins (boot (fun _ => true) false) p ∧ p.SparesPins (.unpin holder) ∧
      p.Steps (.unpin holder) p' ∧ p.pins ⟨⟨0, 0⟩, 0⟩ = 1 ∧ p'.pins ⟨⟨0, 0⟩, 0⟩ = 0 ∧
      p.PinSafe (.unpin holder) p' := by
  obtain ⟨p, first, p₁, second, begun, revoked, p₂, third, pinned, p₃, fourth, taken⟩ :
      ∃ p, exec step (boot (fun _ => true) false) (List.map .act [.create 0 true,
        .grant 0 ⟨0, 0⟩ .memory 0 capRightMemoryMap]) = some p ∧
      ∃ p₁, p.step (pinMemory ⟨0, 0⟩ 0x10001) = some p₁ ∧
      ∃ begun, p₁.step (.act (.revoke 0 0 ⟨0, 0⟩ 0x10001)) = some begun ∧
      ∃ p₂, exec step begun (List.map .act (replicate 5 (.resume 0 false))) = some p₂ ∧
        p₂.pins ⟨⟨0, 0⟩, 0⟩ = 1 ∧
      ∃ p₃, p₂.step (.unpin ⟨⟨⟨0, 0⟩, 0⟩, capCspaceIdMake 0 0 1, 1⟩) = some p₃ ∧
        p₃.pins ⟨⟨0, 0⟩, 0⟩ = 0 := by decide +kernel
  have run : Run Steps SparesPins _ p := exec_run (by simp [SparesPins, System.ClaimsUnread]) first
  have fresh : p.system.calls = (fun _ => none) ∧ p.holders = [] := by
    rw [← some.inj first]
    exact ⟨rfl, rfl⟩
  have idle : p₁.system.handlers = fun _ => none := by
    rw [← some.inj second, ← some.inj first]
    rfl
  have room : p.SparesPins (pinMemory ⟨0, 0⟩ 0x10001) := by
    intro c _
    refine ⟨?_, fun thread call now => by rw [fresh.1] at now; cases now⟩
    rw [(counted_of_run run).count, held, fresh.2]
    simp
  have unread : p₁.SparesPins (.act (.revoke 0 0 ⟨0, 0⟩ 0x10001)) := by
    simp only [SparesPins]
    exact System.claimsUnread_of_idle idle
  have run₂ : Run Steps SparesPins _ p₂ := (Run.tail (.tail run room second) unread revoked).trans
    (exec_run (by simp [SparesPins, System.ClaimsUnread]) third)
  exact ⟨p₂, p₃, _, run₂, trivial, fourth, pinned, taken, pinned_never_freed run₂ trivial fourth⟩

/-- Core 1 pins a capability that core 0 has delegated to it. Core 0 does not wait for
the acknowledgement and asks for the capability back. -/
def pinsOffered : List PinAction :=
  List.map .act [.create 0 true, .create 1 true,
    .grant 0 ⟨0, 0⟩ .memory 0 (capRightMemoryMap ||| capRightDelegate),
    .delegate 0 0 ⟨0, 0⟩ ⟨1, 0⟩ 0x10001 capRightMemoryMap, .resume 0 false, .resume 0 false,
    .receive 1] ++ replicate 15 (.act (.handle 1)) ++ [pinMemory ⟨1, 0⟩ 0x10001] ++
  List.map .act [.resume 0 true, .resume 0 true, .resume 0 true, .receive 1] ++
  replicate 10 (.act (.handle 1))

/-- The table of core 1 is filled, and the first slot is pinned once more. -/
def pinsAgain : List PinAction :=
  List.map .act (replicate 64 (.grant 1 ⟨1, 0⟩ .memory 0 capRightMemoryMap)) ++
    [pinMemory ⟨1, 0⟩ 0x30001]

/-- The rollback frees the pinned entry; when the slot has been filled again, the
holder takes back the pin of another capability. -/
theorem pinned_freed : ∃ p p₁ p₂ p₃ holder,
    Run Steps HoldersUnpin (boot (fun _ => true) false) p ∧ p.Steps (.act (.handle 1)) p₁ ∧
    (p.registry.entry ⟨⟨1, 0⟩, 0⟩).inUse = true ∧ p.pins ⟨⟨1, 0⟩, 0⟩ = 1 ∧
    (p₁.registry.entry ⟨⟨1, 0⟩, 0⟩).inUse = false ∧
    Run Steps HoldersUnpin p₁ p₂ ∧ p₂.Steps (.unpin holder) p₃ ∧
    p₂.pins holder.cap = 1 ∧ p₃.pins holder.cap = 0 ∧ ¬ holder.Holds p₂.registry := by
  obtain ⟨p, first, used, pinned, p₁, second, freed, p₂, third, again, newer, p₃, fourth, taken⟩ :
      ∃ p, exec step (boot (fun _ => true) false) pinsOffered = some p ∧
        (p.registry.entry ⟨⟨1, 0⟩, 0⟩).inUse = true ∧ p.pins ⟨⟨1, 0⟩, 0⟩ = 1 ∧
      ∃ p₁, p.step (.act (.handle 1)) = some p₁ ∧ (p₁.registry.entry ⟨⟨1, 0⟩, 0⟩).inUse = false ∧
      ∃ p₂, exec step p₁ pinsAgain = some p₂ ∧ p₂.pins ⟨⟨1, 0⟩, 0⟩ = 1 ∧
        (p₂.registry.entry ⟨⟨1, 0⟩, 0⟩).generation ≠ 1 ∧
      ∃ p₃, p₂.step (.unpin ⟨⟨⟨1, 0⟩, 0⟩, capCspaceIdMake 1 0 1, 1⟩) = some p₃ ∧
        p₃.pins ⟨⟨1, 0⟩, 0⟩ = 0 := by decide +kernel
  have run : Run Steps HoldersUnpin _ p :=
    exec_run (by simp [pinsOffered, pinMemory, HoldersUnpin]) first
  have run₂ : Run Steps HoldersUnpin _ p₂ :=
    exec_run (by simp [pinsAgain, pinMemory, HoldersUnpin]) third
  exact ⟨p, p₁, p₂, p₃, _, run, second, used, pinned, freed, run₂, fourth, again, taken,
    fun holds => newer holds.generation⟩

end PinState

end BharatOS
