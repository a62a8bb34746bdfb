import BharatOS.Cap.Registry
import BharatOS.Lib.Runs
import BharatOS.Lib.Sections

/-!
# The lifetime of a CSpace (`cap_table_create`, `cap_table_destroy`)

A creation holds the owner core's lifetime lock up to three times, and others may create and
destroy tables in between. No CSpace id is ever given out twice.
-/

namespace BharatOS

open Function Option List

/-- What comes next in a creation. -/
inductive CreatePc where
  | allocate
  | claimBootstrap
  | publish (bootstrapStorage : Bool)
  | giveUp
  deriving DecidableEq, Repr

/-- A creation that has reserved a position, with the generation it read there. -/
structure CreateCall where
  position : TableRef
  generation : Nat
  pc : CreatePc
  deriving DecidableEq, Repr

namespace CreateCall

/-- The id that the creation writes into its table. -/
def cspaceId (call : CreateCall) : BitVec 32 :=
  capCspaceIdMake call.position.core call.position.cspace call.generation

/-- One section of a creation; `kmalloc` says whether the allocation succeeds. -/
def step (kmalloc : Bool) : Sections Registry CreateCall (Option CSpaceSlot) := fun R call =>
  match call.pc with
  | .allocate =>
    (R, .inl { call with pc := if kmalloc then .publish false else .claimBootstrap })
  | .claimBootstrap =>
    if R.bootstrapUsed call.position.core then (R, .inl { call with pc := .giveUp })
    else (R.takeBootstrap call.position.core, .inl { call with pc := .publish true })
  | .publish bootstrapStorage =>
    (R.publish call.position bootstrapStorage, .inr (some call.position.cspace))
  | .giveUp => (R.unreserve call.position, .inr none)

end CreateCall

namespace Registry

/-- The first section of `cap_table_create`. -/
def beginCreate (R : Registry) (core : Core) : Registry × (CreateCall ⊕ Option CSpaceSlot) :=
  match R.reserve core with
  | none => (R, .inr none)
  | some (slot, reserved) =>
    (reserved, .inl ⟨⟨core, slot⟩, (reserved.slots ⟨core, slot⟩).generation, .allocate⟩)

/-- With nothing in between, the sections add up to `create`. -/
theorem create_alone {R : Registry} {core : Core} {kmalloc : Bool} :
    Sections.Finishes (CreateCall.step kmalloc) (R.beginCreate core)
      (R.create core kmalloc).1 (R.create core kmalloc).2 := by
  unfold beginCreate create
  cases R.reserve core with
  | none => exact ⟨rfl, rfl⟩
  | some pair =>
    obtain ⟨slot, reserved⟩ := pair
    cases kmalloc with
    | true => exact ⟨2, rfl⟩
    | false =>
      cases used : reserved.bootstrapUsed core with
      | true | false => exact ⟨3, by simp [Sections.run, CreateCall.step, used]⟩

end Registry

/-- The registry, the creations that threads are in and every id that a creation has
handed out. -/
structure CSpaces where
  registry : Registry
  creating : Nat → Option CreateCall
  issued : List (BitVec 32)

inductive LifetimeAction where
  | create (thread : Nat) (core : Core)
  | resume (thread : Nat) (kmalloc : Bool)
  | destroy (core : Core) (table : TableRef)
  deriving DecidableEq, Repr

/-- The owner core destroys the table; any other core is turned away. -/
def LifetimeAction.unregisters (ref : TableRef) : LifetimeAction → Bool
  | .destroy core table => core == ref.core && table == ref
  | _ => false

namespace CSpaces

def boot : CSpaces := ⟨.empty, fun _ => none, []⟩

def setCall (s : CSpaces) (R : Registry) (thread : Nat) (call : Option CreateCall) : CSpaces :=
  { s with registry := R, creating := update s.creating thread call }

/-- The creation returns; the id of the table it returns has been issued. -/
def finish (s : CSpaces) (R : Registry) (thread : Nat) (call : CreateCall)
    (result : Option CSpaceSlot) : CSpaces :=
  { s.setCall R thread none with
    issued := if result.isSome then call.cspaceId :: s.issued else s.issued }

def step (s : CSpaces) : LifetimeAction → Option CSpaces
  | .create thread core =>
    if (s.creating thread).isSome then none
    else
      match s.registry.beginCreate core with
      | (R, .inl call) => some (s.setCall R thread (some call))
      | (R, .inr _) => some { s with registry := R }
  | .resume thread kmalloc =>
    match s.creating thread with
    | none => none
    | some call =>
      match call.step kmalloc s.registry with
      | (R, .inl call') => some (s.setCall R thread (some call'))
      | (R, .inr result) => some (s.finish R thread call result)
  | .destroy core table =>
    if (s.registry.table table).isNone ∨ table.core ≠ core then some s
    else some { s with registry := s.registry.destroy table }

/-- The id belongs to a position that has moved past it, or that still has it. -/
def Spent (R : Registry) (id : BitVec 32) : Prop :=
  ∃ ref generation, id = capCspaceIdMake ref.core ref.cspace generation ∧
    generation ≤ (R.slots ref).generation ∧
    ((R.slots ref).reserved = true → generation < (R.slots ref).generation)

/-- A creation holds its position alone, and what was issued stays issued. -/
structure Orderly (s : CSpaces) : Prop where
  held : ∀ thread call, s.creating thread = some call →
    (s.registry.slots call.position).table = none ∧
      (s.registry.slots call.position).reserved = true ∧
      (s.registry.slots call.position).generation = call.generation
  apart : ∀ thread thread' call call', s.creating thread = some call →
    s.creating thread' = some call' → call.position = call'.position → thread = thread'
  spent : ∀ id ∈ s.issued, Spent s.registry id
  known : ∀ ref id, s.registry.cspaceId ref = some id → id ∈ s.issued
  nodup : s.issued.Nodup

theorem orderly_boot : Orderly boot where
  held := fun _ _ h => by cases h
  apart := fun _ _ _ _ h => by cases h
  spent := fun _ h => by cases h
  known := fun _ _ h => by cases h
  nodup := .nil

variable {R R' : Registry} {id : BitVec 32} {ref : TableRef} {a : LifetimeAction}
  {ok : CSpaces → LifetimeAction → Prop}

theorem Spent.nonzero (h : Spent R id) : id ≠ 0 := by
  obtain ⟨ref, generation, rfl, bound, -⟩ := h
  exact Registry.capCspaceIdMake_pos ref (bound.trans (R.bounded ref))

/-- A reserved position carries a generation that no issued id has. -/
theorem not_spent_reserved (reserved : (R.slots ref).reserved = true) :
    ¬ Spent R (capCspaceIdMake ref.core ref.cspace (R.slots ref).generation) := by
  rintro ⟨ref', generation, same, bound, older⟩
  obtain ⟨rfl, rfl⟩ := Registry.capCspaceIdMake_inj (R.bounded ref)
    (bound.trans (R.bounded ref')) same
  exact absurd (older reserved) (lt_irrefl _)

/-- One position's generation may grow; it has to when the position becomes reserved. -/
theorem Spent.update {entry : BhCapCspaceRegistryEntry} (h : Spent R id)
    (slots : R'.slots = update R.slots ref entry)
    (grows : (R.slots ref).generation ≤ entry.generation) (reserves : entry.reserved = true →
      (R.slots ref).generation < entry.generation ∨
        (R.slots ref).reserved = true) : Spent R' id := by
  obtain ⟨at', generation, rfl, bound, older⟩ := h
  refine ⟨at', generation, rfl, ?_⟩
  by_cases same : at' = ref
  · subst same
    rw [slots, update_self]
    refine ⟨bound.trans grows, fun reserved => ?_⟩
    rcases reserves reserved with newer | was
    · exact bound.trans_lt newer
    · exact (older was).trans_le grows
  · rw [slots, update_of_ne same]
    exact ⟨bound, older⟩

theorem cspaceId_of_slots (h : (R'.slots ref).table = (R.slots ref).table) :
    R'.cspaceId ref = R.cspaceId ref := by
  unfold Registry.cspaceId Registry.table
  rw [h]

/-! ## What a step does to the ids in force -/

inductive Renames (s : CSpaces) (a : LifetimeAction) (s' : CSpaces) : Prop
  | same (ids : s'.registry.cspaceId = s.registry.cspaceId) (issued : s'.issued = s.issued)
  | issues (ref : TableRef) (id : BitVec 32) (vacant : s.registry.cspaceId ref = none)
      (ids : s'.registry.cspaceId = update s.registry.cspaceId ref (some id))
      (fresh : id ∉ s.issued) (issued : s'.issued = id :: s.issued)
  | retires (ref : TableRef) (destroyed : a.unregisters ref = true)
      (ids : s'.registry.cspaceId = update s.registry.cspaceId ref none)
      (issued : s'.issued = s.issued)

variable {s s' : CSpaces}

namespace Renames

variable (renames : Renames s a s') (h : Orderly s)

include renames h

theorem known (ref : TableRef) (id : BitVec 32) (now : s'.registry.cspaceId ref = some id) :
    id ∈ s'.issued := by
  cases renames with
  | same ids issued =>
    rw [issued]
    exact h.known ref id (ids ▸ now)
  | issues _ _ _ ids _ issued =>
    rw [ids, update_apply] at now
    rw [issued]
    split_ifs at now
    · exact mem_cons.mpr (.inl (some.inj now).symm)
    · exact mem_cons_of_mem _ (h.known ref id now)
  | retires _ _ ids issued =>
    rw [ids, update_apply] at now
    rw [issued]
    split_ifs at now
    exact h.known ref id now

theorem nodup : s'.issued.Nodup := by
  cases renames with
  | same _ issued | retires _ _ _ issued => rw [issued]; exact h.nodup
  | issues _ _ _ _ fresh issued => rw [issued]; exact nodup_cons.mpr ⟨fresh, h.nodup⟩

end Renames

namespace Orderly

variable {R : Registry} {thread : Nat} {call : CreateCall} (h : Orderly s)

include h

variable {ref : TableRef}

/-- Positions that no creation holds may change under the creations in progress. -/
theorem frame {entry : BhCapCspaceRegistryEntry}
    (slots : R.slots = update s.registry.slots ref entry) (now : s.creating thread = some call)
    (other : call.position ≠ ref) :
    (R.slots call.position).table = none ∧ (R.slots call.position).reserved = true ∧
      (R.slots call.position).generation = call.generation := by
  rw [slots, update_of_ne other]
  exact h.held thread call now

/-- A new creation takes a position that no other one holds. -/
theorem reserves {core : Core} {i : CSpaceSlot}
    (taken : s.registry.reserve core = some (i, R)) (position : call.position = ⟨core, i⟩)
    (generation : call.generation = (R.slots ⟨core, i⟩).generation) :
    Renames s a (s.setCall R thread (some call)) ∧ Orderly (s.setCall R thread (some call)) := by
  have renames : Renames s a (s.setCall R thread (some call)) := by
    refine .same (funext fun ref => ?_) rfl
    simp only [setCall, Registry.cspaceId, (Registry.reserve_some taken).2.1]
  obtain ⟨vacant, unreserved, slots⟩ := Registry.reserve_slots taken
  have cases_of : ∀ {other : Nat} {c : CreateCall},
      (s.setCall R thread (some call)).creating other = some c →
      other = thread ∧ c = call ∨ s.creating other = some c ∧ c.position ≠ ⟨core, i⟩ := by
    intro other c now
    by_cases same : other = thread
    · subst same
      exact .inl ⟨rfl, by simpa [setCall, eq_comm] using now⟩
    have was : s.creating other = some c := by simpa [setCall, same] using now
    refine .inr ⟨was, fun clash => ?_⟩
    have reserved := (h.held other c was).2.1
    rw [clash, unreserved] at reserved
    cases reserved
  refine ⟨renames, ?_, ?_, ?_, renames.known h, h.nodup⟩
  · intro other c now
    rcases cases_of now with ⟨-, rfl⟩ | ⟨was, free⟩
    · rw [generation, position]
      simp [setCall, slots, vacant]
    · exact h.frame slots was free
  · intro one two c c' now now' same
    rcases cases_of now with ⟨rfl, rfl⟩ | ⟨was, free⟩ <;>
      rcases cases_of now' with ⟨rfl, rfl⟩ | ⟨was', free'⟩
    · rfl
    · exact absurd (same.symm.trans position) free'
    · exact absurd (same.trans position) free
    · exact h.apart one two c c' was was' same
  · intro id issued
    exact (h.spent id issued).update slots (Nat.le_succ _) fun _ => .inl (Nat.lt_succ_self _)

section

variable (was : s.creating thread = some call)

include was

/-- A creation that goes on keeps its position and its generation. -/
theorem goesOn {call' : CreateCall}
    (slots : R.slots = s.registry.slots) (position : call'.position = call.position)
    (generation : call'.generation = call.generation) :
    Renames s a (s.setCall R thread (some call')) ∧ Orderly (s.setCall R thread (some call')) := by
  have renames : Renames s a (s.setCall R thread (some call')) :=
    .same (funext fun ref => cspaceId_of_slots (by simp [setCall, slots])) rfl
  have from_old : ∀ {other : Nat} {c : CreateCall},
      (s.setCall R thread (some call')).creating other = some c →
      ∃ c₀, s.creating other = some c₀ ∧ c.position = c₀.position ∧
        c.generation = c₀.generation := by
    intro other c now
    by_cases same : other = thread
    · subst same
      obtain rfl : call' = c := by simpa [setCall] using now
      exact ⟨call, was, position, generation⟩
    · exact ⟨c, by simpa [setCall, same] using now, rfl, rfl⟩
  refine ⟨renames, ?_, ?_, ?_, renames.known h, h.nodup⟩
  · intro other c now
    obtain ⟨c₀, old, place, value⟩ := from_old now
    simp only [setCall, slots, place, value]
    exact h.held other c₀ old
  · intro one two c c' now now' same
    obtain ⟨c₀, old, place, -⟩ := from_old now
    obtain ⟨c₀', old', place', -⟩ := from_old now'
    exact h.apart one two c₀ c₀' old old' (place ▸ place' ▸ same)
  · intro id issued
    obtain ⟨ref, g, e, bound, older⟩ := h.spent id issued
    exact ⟨ref, g, e, by simpa [setCall, slots] using ⟨bound, older⟩⟩

/-- A creation that ends leaves the other creations as they are. -/
theorem others_held {entry : BhCapCspaceRegistryEntry}
    (slots : R.slots = update s.registry.slots call.position entry) {other : Nat}
    {c : CreateCall} (now : update s.creating thread none other = some c) :
    s.creating other = some c ∧ (R.slots c.position).table = none ∧
      (R.slots c.position).reserved = true ∧ (R.slots c.position).generation = c.generation := by
  have ne : other ≠ thread := by
    rintro rfl
    simp at now
  rw [update_of_ne ne] at now
  exact ⟨now, h.frame slots now fun same => ne (h.apart _ _ _ _ now was same)⟩

theorem givesUp : Renames s a (s.finish (s.registry.unreserve call.position) thread call none) ∧
    Orderly (s.finish (s.registry.unreserve call.position) thread call none) := by
  have slots : (s.registry.unreserve call.position).slots = update s.registry.slots call.position
        { s.registry.slots call.position with reserved := false } := rfl
  have renames : Renames s a
      (s.finish (s.registry.unreserve call.position) thread call none) := by
    refine .same (funext fun ref => cspaceId_of_slots ?_) rfl
    by_cases same : ref = call.position
    · subst same; simp [finish, setCall, Registry.unreserve]
    · simp [finish, setCall, Registry.unreserve, same]
  refine ⟨renames, fun other c now => (h.others_held was slots now).2, ?_, ?_, renames.known h,
    h.nodup⟩
  · intro one two c c' now now' same
    exact h.apart one two c c' (h.others_held was slots now).1 (h.others_held was slots now').1
      same
  · intro id issued
    exact (h.spent id issued).update slots le_rfl fun e => by cases e

/-- The id a creation issues is the one in its table, and nobody was given it before. -/
theorem publishes (bootstrapStorage : Bool) (slot : CSpaceSlot) :
    Renames s a (s.finish (s.registry.publish call.position bootstrapStorage) thread call
      (some slot)) ∧ Orderly (s.finish (s.registry.publish call.position bootstrapStorage) thread
        call (some slot)) := by
  obtain ⟨vacant, reserved, generation⟩ := h.held thread call was
  have slots : (s.registry.publish call.position bootstrapStorage).slots =
      update s.registry.slots call.position
        { table := some (.create call.cspaceId call.position.core call.position.cspace)
          generation := (s.registry.slots call.position).generation
          usesBootstrapStorage := bootstrapStorage
          reserved := false } := by
    rw [CreateCall.cspaceId, ← generation]
    rfl
  have renames : Renames s a
      (s.finish (s.registry.publish call.position bootstrapStorage) thread call (some slot)) := by
    refine .issues call.position call.cspaceId ?_ ?_ ?_ rfl
    · simp [Registry.cspaceId, Registry.table, vacant]
    · funext ref
      by_cases same : ref = call.position
      · subst same
        simp [finish, setCall, Registry.cspaceId, Registry.table, slots, CapabilityTable.create]
      · rw [update_of_ne same]
        exact cspaceId_of_slots (by simp [finish, setCall, slots, same])
    · intro known
      rw [CreateCall.cspaceId, ← generation] at known
      exact not_spent_reserved reserved (h.spent _ known)
  refine ⟨renames, fun other c now => (h.others_held was slots now).2, ?_, ?_, renames.known h,
    renames.nodup h⟩
  · intro one two c c' now now' same
    exact h.apart one two c c' (h.others_held was slots now).1 (h.others_held was slots now').1
      same
  · intro id issued
    rcases mem_cons.mp issued with rfl | before
    · refine ⟨call.position, call.generation, rfl, ?_⟩
      simp [finish, setCall, slots, generation]
    · exact (h.spent id before).update slots le_rfl fun e => by cases e
end

theorem destroys (registered : (s.registry.table ref).isSome = true)
    (destroyed : a.unregisters ref = true) :
    Renames s a { s with registry := s.registry.destroy ref } ∧
      Orderly { s with registry := s.registry.destroy ref } := by
  have renames : Renames s a { s with registry := s.registry.destroy ref } :=
    .retires ref destroyed Registry.destroy_cspaceId rfl
  refine ⟨renames, ?_, h.apart, ?_, renames.known h, h.nodup⟩
  · intro thread call now
    refine h.frame rfl now fun same => ?_
    have vacant := (h.held thread call now).1
    rw [same] at vacant
    simp [Registry.table, vacant] at registered
  · intro id issued
    exact (h.spent id issued).update rfl le_rfl fun reserved => .inr reserved

theorem step (now : s.step a = some s') : Renames s a s' ∧ Orderly s' := by
  cases a with
  | create thread core =>
    simp only [CSpaces.step, Registry.beginCreate] at now
    split at now
    · cases now
    cases taken : s.registry.reserve core with
    | none => rw [taken] at now; cases now; exact ⟨.same rfl rfl, h⟩
    | some pair =>
      rw [taken] at now
      cases now
      exact h.reserves taken rfl rfl
  | resume thread kmalloc =>
    simp only [CSpaces.step] at now
    split at now
    · cases now
    rename_i call was
    obtain ⟨position, generation, pc⟩ := call
    cases pc with
    | allocate => cases now; exact h.goesOn was rfl rfl rfl
    | claimBootstrap =>
      simp only [CreateCall.step] at now
      by_cases used : s.registry.bootstrapUsed position.core = true
      · rw [if_pos used] at now
        cases now
        exact h.goesOn was rfl rfl rfl
      rw [if_neg used] at now
      cases now
      exact h.goesOn was rfl rfl rfl
    | publish => cases now; exact h.publishes was _ _
    | giveUp => cases now; exact h.givesUp was
  | destroy core table =>
    simp only [CSpaces.step] at now
    split at now
    · cases now; exact ⟨.same rfl rfl, h⟩
    rename_i there
    cases now
    simp only [not_or, isNone_iff_eq_none, not_not] at there
    exact h.destroys (isSome_iff_ne_none.mpr there.1)
      (by simp [LifetimeAction.unregisters, there.2])

end Orderly

abbrev Steps (s : CSpaces) (a : LifetimeAction) (s' : CSpaces) : Prop := s.step a = some s'

section

variable (h : Orderly s)

include h

theorem orderly_of_run (run : Run Steps ok s s') : Orderly s' :=
  run.invariant Orderly h fun _ _ _ orderly _ now => (orderly.step now).2

/-- A table keeps its id until it is destroyed. -/
theorem cspaceId_of_run (named : s.registry.cspaceId ref = some id)
    (run : Run Steps (fun _ a => a.unregisters ref = false) s s') :
    s'.registry.cspaceId ref = some id := by
  refine (run.invariant (fun t => Orderly t ∧ t.registry.cspaceId ref = some id) ⟨h, named⟩ ?_).2
  intro t a u keeps spared now
  obtain ⟨renames, orderly⟩ := keeps.1.step now
  refine ⟨orderly, ?_⟩
  cases renames with
  | same ids => rw [ids]; exact keeps.2
  | issues at' _ vacant ids =>
    rw [ids, update_of_ne, keeps.2]
    rintro rfl
    rw [keeps.2] at vacant
    cases vacant
  | retires at' destroyed ids =>
    rw [ids, update_of_ne, keeps.2]
    rintro rfl
    rw [destroyed] at spared
    cases spared

/-- An id that was issued and is not in force never comes back. -/
theorem retired_of_run (issued : id ∈ s.issued)
    (absent : ∀ ref, s.registry.cspaceId ref ≠ some id) (run : Run Steps ok s s') (ref : TableRef) :
    s'.registry.cspaceId ref ≠ some id := by
  refine (run.invariant (fun t => Orderly t ∧ id ∈ t.issued ∧
    ∀ ref, t.registry.cspaceId ref ≠ some id) ⟨h, issued, absent⟩ ?_).2.2 ref
  rintro t a u ⟨orderly, known, gone⟩ - now
  obtain ⟨renames, orderly⟩ := orderly.step now
  refine ⟨orderly, ?_⟩
  cases renames with
  | same ids log => rw [ids, log]; exact ⟨known, gone⟩
  | issues at' fresh' _ ids fresh log =>
    rw [ids, log]
    refine ⟨mem_cons_of_mem _ known, fun r => ?_⟩
    by_cases same : r = at'
    · subst same
      rw [update_self]
      rintro back
      exact fresh (some.inj back ▸ known)
    · rw [update_of_ne same]
      exact gone r
  | retires at' _ ids log =>
    rw [ids, log]
    refine ⟨known, fun r => ?_⟩
    by_cases same : r = at'
    · subst same; simp
    rw [update_of_ne same]
    exact gone r

end

/-- The table is gone after the owner core has destroyed it. -/
theorem destroy_absent (named : s.registry.cspaceId ref = some id)
    (destroyed : a.unregisters ref = true) (now : s.step a = some s') :
    s'.issued = s.issued ∧ ∀ r, s'.registry.cspaceId r ≠ some id := by
  cases a with
  | create | resume => cases destroyed
  | destroy core table =>
    simp only [LifetimeAction.unregisters, Bool.and_eq_true, beq_iff_eq] at destroyed
    obtain ⟨rfl, rfl⟩ := destroyed
    have there := (Registry.cspaceId_eq_some.mp named).1
    simp only [step] at now
    rw [if_neg (by simp [isSome_iff_ne_none.mp there])] at now
    cases now
    refine ⟨rfl, fun r back => ?_⟩
    rw [Registry.destroy_cspaceId] at back
    by_cases same : r = table
    · subst same; simp at back
    rw [update_of_ne same] at back
    exact same (Registry.cspaceId_inj back named)

theorem locatorMake_names {slot : Nat} {generation revocationEpoch : BitVec 32}
    (registered : (R.table ref).isSome = true) (inside : slot < 64) :
    R.cspaceId ref = some (R.locatorMake ref slot generation revocationEpoch).cspaceId ∧
      (R.locatorMake ref slot generation revocationEpoch).ownerCore = ref.core := by
  obtain ⟨t, found⟩ := isSome_iff_exists.mp registered
  simp only [Registry.locatorMake, Registry.cspaceId, found, if_pos inside, map_some]
  exact ⟨trivial, congrArg Fin.val (Registry.named_of_table found).2.1⟩

/-- Over every run of creations and destructions: the ids handed out are pairwise
distinct and not zero, every registered table has one of them, and a locator made from
a table resolves to that table until the table is destroyed and to none afterwards. -/
theorem cspace_ids_never_reused {s : CSpaces} (run : Run Steps (fun _ _ => True) boot s) :
    s.issued.Nodup ∧ 0 ∉ s.issued ∧ (∀ ref id, s.registry.cspaceId ref = some id → id ∈ s.issued) ∧
      ∀ ref slot generation revocationEpoch, (s.registry.table ref).isSome = true → slot < 64 →
        ∀ s₁, Run Steps (fun _ a => a.unregisters ref = false) s s₁ →
          s₁.registry.cspaceId ref = s.registry.cspaceId ref ∧ s₁.registry.capLocatorResolveTable
            (s.registry.locatorMake ref slot generation revocationEpoch) = some ref ∧
          ∀ a s₂ s₃, a.unregisters ref = true → Steps s₁ a s₂ → Run Steps (fun _ _ => True) s₂ s₃ →
            s₃.registry.capLocatorResolveTable
              (s.registry.locatorMake ref slot generation revocationEpoch) = none := by
  have orderly := orderly_of_run orderly_boot run
  refine ⟨orderly.nodup, fun zero => (orderly.spent 0 zero).nonzero rfl, orderly.known, ?_⟩
  intro ref slot generation revocationEpoch registered inside s₁ kept
  obtain ⟨named, core⟩ := locatorMake_names registered inside
  have still := cspaceId_of_run orderly named kept
  have orderly₁ := orderly_of_run orderly kept
  refine ⟨still.trans named.symm, Registry.resolveTable_eq_some.mpr ⟨still, core⟩, ?_⟩
  intro a s₂ s₃ destroyed now later
  obtain ⟨log, absent⟩ := destroy_absent still destroyed now
  have gone := retired_of_run (orderly₁.step now).2 (log ▸ orderly₁.known ref _ still) absent later
  cases back : s₃.registry.capLocatorResolveTable
      (s.registry.locatorMake ref slot generation revocationEpoch) with
  | none => rfl
  | some r => exact absurd (Registry.resolveTable_eq_some.mp back).1 (gone r)

/-- Two creations of one core overlap, the second gets the bootstrap storage, a third
finds none, and the first table is destroyed. -/
theorem cspace_ids_never_reused_overlap :
    ∃ s, exec step boot [.create 0 0, .create 1 0, .resume 0 true, .resume 1 false, .resume 1 false,
        .resume 1 false, .resume 0 true, .create 2 0, .resume 2 false, .resume 2 false,
        .resume 2 false, .destroy 0 ⟨0, 0⟩, .create 3 0, .resume 3 true, .resume 3 true] =
        some s ∧ s.issued = [0x2001, 0x1001, 0x1002] ∧ s.issued.Nodup := by
  refine ⟨_, (Option.some_get (by decide +kernel)).symm, by decide +kernel, ?_⟩
  exact (cspace_ids_never_reused (run_of_exec (Option.some_get _).symm)).1

end CSpaces

end BharatOS
