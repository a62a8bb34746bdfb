import BharatOS.Cap.RevokeScope
import BharatOS.Lib.Runs

/-!
# Runs of one core

The calls that one core makes one after the other, and what holds between them.
Revocation is complete in every run that destroys a table only when nothing
outside hangs on it.
-/

namespace BharatOS

open Option

inductive LocalOp where
  | create (kmalloc : Bool)
  | destroy (table : TableRef)
  | grant (table : TableRef) (type : CapType) (objectRef : BitVec 64) (rights : CapRightsMask)
  | delegate (src dst : TableRef) (capId : BitVec 32) (rights : CapRightsMask)
  | revoke (table : TableRef) (capId : BitVec 32)

namespace Kernel

/-- One call of `core`; a delegation stays on the core. -/
inductive LocalStep (core : Core) : Kernel → LocalOp → Kernel → Prop
  | create (k : Kernel) (kmalloc : Bool) :
      LocalStep core k (.create kmalloc) (k.capTableCreate core kmalloc).1
  | destroy (k : Kernel) (table : TableRef) :
      LocalStep core k (.destroy table) (k.capTableDestroy core table).1
  | grant (k : Kernel) (table : TableRef) (type : CapType) (objectRef : BitVec 64)
      (rights : CapRightsMask) : LocalStep core k (.grant table type objectRef rights)
        (k.capTableGrant core table type objectRef rights).1
  | delegate (k : Kernel) (src dst : TableRef) (capId : BitVec 32) (rights : CapRightsMask)
      (here : dst.core = core) : LocalStep core k (.delegate src dst capId rights)
        (k.capTableDelegate core src dst capId rights).1
  | revoke {k k' : Kernel} {table : TableRef} {capId : BitVec 32} {result : Int}
      (done : k.Revokes core table capId k' result) : LocalStep core k (.revoke table capId) k'

/-- Tables are destroyed only when nothing outside hangs on them. -/
def DetachesTables (k : Kernel) : LocalOp → Prop
  | .destroy table => k.registry.Detachable table
  | _ => True

/-- What holds between the calls of a core that has nobody to ask. -/
structure Settled (k : Kernel) : Prop where
  tidy : k.registry.Tidy
  alone : ∀ c, k.channels c ≠ .bound

variable {core : Core} {k k' : Kernel}

theorem delegate_here (k : Kernel) {src dst : TableRef} (here : dst.core = core) (capId : BitVec 32)
    (rights : CapRightsMask) : (k.capTableDelegate core src dst capId rights).1 = k ∨
      (k.capTableDelegate core src dst capId rights).1 =
        (k.capTableDelegateLocal src dst capId rights none).1 := by
  unfold capTableDelegate
  split
  · split
    · exact .inl rfl
    · exact .inr rfl
  · exact .inl rfl

variable {op : LocalOp} {fuel : Nat}

theorem step_settled (settled : k.Settled) (allowed : k.DetachesTables op)
    (step : LocalStep core k op k') : k'.Settled := by
  cases step with
  | create kmalloc =>
    exact ⟨settled.tidy.created (k.registry.create_created core kmalloc), settled.alone⟩
  | destroy table =>
    unfold capTableDestroy
    split
    · exact settled
    split
    · exact settled
    · exact ⟨settled.tidy.destroyed allowed, settled.alone⟩
  | grant table type objectRef rights =>
    rcases k.grant_cases core table type objectRef rights with ⟨code, failed⟩ |
      ⟨i, R, -, -, installed, done⟩
    · rw [failed]; exact settled
    · rw [done]; exact ⟨settled.tidy.installRoot installed rfl rfl, settled.alone⟩
  | delegate src dst capId rights here =>
    rcases k.delegate_here here capId rights with same | same <;> rw [same]
    · exact settled
    rcases k.delegateLocal_cases src dst capId rights none with ⟨code, failed⟩ |
      ⟨c, j, R, found, -, -, -, -, -, installed, done⟩
    · rw [failed]; exact settled
    rw [done]
    exact ⟨settled.tidy.installChild (Registry.findLive_some found).2 installed, settled.alone⟩
  | revoke done =>
    obtain ⟨k₂, r, ends, tidy, channels, -⟩ := revokes_tidy settled.tidy settled.alone
    obtain ⟨rfl, -⟩ := done.unique ends
    exact ⟨tidy, channels ▸ settled.alone⟩

/-! ## Running a list of calls -/

/-- A revocation that runs alone, with a bound on the number of its sections. -/
def revokeExec (fuel : Nat) (k : Kernel) (core : Core) (table : TableRef) (capId : BitVec 32) :
    Option (Kernel × Int) :=
  match k.capTableRevoke core table capId with
  | (k', .inr r) => some (k', r)
  | (k', .inl call) => Sections.run (RevokeCall.step true) fuel k' call

def localExec (core : Core) (fuel : Nat) (k : Kernel) : LocalOp → Option Kernel
  | .create kmalloc => some (k.capTableCreate core kmalloc).1
  | .destroy table => some (k.capTableDestroy core table).1
  | .grant table type objectRef rights => some (k.capTableGrant core table type objectRef rights).1
  | .delegate src dst capId rights =>
    if dst.core = core then some (k.capTableDelegate core src dst capId rights).1 else none
  | .revoke table capId => (k.revokeExec fuel core table capId).map (·.1)

def localExecAll (core : Core) (fuel : Nat) : Kernel → List LocalOp → Option Kernel
  | k, [] => some k
  | k, op :: ops => (k.localExec core fuel op).bind (localExecAll core fuel · ops)

theorem revokeExec_some {table : TableRef} {capId : BitVec 32} {result : Int}
    (h : k.revokeExec fuel core table capId = some (k', result)) :
    k.Revokes core table capId k' result := by
  unfold revokeExec at h
  split at h
  · rename_i start
    cases h
    rw [Revokes, start]
    exact ⟨rfl, rfl⟩
  · rename_i start
    rw [Revokes, start]
    exact ⟨fuel, h⟩

theorem localExec_step (h : k.localExec core fuel op = some k') : LocalStep core k op k' := by
  cases op with
  | create kmalloc => cases h; exact .create k kmalloc
  | destroy table => cases h; exact .destroy k table
  | grant table type objectRef rights => cases h; exact .grant ..
  | delegate src dst capId rights =>
    simp only [localExec] at h
    split at h
    · rename_i here
      cases h
      exact .delegate _ _ _ _ _ here
    · cases h
  | revoke table capId =>
    obtain ⟨⟨k₂, r⟩, ran, rfl⟩ := map_eq_some_iff.mp h
    exact .revoke (revokeExec_some ran)

theorem localExecAll_run {ok : Kernel → LocalOp → Prop} {ops : List LocalOp}
    (allowed : ∀ op ∈ ops, ∀ k, ok k op) (h : k.localExecAll core fuel ops = some k') :
    Run (LocalStep core) ok k k' := by
  induction ops generalizing k with
  | nil => cases h; exact .refl
  | cons op ops ih =>
    obtain ⟨k₁, now, later⟩ := bind_eq_some_iff.mp h
    exact .trans (.tail .refl (allowed op List.mem_cons_self k) (localExec_step now))
      (ih (fun o ho => allowed o (List.mem_cons_of_mem _ ho)) later)

/-! ## Revocation is complete -/

/-- In a run that detaches tables before it destroys them, a revocation that
returns 0 has freed its root and everything delegated from it. -/
theorem revoke_complete {core : Core} {pmmInitialized : Bool} {k k' : Kernel} {table : TableRef}
    {capId : BitVec 32}
    (run : Run (LocalStep core) DetachesTables (boot (fun _ => false) pmmInitialized) k)
    (done : k.Revokes core table capId k' 0) :
    ∃ c, findRoot k.registry table capId = some c ∧ (k'.registry.entry c).inUse = false ∧
      ∀ d, k.registry.heap.Descends d c → (k'.registry.entry d).inUse = false := by
  have settled := run.invariant Settled ⟨Registry.tidy_empty, fun _ => by simp [boot]⟩
    fun _ _ _ => step_settled
  obtain ⟨k₂, r, ends, -, -, freed⟩ := revokes_tidy settled.tidy settled.alone
  obtain ⟨rfl, rfl⟩ := done.unique ends
  obtain ⟨c, found, revoked⟩ := freed rfl
  exact ⟨c, found, revoked.freed c (.inl rfl), fun d path => revoked.freed d (.inr path)⟩

/-- A capability in the first table and a child of it in the second. -/
def delegatedPair : List LocalOp :=
  [.create true, .create true,
    .grant ⟨0, 0⟩ .memory 0 (capRightMemoryMap ||| capRightDelegate),
    .delegate ⟨0, 0⟩ ⟨0, 1⟩ 0x10001 capRightMemoryMap]

theorem revoke_complete_pair : ∃ k k' : Kernel, k.Revokes 0 ⟨0, 0⟩ 0x10001 k' 0 ∧
    k.registry.heap.Descends ⟨⟨0, 1⟩, 0⟩ ⟨⟨0, 0⟩, 0⟩ ∧
    ∃ c, findRoot k.registry ⟨0, 0⟩ 0x10001 = some c ∧ (k'.registry.entry c).inUse = false ∧
      ∀ d, k.registry.heap.Descends d c → (k'.registry.entry d).inUse = false := by
  obtain ⟨k, ran, parent, ⟨k', _⟩, revoked, rfl⟩ :
      ∃ k, (boot (fun _ => false) true).localExecAll 0 40 delegatedPair = some k ∧
        k.registry.resolve (k.registry.entry ⟨⟨0, 1⟩, 0⟩).parent = some ⟨⟨0, 0⟩, 0⟩ ∧
      ∃ out, k.revokeExec 40 0 ⟨0, 0⟩ 0x10001 = some out ∧ out.2 = 0 := by decide +kernel
  have run : Run (LocalStep 0) DetachesTables _ k :=
    localExecAll_run (by simp [delegatedPair, DetachesTables]) ran
  have done := revokeExec_some revoked
  exact ⟨k, k', done, .single parent, revoke_complete run done⟩

/-- In such a run the links form a forest, and every revocation returns. -/
theorem revoke_returns {pmm : Bool}
    (run : Run (LocalStep core) DetachesTables (boot (fun _ => false) pmm) k)
    (table : TableRef) (capId : BitVec 32) : k.registry.heap.Forested (fun _ => False) ∧
      ∃ k' r, k.Revokes core table capId k' r := by
  have settled := run.invariant Settled ⟨Registry.tidy_empty, fun _ => by simp [boot]⟩
    fun _ _ _ => step_settled
  obtain ⟨k', r, returns, -⟩ := revokes_tidy settled.tidy settled.alone
  exact ⟨settled.tidy.forest, k', r, returns⟩

theorem revoke_returns_pair : ∃ k k' : Kernel, ∃ r, k.Revokes 0 ⟨0, 0⟩ 0x10001 k' r := by
  obtain ⟨k, ran⟩ : ∃ k, (boot (fun _ => false) true).localExecAll 0 40 delegatedPair = some k :=
    isSome_iff_exists.mp (by decide +kernel)
  have run : Run _ DetachesTables _ k :=
    localExecAll_run (by simp [delegatedPair, DetachesTables]) ran
  exact ⟨k, (revoke_returns run _ _).2⟩

/-- A capability with a child in each of two other tables, the younger of which
is destroyed. -/
def destroyedChild : List LocalOp :=
  [.create true, .create true, .create true,
    .grant ⟨0, 0⟩ .memory 0 (capRightMemoryMap ||| capRightDelegate),
    .delegate ⟨0, 0⟩ ⟨0, 1⟩ 0x10001 capRightMemoryMap,
    .delegate ⟨0, 0⟩ ⟨0, 2⟩ 0x10001 capRightMemoryMap,
    .destroy ⟨0, 2⟩]

/-- The revocation does not get past the link into the destroyed table: it returns
0 and leaves both the capability and the child that is still there. -/
theorem revoke_incomplete : ∃ k k' : Kernel,
    Run (LocalStep 0) (fun _ _ => True) (boot (fun _ => false) true) k ∧
    (k.registry.entry ⟨⟨0, 0⟩, 0⟩).state = .live ∧
    findRoot k.registry ⟨0, 0⟩ 0x10001 = some ⟨⟨0, 0⟩, 0⟩ ∧
    k.registry.heap.Descends ⟨⟨0, 1⟩, 0⟩ ⟨⟨0, 0⟩, 0⟩ ∧ k.Revokes 0 ⟨0, 0⟩ 0x10001 k' 0 ∧
    (k'.registry.entry ⟨⟨0, 0⟩, 0⟩).inUse = true ∧
    (k'.registry.entry ⟨⟨0, 1⟩, 0⟩).inUse = true := by
  obtain ⟨k, ran, live, found, parent, k', revoked, kept⟩ :
      ∃ k, (boot (fun _ => false) true).localExecAll 0 40 destroyedChild = some k ∧
        (k.registry.entry ⟨⟨0, 0⟩, 0⟩).state = .live ∧
        findRoot k.registry ⟨0, 0⟩ 0x10001 = some ⟨⟨0, 0⟩, 0⟩ ∧
        k.registry.resolve (k.registry.entry ⟨⟨0, 1⟩, 0⟩).parent = some ⟨⟨0, 0⟩, 0⟩ ∧
      ∃ k', k.revokeExec 40 0 ⟨0, 0⟩ 0x10001 = some (k', 0) ∧
        (k'.registry.entry ⟨⟨0, 0⟩, 0⟩).inUse = true ∧
        (k'.registry.entry ⟨⟨0, 1⟩, 0⟩).inUse = true := by decide +kernel
  exact ⟨k, k', localExecAll_run (fun _ _ _ => trivial) ran, live, found, .single parent,
    revokeExec_some revoked, kept⟩

end Kernel

end BharatOS
