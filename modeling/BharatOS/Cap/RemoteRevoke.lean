import BharatOS.Cap.Heap
import BharatOS.Cap.System

/-!
# Revocation on the other cores

What the scans of `REVOKE_PREPARE` and `REVOKE_COMMIT` do to each entry. Their
test for a child of the revoked capability compares core, slot and generation,
but not the CSpace, and takes the core from the request.
-/

namespace BharatOS

namespace Kernel

open Registry

/-- The test of a scan, and what it does to an entry that passes. -/
def scanTest : RevokePhase → RevokeNotice → CapabilityEntry → Bool
  | .prepare => prepares
  | .commit => commits

def scanned : RevokePhase → CapabilityEntry → CapabilityEntry
  | .prepare, e => { e with state := .revoking }
  | .commit, e => e.freed

variable {e : CapabilityEntry} {notice : RevokeNotice} {phase : RevokePhase} {c : CapRef}
  {core source : Core} {k : Kernel} {payload : BitVec 64} {req : TxRequest}

theorem scanTest_inUse (h : scanTest phase notice e = true) : e.inUse = true := by
  cases phase <;> simp only [scanTest, prepares, commits, Bool.and_eq_true] at h
  · exact h.1.1
  · exact h.1.1

/-- No entry passes twice. -/
theorem scanTest_scanned : scanTest phase notice (scanned phase e) = false := by
  cases phase <;> simp [scanTest, scanned, prepares, commits, CapabilityEntry.freed]

theorem scanned_state (h : scanTest phase notice e = true) : (scanned phase e).state ≠ e.state := by
  cases phase with
  | prepare =>
    simp only [scanTest, prepares, Bool.and_eq_true, beq_iff_eq] at h
    simp [scanned, h.1.2]
  | commit =>
    simp only [scanTest, commits, Bool.and_eq_true, Bool.or_eq_true, beq_iff_eq] at h
    rcases h.1.2 with e' | e' <;> simp [scanned, CapabilityEntry.freed, e']

theorem scanEntry_spec :
    SameSpaces k.registry (scanEntry phase notice k c).registry ∧
      (scanEntry phase notice k c).txs = k.txs ∧ (scanEntry phase notice k c).registry.entry =
        if scanTest phase notice (k.registry.entry c) then
          Function.update k.registry.entry c (scanned phase (k.registry.entry c))
        else k.registry.entry := by
  cases pass : scanTest phase notice (k.registry.entry c) with
  | false => cases phase <;> simp_all [scanEntry, scanTest, prepareEntry, commitEntry, SameSpaces.refl]
  | true =>
    have used := registered_of_inUse (scanTest_inUse pass)
    cases phase with
    | prepare =>
      simp only [scanTest] at pass
      simp only [scanEntry, prepareEntry, pass, if_true]
      exact ⟨edit_sameSpaces _ _ _, rfl, edit_entry _ used⟩
    | commit =>
      simp only [scanTest] at pass
      simp only [scanEntry, commitEntry, pass, if_true]
      exact ⟨release_sameSpaces _ _, rfl, release_entry used⟩

/-- A scan over a list of entries rewrites exactly those that pass the test. -/
theorem scan_spec (phase : RevokePhase) (notice : RevokeNotice) (cs : List CapRef) (k : Kernel) :
    SameSpaces k.registry (cs.foldl (scanEntry phase notice) k).registry ∧
      (cs.foldl (scanEntry phase notice) k).txs = k.txs ∧
      ∀ d, (cs.foldl (scanEntry phase notice) k).registry.entry d =
        if d ∈ cs ∧ scanTest phase notice (k.registry.entry d) then
          scanned phase (k.registry.entry d) else k.registry.entry d := by
  induction cs generalizing k with
  | nil => exact ⟨.refl _, rfl, fun d => by simp⟩
  | cons c cs ih =>
    obtain ⟨spaces, txs, entry⟩ := ih (scanEntry phase notice k c)
    obtain ⟨spaces₁, txs₁, entry₁⟩ := scanEntry_spec
    refine ⟨spaces₁.trans spaces, txs.trans txs₁, fun d => ?_⟩
    rw [List.foldl_cons, entry d, entry₁]
    by_cases hd : d = c
    · subst hd
      cases pass : scanTest phase notice (k.registry.entry d) with
      | true => simp [scanTest_scanned]
      | false => simp [pass]
    · split
      · rw [Function.update_of_ne hd]; simp [hd]
      · simp [hd]

theorem mem_tableEntries {ref : TableRef} : c ∈ tableEntries ref ↔ c.table = ref := by
  obtain ⟨table, slot⟩ := c
  simp [tableEntries, eq_comm]

theorem mem_coreEntries : c ∈ coreEntries core ↔ c.table.core = core := by
  obtain ⟨⟨tableCore, cspace⟩, slot⟩ := c
  simp only [coreEntries, List.mem_flatMap, List.mem_finRange, true_and, mem_tableEntries,
    TableRef.mk.injEq]
  exact ⟨fun ⟨_, h, _⟩ => h, fun h => ⟨cspace, h, rfl⟩⟩

variable {reply : TxReply} {status : BitVec 8} {type : UrpcMsgType}

@[simp] theorem sendAck_registry : (k.sendAck core reply type status).registry = k.registry :=
  send_registry ..

@[simp] theorem sendAck_txs : (k.sendAck core reply type status).txs = k.txs :=
  send_txs ..

/-! ## Exactness -/

/-- The phase that a request asks for. -/
def RevokesIn (req : TxRequest) : RevokePhase → Prop
  | .prepare => req.op = BhCapTxOp.revokePrepare.code
  | .commit => req.op = BhCapTxOp.revoke.code ∨ req.op = BhCapTxOp.revokeCommit.code

/-- The locator designates the capability that the other one does. -/
def SameInstance (l target : BhCapLocator) : Prop :=
  l.cspaceId = target.cspaceId ∧ l.ownerCore = target.ownerCore ∧ l.slot = target.slot ∧
    l.generation = target.generation

/-- Only children of the transaction's target change state. -/
def RevokesExactly (k k' : Kernel) (req : TxRequest) : Prop :=
  ∀ c, (k'.registry.entry c).state ≠ (k.registry.entry c).state →
    SameInstance (k.registry.entry c).parent (k.txOf req).target

/-- A revoke request that is accepted scans the entries of the core. -/
theorem handle_revoke (request : TxRequest.ofPayload payload = some req)
    (revokes : RevokesIn req phase) (accepted : txAccepts (k.txOf req) req.generation = true) :
    (k.capHandleTxReq core payload source).registry =
      ((coreEntries core).foldl (scanEntry phase (k.revokeNotice req)) k).registry := by
  unfold capHandleTxReq
  cases phase with
  | prepare =>
    have op : req.op = BhCapTxOp.revokePrepare.code := revokes
    simp [request, accepted, op, BhCapTxOp.code, revokePrepare, scanEntry]
  | commit =>
    have op : req.op = BhCapTxOp.revoke.code ∨ req.op = BhCapTxOp.revokeCommit.code := revokes
    rcases op with op | op <;>
      simp [request, accepted, op, BhCapTxOp.code, revokeCommit, scanEntry]

/-- A revoke request changes only children of its target exactly when no entry of
the core that passes the handler's test has its parent in another CSpace or on
another core than the target. -/
theorem revoke_request_exact_iff {payload : BitVec 64} {req : TxRequest} {phase : RevokePhase}
    (request : TxRequest.ofPayload payload = some req) (revokes : RevokesIn req phase)
    (k : Kernel) (core source : Core) :
    RevokesExactly k (k.capHandleTxReq core payload source) req ↔
      txAccepts (k.txOf req) req.generation = false ∨
      ∀ c, c.table.core = core → scanTest phase (k.revokeNotice req) (k.registry.entry c) = true →
        (k.registry.entry c).parent.cspaceId = (k.txOf req).target.cspaceId ∧
        (k.registry.entry c).parent.ownerCore = (k.txOf req).target.ownerCore := by
  cases accepted : txAccepts (k.txOf req) req.generation with
  | false => simp [RevokesExactly, capHandleTxReq, request, accepted]
  | true =>
    have entry := (scan_spec phase (k.revokeNotice req) (coreEntries core) k).2.2
    simp only [Bool.true_eq_false, false_or, RevokesExactly, handle_revoke request revokes accepted,
      entry, mem_coreEntries]
    refine ⟨fun exact c here pass => ?_, fun tells c changed => ?_⟩
    · have same := exact c (by rw [if_pos ⟨here, pass⟩]; exact scanned_state pass)
      exact ⟨same.1, same.2.1⟩
    · split at changed
      · rename_i matched
        obtain ⟨id, owner⟩ := tells c matched.1 matched.2
        have descends : isDescendant (k.revokeNotice req) (k.registry.entry c) = true := by
          have pass := matched.2
          cases phase <;> simp only [scanTest, prepares, commits, Bool.and_eq_true] at pass
          · exact pass.2
          · exact pass.2
        simp only [isDescendant, revokeNotice, Bool.and_eq_true, beq_iff_eq] at descends
        exact ⟨id, owner, descends.1.1.2, descends.1.2⟩
      · exact absurd rfl changed

/-! ## Two capabilities that the handler cannot tell apart -/

/-- Core 0 has two tables with one capability each, both in slot 0 and of generation
1. Core 1 takes a child of each, and core 0 revokes the first up to the point where
it has sent its request. -/
def twoTables : List Action :=
  [.create 0 true, .create 0 true, .create 1 true,
    .grant 0 ⟨0, 0⟩ .memory 0 (capRightMemoryMap ||| capRightDelegate),
    .grant 0 ⟨0, 1⟩ .memory 1 (capRightMemoryMap ||| capRightDelegate),
    .delegate 0 1 ⟨0, 0⟩ ⟨1, 0⟩ 0x10001 capRightMemoryMap,
    .delegate 0 1 ⟨0, 1⟩ ⟨1, 0⟩ 0x10001 capRightMemoryMap,
    .revoke 0 0 ⟨0, 0⟩ 0x10001,
    .resume 0 false, .resume 0 false, .resume 0 false, .resume 0 false, .resume 0 false,
    .resume 0 false]

/-- The payload that core 1 finds in its inbox then, and the request in it. -/
def preparePayload : BitVec 64 := 0x104

def prepareRequest : TxRequest := ⟨0, 0, 1, BhCapTxOp.revokePrepare.code⟩

theorem revoke_request_exact_after_twoTables : ∃ s : System,
    Run System.Steps (fun _ _ => True) (.boot (· = 1) true) s ∧
    TxRequest.ofPayload preparePayload = some prepareRequest ∧ RevokesIn prepareRequest .prepare ∧
    (RevokesExactly s.kernel (s.kernel.capHandleTxReq 1 preparePayload 0) prepareRequest ↔
      txAccepts (s.kernel.txOf prepareRequest) prepareRequest.generation = false ∨
      ∀ c, c.table.core = 1 →
        scanTest .prepare (s.kernel.revokeNotice prepareRequest) (s.kernel.registry.entry c) = true →
        (s.kernel.registry.entry c).parent.cspaceId =
            (s.kernel.txOf prepareRequest).target.cspaceId ∧
          (s.kernel.registry.entry c).parent.ownerCore =
            (s.kernel.txOf prepareRequest).target.ownerCore) := by
  obtain ⟨s, ran⟩ : ∃ s, (System.boot (· = 1) true).exec twoTables = some s := by decide +kernel
  have request : TxRequest.ofPayload preparePayload = some prepareRequest := by decide +kernel
  have revokes : RevokesIn prepareRequest .prepare := rfl
  exact ⟨s, System.run_of_exec ran, request, revokes,
    revoke_request_exact_iff request revokes s.kernel 1 0⟩

/-- The request makes core 1 mark both children, also the one whose parent is in
the other table. -/
theorem revoke_request_inexact : ∃ s : System,
    Run System.Steps (fun _ _ => True) (.boot (· = 1) true) s ∧
    (s.kernel.inbox 1).map (fun m => (urpcUnpackMsg m.raw).payload) = [preparePayload] ∧
    TxRequest.ofPayload preparePayload = some prepareRequest ∧ RevokesIn prepareRequest .prepare ∧
    ¬ RevokesExactly s.kernel (s.kernel.capHandleTxReq 1 preparePayload 0) prepareRequest := by
  obtain ⟨s, ran, inbox, accepted, pass, other⟩ :
      ∃ s, (System.boot (· = 1) true).exec twoTables = some s ∧
        (s.kernel.inbox 1).map (fun m => (urpcUnpackMsg m.raw).payload) = [preparePayload] ∧
        txAccepts (s.kernel.txOf prepareRequest) prepareRequest.generation = true ∧
        scanTest .prepare (s.kernel.revokeNotice prepareRequest)
          (s.kernel.registry.entry ⟨⟨1, 0⟩, 1⟩) = true ∧
        (s.kernel.registry.entry ⟨⟨1, 0⟩, 1⟩).parent.cspaceId ≠
          (s.kernel.txOf prepareRequest).target.cspaceId := by decide +kernel
  have request : TxRequest.ofPayload preparePayload = some prepareRequest := by decide +kernel
  have revokes : RevokesIn prepareRequest .prepare := rfl
  refine ⟨s, System.run_of_exec ran, inbox, request, revokes,
    fun exact => other (exact ⟨⟨1, 0⟩, 1⟩ ?_).1⟩
  rw [handle_revoke request revokes accepted, (scan_spec _ _ _ _).2.2,
    if_pos ⟨mem_coreEntries.mpr rfl, pass⟩]
  exact scanned_state pass

end Kernel

end BharatOS
