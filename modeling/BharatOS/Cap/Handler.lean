import BharatOS.Cap.Dispatch
import BharatOS.Lib.Sections

/-!
# The request handler as lock sections

`cap_handle_tx_req` checks the transaction record once. What it needs of the record it then reads
one field at a time, and no lock that it holds keeps the record's core from writing: the record can
change in between, also between two of its fields.
-/

namespace BharatOS

/-- The two scans for descendants: one marks them, the other frees them. -/
inductive RevokePhase where
  | prepare | commit
  deriving DecidableEq, Repr

/-- The fields of a record that are read after the check. -/
inductive TxField where
  | type | requestedRights | objectRef | flags | ownerCore | instanceId | revocationEpoch | src
  | srcFirstChild | dst | remoteDstSlot | remoteDstGen
  deriving DecidableEq, Repr

/-- Read one field of the record into a copy. -/
def TxField.read (record copy : BhCapTxEntry) : TxField → BhCapTxEntry
  | .type => { copy with type := record.type }
  | .requestedRights => { copy with requestedRights := record.requestedRights }
  | .objectRef => { copy with objectRef := record.objectRef }
  | .flags => { copy with flags := record.flags }
  | .ownerCore => { copy with ownerCore := record.ownerCore }
  | .instanceId => { copy with instanceId := record.instanceId }
  | .revocationEpoch => { copy with revocationEpoch := record.revocationEpoch }
  | .src => { copy with src := record.src }
  | .srcFirstChild => { copy with srcFirstChild := record.srcFirstChild }
  | .dst => { copy with dst := record.dst }
  | .remoteDstSlot => { copy with remoteDstSlot := record.remoteDstSlot }
  | .remoteDstGen => { copy with remoteDstGen := record.remoteDstGen }

def TxField.readAll (record copy : BhCapTxEntry) (fields : List TxField) : BhCapTxEntry :=
  fields.foldl (read record) copy

/-- What the next fields are read for. A rollback reads the slot again for each use it
makes of it. -/
inductive TxUse where
  | install (dst : TableRef) (dstId : BitVec 32)
  | acquire
  | noted
  | resolve
  | bounds (dst : TableRef) (dstId : BitVec 32)
  | entry (dst : TableRef) (dstId : BitVec 32)
  | undo (dst : TableRef) (dstId slot : BitVec 32)

/-- Where a handler is once it has accepted a request. -/
inductive HandlerPc where
  | read (use : TxUse) (copy : BhCapTxEntry) (remaining : List TxField)
  | scan (phase : RevokePhase) (notice : Kernel.RevokeNotice) (remaining : List CSpaceSlot)
  | ack (type : UrpcMsgType) (status : BitVec 8)

structure HandlerCall where
  core : Core
  reply : TxReply
  pc : HandlerPc

namespace HandlerPc

/-- The fields of a delegation, in the order in which they are read. -/
def install (dst : TableRef) (dstId : BitVec 32) (copy : BhCapTxEntry) : HandlerPc :=
  .read (.install dst dstId) copy [.type, .requestedRights, .objectRef, .flags, .ownerCore,
    .instanceId, .revocationEpoch, .src, .srcFirstChild]

def reads : HandlerPc → Bool
  | .read .. => true
  | _ => false

end HandlerPc

namespace Kernel

def scanEntry : RevokePhase → RevokeNotice → Kernel → CapRef → Kernel
  | .prepare => prepareEntry
  | .commit => commitEntry

/-- The section under one table's lock. -/
def scanTable (k : Kernel) (phase : RevokePhase) (notice : RevokeNotice) (ref : TableRef) : Kernel :=
  (tableEntries ref).foldl (scanEntry phase notice) k

/-- What the handler decides before it takes a lock; `none` drops the request. -/
def receiveReq (k : Kernel) (core : Core) (payload : BitVec 64) (source : Core) :
    Option HandlerCall :=
  match TxRequest.ofPayload payload with
  | none => none
  | some req =>
    let goto : HandlerPc → Option HandlerCall := fun pc => some ⟨core, ⟨req, source⟩, pc⟩
    if txAccepts (k.txOf req) req.generation = false then none
    else if req.op = BhCapTxOp.delegate.code then
      match k.delegateDestination core req with
      | .error status => goto (.ack .capDelegateAck status)
      | .ok dst => (k.registry.cspaceId dst).bind fun dstId =>
        goto (.install dst dstId { BhCapTxEntry.zero with dst := (k.txOf req).dst })
    else if req.op = BhCapTxOp.rollback.code then goto (.read .noted .zero [.remoteDstSlot])
    else if req.op = BhCapTxOp.revokePrepare.code then
      goto (.scan .prepare (k.revokeNotice req) (List.finRange 64))
    else if req.op = BhCapTxOp.revoke.code ∨ req.op = BhCapTxOp.revokeCommit.code then
      goto (.scan .commit (k.revokeNotice req) (List.finRange 64))
    else none

/-- What the handler does with the fields it has read, and where it goes on. There is no
going on with a table that is gone or with a slot outside of it, nor when the bit that is
given back belongs to another slot than the entry: the table's bits and entries then
disagree, which `CapabilityTable` does not show. -/
def useRead (k : Kernel) (req : TxRequest) (copy : BhCapTxEntry) :
    TxUse → Option (Kernel × HandlerPc)
  | .install dst dstId =>
    if k.registry.cspaceId dst ≠ some dstId then none
    else
      match k.installRead req dst copy with
      | none => some (k, .ack .capDelegateAck (-2))
      | some k => some (k, .read .acquire copy [.type, .objectRef, .requestedRights])
  | .acquire => some (k.acquireRead copy, .ack .capDelegateAck 0)
  | .noted =>
    if copy.remoteDstSlot = noRemoteSlot then some (k, .ack .capRevokeAck 0)
    else some (k, .read .resolve copy [.dst])
  | .resolve =>
    match k.registry.capLocatorResolveTable copy.dst with
    | none => some (k, .ack .capRevokeAck 0)
    | some dst => some (k, .read (.bounds dst copy.dst.cspaceId) copy [.remoteDstSlot])
  | .bounds dst dstId =>
    if 64 ≤ copy.remoteDstSlot.toNat then some (k, .ack .capRevokeAck 0)
    else some (k, .read (.entry dst dstId) copy [.remoteDstSlot, .remoteDstGen])
  | .entry dst dstId => some (k, .read (.undo dst dstId copy.remoteDstSlot) copy [.remoteDstSlot])
  | .undo dst dstId slot =>
    if k.registry.cspaceId dst ≠ some dstId ∨ 64 ≤ slot.toNat then none
    else
      match k.rollbackEntry dst slot copy.remoteDstGen with
      | none => some (k, .ack .capRevokeAck 0)
      | some c =>
        if copy.remoteDstSlot ≠ slot then none
        else some (k.freeEntry c, .ack .capRevokeAck 0)

end Kernel

namespace HandlerCall

open Kernel

/-- One section, or one read of the record. -/
def step : Sections Kernel HandlerCall Unit := fun k call =>
  let req := call.reply.request
  match call.pc with
  | .read use copy (field :: rest) =>
    (k, .inl { call with pc := .read use (field.read (k.txOf req) copy) rest })
  | .read use copy [] =>
    match k.useRead req copy use with
    | none => (k, .inl call)
    | some (k, pc) => (k, .inl { call with pc := pc })
  | .scan _ _ [] => (k, .inl { call with pc := .ack .capRevokeAck 0 })
  | .scan phase notice (cspace :: rest) =>
    (k.scanTable phase notice ⟨call.core, cspace⟩, .inl { call with pc := .scan phase notice rest })
  | .ack type status => (k.sendAck call.core call.reply type status, .inr ())

variable {call : HandlerCall} {k k' : Kernel} {core : Core} {dst : TableRef} {dstId : BitVec 32}
  {copy : BhCapTxEntry} {remaining : List TxField}

/-- With what it has read, a handler acknowledges or reads on, but not to install. -/
theorem useRead_next {req : TxRequest} {use : TxUse} {pc : HandlerPc}
    (h : k.useRead req copy use = some (k', pc)) :
    (∃ type status, pc = .ack type status ∧ (type = .capDelegateAck ∨ type = .capRevokeAck)) ∨
      ∃ use fields, pc = .read use copy fields ∧ ∀ dst dstId, use ≠ .install dst dstId := by
  unfold useRead at h
  repeat' split at h
  all_goals cases h
  all_goals first
    | exact .inl ⟨_, _, rfl, .inl rfl⟩
    | exact .inl ⟨_, _, rfl, .inr rfl⟩
    | exact .inr ⟨_, _, rfl, fun _ _ e => by cases e⟩

/-- A handler that reads for an installation did so before, and has now read one field
more; the rest of the record makes the same copy complete. -/
theorem step_next {call' : HandlerCall} (h : call.step k = (k', .inl call'))
    (pc : call'.pc = .read (.install dst dstId) copy remaining) :
    k' = k ∧ call'.reply = call.reply ∧ ∃ copy₀ remaining₀,
      call.pc = .read (.install dst dstId) copy₀ remaining₀ ∧
      TxField.readAll (k.txOf call.reply.request) copy remaining =
        TxField.readAll (k.txOf call.reply.request) copy₀ remaining₀ := by
  obtain ⟨core, reply, pc₀⟩ := call
  cases pc₀ with
  | read use copy₀ remaining₀ =>
    cases remaining₀ with
    | nil =>
      simp only [step] at h
      split at h
      · cases h
        exact ⟨rfl, rfl, _, _, pc, rfl⟩
      · rename_i next
        cases h
        rcases useRead_next next with ⟨_, _, rfl, -⟩ | ⟨_, _, rfl, other⟩
        · cases pc
        · cases pc
          exact absurd rfl (other dst dstId)
    | cons field rest =>
      cases h
      cases pc
      exact ⟨rfl, rfl, _, _, rfl, rfl⟩
  | scan phase notice remaining =>
    cases remaining with
    | nil | cons => cases h; cases pc
  | ack => cases h

/-! ## The handler alone -/

open Sections

theorem ack_returns (k : Kernel) (core : Core) (reply : TxReply) (type : UrpcMsgType)
    (status : BitVec 8) :
    Returns step k ⟨core, reply, .ack type status⟩ (k.sendAck core reply type status) () :=
  .last rfl

theorem scan_returns (core : Core) (reply : TxReply) (phase : RevokePhase) (notice : RevokeNotice)
    (remaining : List CSpaceSlot) (k : Kernel) :
    Returns step k ⟨core, reply, .scan phase notice remaining⟩
      (((remaining.flatMap fun cspace => tableEntries ⟨core, cspace⟩).foldl (scanEntry phase notice)
        k).sendAck core reply .capRevokeAck 0) () := by
  induction remaining generalizing k with
  | nil => exact (Reaches.single rfl).returns (ack_returns ..)
  | cons cspace rest ih =>
    exact (Reaches.single rfl).returns (ih _)

theorem delegateDestination_resolves {req : TxRequest}
    (h : k.delegateDestination core req = .ok dst) :
    k.registry.capLocatorResolveTable (k.txOf req).dst = some dst := by
  unfold delegateDestination at h
  cases found : k.registry.capLocatorResolveTable (k.txOf req).dst with
  | none => simp [found] at h
  | some ref =>
    simp only [found] at h
    split at h
    · cases h
    cases h
    rfl

variable {payload : BitVec 64} {source : Core}

/-- A handler that is about to install has resolved the table that the record names. -/
theorem receive_install (h : k.receiveReq core payload source = some call)
    (pc : call.pc = .read (.install dst dstId) copy remaining) :
    (k.txOf call.reply.request).dst.cspaceId = dstId ∧
      HandlerPc.install dst dstId { BhCapTxEntry.zero with dst := (k.txOf call.reply.request).dst } =
        .read (.install dst dstId) copy remaining := by
  unfold receiveReq at h
  split at h
  · cases h
  rename_i req _
  split at h
  · cases h
  split at h
  · split at h
    · cases h; cases pc
    rename_i ref found
    obtain ⟨id, home, made⟩ := Option.bind_eq_some_iff.mp h
    cases made
    cases pc
    have table := delegateDestination_resolves found
    exact ⟨Option.some.inj ((Registry.resolveTable_eq_some.mp table).1.symm.trans home), rfl⟩
  · split at h
    · cases h; cases pc
    split at h
    · cases h; cases pc
    split at h
    · cases h; cases pc
    · cases h

theorem read_reaches (reply : TxReply) (use : TxUse) (fields : List TxField)
    (copy : BhCapTxEntry) : Reaches step k ⟨core, reply, .read use copy fields⟩ k
      ⟨core, reply, .read use (TxField.readAll (k.txOf reply.request) copy fields) []⟩ := by
  induction fields generalizing copy with
  | nil => exact .refl _ _
  | cons field rest ih => exact (Reaches.single rfl).trans (ih _)

/-- With all its fields read, the handler goes on to `pc`. -/
theorem read_returns {reply : TxReply} {use : TxUse} {fields : List TxField} {pc : HandlerPc}
    {k₁ : Kernel} (used : k.useRead reply.request
      (TxField.readAll (k.txOf reply.request) copy fields) use = some (k₁, pc))
    (rest : Returns step k₁ ⟨core, reply, pc⟩ k' ()) :
    Returns step k ⟨core, reply, .read use copy fields⟩ k' () := by
  refine ((read_reaches reply use fields copy).trans (.single ?_)).returns rest
  simp only [step, used]

/-- The record keeps what it offers when its installation is noted. -/
theorem acquireRead_again {req : TxRequest} {read : BhCapTxEntry}
    (h : k.installRead req dst read = some k') :
    k'.acquireRead (TxField.readAll (k'.txOf req) copy [.type, .objectRef, .requestedRights]) =
      k'.acquireRead (k.txOf req) := by
  obtain ⟨⟨i, R⟩, -, rfl⟩ := Option.map_eq_some_iff.mp h
  simp [acquireRead, TxField.readAll, TxField.read, txOf]

theorem install_returns {reply : TxReply} (home : k.registry.cspaceId dst = some dstId) :
    Returns step k ⟨core, reply, .install dst dstId copy⟩
      ((k.delegateInstall reply.request dst).1.sendAck core reply .capDelegateAck
        (k.delegateInstall reply.request dst).2) () := by
  unfold delegateInstall HandlerPc.install
  -- the nine fields are all that an installation takes from the record
  cases installed : k.installRead reply.request dst (k.txOf reply.request) with
  | none =>
    refine read_returns ?_ (ack_returns ..)
    rw [useRead, if_neg (not_not.mpr home),
      show k.installRead _ dst (TxField.readAll ..) = none from installed]
  | some k₁ =>
    refine read_returns (by rw [useRead, if_neg (not_not.mpr home),
      show k.installRead _ dst (TxField.readAll ..) = some k₁ from installed]) ?_
    refine read_returns rfl ?_
    rw [acquireRead_again installed]
    exact ack_returns ..

theorem rollback_returns {reply : TxReply} :
    Returns step k ⟨core, reply, .read .noted .zero [.remoteDstSlot]⟩
      ((k.rollback reply.request).sendAck core reply .capRevokeAck 0) () := by
  unfold rollback
  simp only
  split
  · rename_i nothing
    exact read_returns (if_pos nothing) (ack_returns ..)
  rename_i noted
  refine read_returns (if_neg noted) ?_
  cases found : k.registry.capLocatorResolveTable (k.txOf reply.request).dst with
  | none =>
    refine read_returns ?_ (ack_returns ..)
    simp only [useRead, TxField.readAll, TxField.read, List.foldl, found]
  | some dst =>
    have home := (Registry.resolveTable_eq_some.mp found).1
    dsimp only
    refine read_returns
      (by simp only [useRead, TxField.readAll, TxField.read, List.foldl, found]; rfl) ?_
    by_cases outside : 64 ≤ (k.txOf reply.request).remoteDstSlot.toNat
    · have nothing : k.rollbackEntry dst (k.txOf reply.request).remoteDstSlot
          (k.txOf reply.request).remoteDstGen = none := dif_neg (Nat.not_lt.mpr outside)
      rw [nothing]
      exact read_returns (if_pos outside) (ack_returns ..)
    refine read_returns (if_neg outside) (read_returns rfl ?_)
    have inside : ¬ (k.registry.cspaceId dst ≠ some (k.txOf reply.request).dst.cspaceId ∨
        64 ≤ (k.txOf reply.request).remoteDstSlot.toNat) := not_or.mpr ⟨not_not.mpr home, outside⟩
    cases target : k.rollbackEntry dst (k.txOf reply.request).remoteDstSlot
        (k.txOf reply.request).remoteDstGen with
    | none =>
      refine read_returns ?_ (ack_returns ..)
      simp only [useRead, TxField.readAll, TxField.read, List.foldl, if_neg inside, target]
    | some c =>
      refine read_returns ?_ (ack_returns ..)
      simp only [useRead, TxField.readAll, TxField.read, List.foldl, if_neg inside, target, ne_eq,
        not_true_eq_false, if_false]

/-- The handler, run alone after its check, ends in `k'`. -/
def Handles (k : Kernel) (call : Option HandlerCall) (k' : Kernel) : Prop :=
  match call with
  | none => k' = k
  | some call => Returns step k call k' ()

/-- With no other core in between, the sections of the handler add up to
`capHandleTxReq`. -/
theorem handler_alone :
    Handles k (k.receiveReq core payload source) (k.capHandleTxReq core payload source) := by
  unfold receiveReq capHandleTxReq
  cases TxRequest.ofPayload payload with
  | none => exact rfl
  | some req =>
    simp only
    split_ifs
    · exact rfl
    · cases found : k.delegateDestination core req with
      | error status => exact ack_returns ..
      | ok dst =>
        have table := delegateDestination_resolves found
        have registered := (Registry.resolveTable_eq_some.mp table).1
        simp only [registered, Option.bind_some]
        exact install_returns registered
    · exact rollback_returns
    · exact scan_returns core _ .prepare ..
    · exact scan_returns core _ .commit ..
    · exact rfl

end HandlerCall

end BharatOS
