import BharatOS.Cap.Delegate

/-!
# Revocation (`cap_revoke.c`)

`cap_table_revoke` as the sequence of its lock sections. Both of its walks over the tree follow the
child, sibling and parent links of the entries themselves, without a stack.
-/

namespace BharatOS

open Option

/-- The locals that stay fixed once the root was found. -/
structure RevokeFrame where
  core : Core
  tx : Option TxSlot
  table : TableRef
  tableId : BitVec 32
  rootSlot : Slot
  rootGen : BitVec 32
  deriving DecidableEq, Repr

namespace RevokeFrame

def root (f : RevokeFrame) : CapRef := ⟨f.table, f.rootSlot⟩

/-- `cap_locator_make(table, root_slot, root_gen, epoch)`. -/
def rootLocator (f : RevokeFrame) (epoch : BitVec 32) : BhCapLocator :=
  ⟨f.tableId, f.table.core, f.rootSlot, f.rootGen, epoch⟩

/-- The walks recognise the root by core, CSpace id and slot. -/
def isRoot (f : RevokeFrame) (l : BhCapLocator) : Bool :=
  l.ownerCore == f.table.core.val && l.cspaceId == f.tableId && l.slot == f.rootSlot.val

end RevokeFrame

inductive TraversalDir where
  | down | up
  deriving DecidableEq, Repr

/-- Where a revocation goes on after the node it is at. -/
structure Onward where
  sibling : BhCapLocator
  parent : BhCapLocator
  deriving DecidableEq, Repr

inductive RevokePc where
  | unlink (parent : BhCapLocator)
  | mark (current : BhCapLocator)
  | climb (current : BhCapLocator)
  | epoch
  | publish (epoch : BitVec 64)
  | broadcast (remaining : List Core)
  | await
  | abort
  | releaseAborted
  | quarantine
  | commit
  | releaseCommitted
  | free (current : BhCapLocator) (dir : TraversalDir)
  | drain (current : BhCapLocator) (onward : Onward)
  | relock (current : BhCapLocator) (onward : Onward) (pinTimedOut : Bool)
  | finish
  deriving DecidableEq, Repr

structure RevokeCall where
  frame : RevokeFrame
  pc : RevokePc
  deriving DecidableEq, Repr

/-! ## The sections -/

namespace Kernel

/-- The sibling before the root on the chain, if the root is on it: `none` is
the parent's own link. The search does not end on a chain that runs in a circle. -/
inductive ChainSearch where
  | found (prev : Option BhCapLocator)
  | missing
  | endless
  deriving DecidableEq, Repr

def searchChain (R : Registry) (f : RevokeFrame) :
    Nat → BhCapLocator → Option BhCapLocator → ChainSearch
  | 0, _, _ => .endless
  | fuel + 1, sibling, prev =>
    if capLocatorIsNull sibling then .missing
    else
      match R.locate sibling with
      | none => .missing
      | some c =>
        if c = f.root ∧ sibling.generation = f.rootGen then .found prev
        else searchChain R f fuel (R.entry c).nextSibling (some sibling)

/-- One more than the number of entries there are. -/
def chainFuel : Nat := 32 * 64 * 64 + 1

/-- The write that takes the root out of its parent's child list. `none` when the
search under the locks does not end. -/
def unlinkFrom (k : Kernel) (f : RevokeFrame) (p : CapRef) : Option Kernel :=
  let next := (k.registry.entry f.root).nextSibling
  match searchChain k.registry f chainFuel (k.registry.entry p).firstChild none with
  | .endless => none
  | .missing => some k
  | .found none => some (k.edit p (.firstChild next))
  | .found (some prev) =>
    match k.registry.locate prev with
    | none => some k
    | some q => some (k.edit q (.nextSibling next))

inductive Unlinked where
  | stuck
  | refused
  | done (k : Kernel)

/-- The section under the locks of the parent's child list. The loop that collects the tables
to lock, at most 16, is left out: all tables of the list count as locked. The section is stuck
when the parent's table is gone or the search does not end. -/
def unlinkRoot (k : Kernel) (f : RevokeFrame) (parent : BhCapLocator) : Unlinked :=
  let rootEntry := k.registry.entry f.root
  match k.registry.capLocatorResolveTable parent with
  | none => .stuck
  | some ref =>
    if rootEntry.inUse ∧ rootEntry.generation = f.rootGen then
      if h : parent.slot < 64 then
        let p : CapRef := ⟨ref, ⟨parent.slot, h⟩⟩
        if (k.registry.entry p).inUse ∧ (k.registry.entry p).generation = parent.generation then
          match k.unlinkFrom f p with
          | none => .stuck
          | some k' => .done k'
        else .done k
      else .refused
    else .done k

/-- Unlinking writes one link at most. -/
theorem unlinkRoot_done {k k' : Kernel} {f : RevokeFrame} {parent : BhCapLocator}
    (h : k.unlinkRoot f parent = .done k') :
    k' = k ∨ (∃ c l, k' = k.edit c (.firstChild l)) ∨ ∃ c l, k' = k.edit c (.nextSibling l) := by
  have from' : ∀ p, k.unlinkFrom f p = some k' → k' = k ∨
      (∃ c l, k' = k.edit c (.firstChild l)) ∨ ∃ c l, k' = k.edit c (.nextSibling l) := by
    intro p done
    unfold unlinkFrom at done
    split at done
    · cases done
    · cases done; exact .inl rfl
    · cases done; exact .inr (.inl ⟨_, _, rfl⟩)
    split at done
    · cases done; exact .inl rfl
    · cases done; exact .inr (.inr ⟨_, _, rfl⟩)
  unfold unlinkRoot at h
  simp only at h
  split at h
  · cases h
  split at h
  · split at h
    · split at h
      · split at h
        · cases h
        rename_i done
        cases h
        exact from' _ done
      · cases h; exact .inl rfl
    · cases h
  · cases h; exact .inl rfl

/-- A locator that does not lead to an entry stops a walk. -/
inductive Visit where
  | lost
  | stale
  | at (c : CapRef)
  deriving DecidableEq, Repr

def visit (R : Registry) (current : BhCapLocator) : Visit :=
  match R.locate current with
  | none => .lost
  | some c =>
    if (R.entry c).inUse = false ∨ (R.entry c).generation ≠ current.generation then .stale
    else .at c

/-- `current` reached: what the freeze walk does next. -/
def afterMark (f : RevokeFrame) (c : CapRef) (e : CapabilityEntry) : RevokePc :=
  if capLocatorIsNull e.firstChild = false then .mark e.firstChild
  else if capLocatorIsNull e.nextSibling = false ∧ c ≠ f.root then .mark e.nextSibling
  else .climb e.parent

/-- On to the next sibling, or up where there is none. -/
def siblingOrUp (e : CapabilityEntry) : RevokePc :=
  if capLocatorIsNull e.nextSibling = false then .mark e.nextSibling else .climb e.parent

/-- One ancestor on the way up. -/
def climbStep (R : Registry) (f : RevokeFrame) (current : BhCapLocator) : RevokePc :=
  if capLocatorIsNull current then .epoch
  else if f.isRoot current then .epoch
  else
    match visit R current with
    | .lost | .stale => .epoch
    | .at c => siblingOrUp (R.entry c)

/-- The cores a revocation asks: every other core with a bound channel. -/
def broadcastTargets (k : Kernel) (core : Core) : List Core :=
  (List.finRange 32).filter fun c => c ≠ core ∧ k.channels c = .bound

def coreMask (cores : List Core) : BitVec 32 :=
  cores.foldl (fun mask c => mask ||| 1#32 <<< c.val) 0

/-- Where the post-order walk goes after the node at `current` was freed. -/
def afterFree (f : RevokeFrame) (current : BhCapLocator) (onward : Onward) : RevokePc :=
  if f.isRoot current then .finish
  else if capLocatorIsNull onward.sibling = false then .free onward.sibling .down
  else .free onward.parent .up

end Kernel

namespace RevokeCall

open Kernel

/-- One section of a revocation; `expired` is what a deadline check answers. A
table that is gone leaves the call without memory to go on. -/
def step (expired : Bool) : Sections Kernel RevokeCall Int := fun k call =>
  let f := call.frame
  let goto : Kernel → RevokePc → Kernel × (RevokeCall ⊕ Int) := fun k pc => (k, .inl ⟨f, pc⟩)
  let registered := k.registry.cspaceId f.table == some f.tableId
  match call.pc with
  | .unlink parent =>
    if !registered then goto k call.pc
    else
      match k.unlinkRoot f parent with
      | .stuck => goto k call.pc
      | .done k' => goto k' (.mark (f.rootLocator 0))
      | .refused =>
        match f.tx with
        | none => (k, .inr (-2))
        | some slot => (k.releaseTx f.core slot, .inr (-2))
  | .mark current =>
    if capLocatorIsNull current then goto k .epoch
    else
      match visit k.registry current with
      | .lost => goto k .epoch
      | .stale =>
        match f.tx with
        | none => (k, .inr (-3))
        | some slot => ((k.setTxState f.core slot .aborted).releaseTx f.core slot, .inr (-3))
      | .at c => goto (k.edit c (.state .revoking)) (afterMark f c (k.registry.entry c))
  | .climb current => goto k (climbStep k.registry f current)
  | .epoch =>
    if !registered then goto k call.pc
    else
      let e := k.registry.entry f.root
      let next : BitVec 64 → RevokePc := fun epoch =>
        if f.tx.isSome then .publish epoch else .free (f.rootLocator 0) .down
      if e.inUse ∧ e.generation = f.rootGen then
        goto (k.edit f.root .bumpEpoch) (next (e.revocationEpoch + 1))
      else goto k (next 0)
  | .publish epoch =>
    match f.tx with
    | none => goto k .finish
    | some slot =>
      let targets := k.broadcastTargets f.core
      goto (k.setTx f.core slot
        { k.txs f.core slot with
          target := f.rootLocator (epoch.setWidth 32)
          revocationEpoch := epoch
          targetMask := coreMask targets
          ackMask := 0
          result := 0
          state := .published }) (.broadcast targets)
  | .broadcast [] => goto k .await
  | .broadcast (c :: rest) =>
    match f.tx with
    | none => goto k .finish
    | some slot => goto (k.sendReq f.core c slot .capRevoke .revokePrepare).1 (.broadcast rest)
  | .await =>
    match f.tx with
    | none => goto k .finish
    | some slot =>
      if acknowledged (k.txs f.core slot) then goto k .commit
      else if expired then goto k .abort
      else goto k .await
  | .abort =>
    match f.tx with
    | none => goto k .finish
    | some slot => goto (k.setTxState f.core slot .aborted) .releaseAborted
  | .releaseAborted =>
    match f.tx with
    | none => goto k .finish
    | some slot => goto (k.releaseTx f.core slot) .quarantine
  | .quarantine =>
    if !registered then goto k call.pc
    else
      let e := k.registry.entry f.root
      if e.inUse ∧ e.generation = f.rootGen then
        (k.edit f.root (.state .quarantined), .inr (-7))
      else (k, .inr (-7))
  | .commit =>
    match f.tx with
    | none => goto k .finish
    | some slot => goto (k.setTxState f.core slot .committed) .releaseCommitted
  | .releaseCommitted =>
    match f.tx with
    | none => goto k .finish
    | some slot => goto (k.releaseTx f.core slot) (.free (f.rootLocator 0) .down)
  | .free current dir =>
    if capLocatorIsNull current then goto k .finish
    else
      match visit k.registry current with
      | .lost | .stale => goto k .finish
      | .at c =>
        let e := k.registry.entry c
        let onward : Onward := ⟨e.nextSibling, e.parent⟩
        if dir = .down ∧ capLocatorIsNull e.firstChild = false then
          goto k (.free e.firstChild .down)
        else if e.activePins ≠ 0 then goto k (.drain current onward)
        else goto (k.freeEntry c) (afterFree f current onward)
  | .drain current onward =>
    match k.registry.locate current with
    | none => goto k call.pc
    | some c =>
      let e := k.registry.entry c
      if e.inUse = false ∨ e.generation ≠ current.generation ∨ e.activePins = 0 then
        goto k (.relock current onward false)
      else if expired then goto k (.relock current onward true)
      else goto k call.pc
  | .relock current onward pinTimedOut =>
    match visit k.registry current with
    | .lost => goto k call.pc
    | .stale => goto k .finish
    | .at c =>
      if pinTimedOut ∧ (k.registry.entry c).activePins ≠ 0 then
        (k.edit c (.state .quarantined), .inr (-7))
      else goto (k.freeEntry c) (afterFree f current onward)
  | .finish =>
    match f.tx with
    | none => (k, .inr 0)
    | some slot => (k, .inr (if (k.txs f.core slot).state = .aborted then -7 else 0))

end RevokeCall

namespace Kernel

/-- The live or dying root that a handle names. -/
def findRoot (R : Registry) (ref : TableRef) (capId : BitVec 32) : Option CapRef :=
  match R.findIndex ref capId with
  | none => none
  | some c =>
    if bhCapGenerationMatches (R.entry c).generation (bhCapGeneration capId) = false then none
    else if (R.entry c).state = .free then none
    else some c

/-- The section that finds and marks the root. -/
def revokeRoot (k : Kernel) (core : Core) (ref : TableRef) (capId : BitVec 32)
    (tx : Option TxSlot) : Kernel × (RevokeCall ⊕ Int) :=
  match findRoot k.registry ref capId, k.registry.cspaceId ref with
  | some c, some id =>
    let e := k.registry.entry c
    let f : RevokeFrame := ⟨core, tx, ref, id, c.slot, e.generation⟩
    (k.edit c (.state .revoking), .inl ⟨f,
      if (k.registry.capLocatorResolveTable e.parent).isSome then .unlink e.parent
      else .mark (f.rootLocator 0)⟩)
  | _, _ =>
    match tx with
    | none => (k, .inr (-2))
    | some slot => (k.releaseTx core slot, .inr (-2))

/-- `cap_table_revoke` up to the end of its first lock section. -/
def capTableRevoke (k : Kernel) (core : Core) (ref : TableRef) (capId : BitVec 32) :
    Kernel × (RevokeCall ⊕ Int) :=
  if (k.registry.table ref).isNone ∨ capId = 0 then (k, .inr (-1))
  else if k.pmmInitialized then
    match k.txs.capTxAlloc core .revoke with
    | none => (k, .inr (-6))
    | some (slot, txs) => { k with txs := txs }.revokeRoot core ref capId (some slot)
  else k.revokeRoot core ref capId none

/-- A revocation that runs alone: nobody else answers or unpins, so every wait
that is not satisfied at once ends with its deadline. -/
def Revokes (k : Kernel) (core : Core) (ref : TableRef) (capId : BitVec 32) (k' : Kernel)
    (result : Int) : Prop :=
  Sections.Finishes (RevokeCall.step true) (k.capTableRevoke core ref capId) k' result

end Kernel

end BharatOS
