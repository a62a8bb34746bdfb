import BharatOS.Vm.Region

/-!
# Calls on the regions of an address space (`aspace.c`)

The calls hold the lock of the address space; each is one step of the system. The objects of the
regions and the hardware are not part of the model: no call looks at them.
-/

namespace BharatOS

open Function

/-- The results of the calls. -/
inductive VmStatus where
  | ok | invalidArg | badState | notFound | overflow | noMemory | alreadyMapped
  deriving DecidableEq, Repr

def VmStatus.of {α : Type} : Except VmStatus α → VmStatus
  | .ok _ => .ok
  | .error e => e

namespace RegionState

open Prog

/-- `kmalloc` of a region: a pointer that is not in use, or null. -/
def kmalloc (s : RegionState) : RegionState × Option RegionPtr :=
  match s.kmallocs with
  | some p :: rest =>
    if s.live p then ({ s with kmallocs := rest }, none)
    else ({ s with kmallocs := rest, live := update s.live p true }, some p)
  | none :: rest => ({ s with kmallocs := rest }, none)
  | [] => (s, none)

def kfree (s : RegionState) (p : RegionPtr) : RegionState :=
  { s with live := update s.live p false }

def setRegion (s : RegionState) (p : RegionPtr) (r : VmRegion) : RegionState :=
  { s with region := update s.region p r }

def rangeOverlaps (aBase aEnd bBase bEnd : Nat) : Bool := ¬ (aEnd ≤ bBase ∨ bEnd ≤ aBase)

/-- On which side of a node `aspace_check_overlap` goes on. -/
def overlapSide (s : RegionState) (base : Nat) (p : RegionPtr) : ChildSide :=
  match s.kid .left p with
  | some l => if base < s.maxEnd l then .left else .right
  | none => .right

/-- The loop of `aspace_check_overlap`. -/
def findOverlap (s : RegionState) (base stop : Nat) : Prog Bool :=
  loop (fun curr =>
    match curr with
    | none => pure (.inr false)
    | some p =>
      if rangeOverlaps base stop (s.region p).base (s.region p).stop then pure (.inr true)
      else pure (.inl (s.kid (s.overlapSide base p) p))) s.regionsTreeRoot

def aspaceCheckOverlap (s : RegionState) (base length : Nat) : Prog Bool :=
  if length = 0 then pure true
  else
    let stop := wrap64 (base + length)
    if stop ≤ base then pure true else s.findOverlap base stop

def aspaceLookupRegion (s : RegionState) (va : Nat) : Prog (Option RegionPtr) :=
  loop (fun curr =>
    match curr with
    | none => pure (.inr none)
    | some p =>
      if (s.region p).base ≤ va ∧ va < (s.region p).stop then pure (.inr (some p))
      else pure (.inl (if va < (s.region p).base then s.kid .left p else s.kid .right p)))
    s.regionsTreeRoot

/-- The loop of `insert_region_sorted`: the regions before and after the new one. -/
def listPlace (s : RegionState) (new : RegionPtr) :
    Prog (Option RegionPtr × Option RegionPtr) :=
  loop (fun (prev, curr) =>
    match curr with
    | none => pure (.inr (prev, none))
    | some c =>
      if (s.region c).base < (s.region new).base then pure (.inl (some c, s.next c))
      else pure (.inr (prev, some c))) ((none : Option RegionPtr), s.regions)

/-- The assignments of `insert_region_sorted` that link a region into the list. -/
def linkBetween (s : RegionState) (new : RegionPtr) (prev curr : Option RegionPtr) : RegionState :=
  let s := s.setNext new curr
  let s := s.setPrev new prev
  let s := match prev with
    | some p => s.setNext p (some new)
    | none => { s with regions := some new }
  match curr with
  | some c => s.setPrev c (some new)
  | none => s

/-- `insert_region_sorted`. For an empty list the loop does not go round. -/
def insertRegionSorted (s : RegionState) (new : RegionPtr) : Prog RegionState := do
  let (prev, curr) ← s.listPlace new
  let s := s.linkBetween new prev curr
  let s ← s.treeInsert new
  return { s with regionCount := wrap64 (s.regionCount + 1) }

def aspaceRegionAttach (s : RegionState) (base length : BitVec 64) (prot mapFlags : BitVec 32)
    (inherit : VmInherit) (object : Option Nat) (objectOffset : BitVec 64) :
    Prog (RegionState × Except VmStatus RegionPtr) :=
  if length = 0 then pure (s, .error .invalidArg)
  else if s.state.refused then pure (s, .error .badState)
  else
    let base := pageDown base.toNat
    let length := pageUp length.toNat
    if wrap64 (base + length) ≤ base then pure (s, .error .overflow)
    else do
      let overlap ← s.aspaceCheckOverlap base length
      if overlap then return (s, .error .alreadyMapped)
      else match s.kmalloc with
        | (s, none) => return (s, .error .noMemory)
        | (s, some region) =>
          let s := s.setRegion region
            ⟨base, length, prot, mapFlags, 0, inherit, object, objectOffset.toNat⟩
          let s ← s.insertRegionSorted region
          return (s, .ok region)

/-- `aspace_region_reserve` does the same without an object. -/
def aspaceRegionReserve (s : RegionState) (base length : BitVec 64) (prot mapFlags : BitVec 32)
    (inherit : VmInherit) : Prog (RegionState × Except VmStatus RegionPtr) :=
  s.aspaceRegionAttach base length prot mapFlags inherit none 0

/-- The assignments that take a region out of the list. -/
def unlinkRegion (s : RegionState) (curr : RegionPtr) : RegionState :=
  let s := match s.prev curr with
    | some p => s.setNext p (s.next curr)
    | none => { s with regions := s.next curr }
  match s.next curr with
  | some n => s.setPrev n (s.prev curr)
  | none => s

/-- A region is taken out of the list and freed. -/
def dropRegion (s : RegionState) (curr : RegionPtr) : RegionState :=
  let s := s.unlinkRegion curr
  { s with regionCount := wrap64 (s.regionCount + 2 ^ 64 - 1) }.kfree curr

/-- A region is taken out of the tree and of the list, and freed. -/
def removeRegion (s : RegionState) (curr : RegionPtr) : Prog RegionState := do
  let s ← s.treeRemove curr
  return s.dropRegion curr

/-- The loop of `aspace_region_detach`. -/
def findBase (s : RegionState) (base : Nat) : Prog (Option RegionPtr) :=
  loop (fun curr =>
    match curr with
    | none => pure (.inr none)
    | some c => if (s.region c).base = base then pure (.inr (some c)) else pure (.inl (s.next c)))
    s.regions

def aspaceRegionDetach (s : RegionState) (base : BitVec 64) : Prog (RegionState × VmStatus) :=
  if s.state.refused then pure (s, .badState)
  else do
    let found ← s.findBase (pageDown base.toNat)
    match found with
    | none => return (s, .notFound)
    | some curr =>
      let s ← s.removeRegion curr
      return (s, .ok)

inductive VmMapType where
  | anon | file | shared | device
  deriving DecidableEq, Repr

structure VmMapRequest where
  hint : BitVec 64
  length : BitVec 64
  prot : BitVec 32
  type : VmMapType
  flags : BitVec 32
  object : Option Nat
  objectOffset : BitVec 64

/-- `vm_map_region`. `anon` is what `vm_object_create_anon` gives. -/
def vmMapRegion (s : RegionState) (request : VmMapRequest) (anon : Option Nat) :
    Prog (RegionState × VmStatus) :=
  if s.state.refused then pure (s, .badState)
  else
    let object := if request.object = none ∧ request.type = .anon then anon else request.object
    if object = none ∧ request.type = .anon then pure (s, .noMemory)
    else do
      let (s, result) ← s.aspaceRegionAttach request.hint request.length request.prot request.flags
        .copyMeta object request.objectOffset
      return (s, .of result)

/-- `aspace_split_region`; whether it returns `K_OK`. -/
def aspaceSplitRegion (s : RegionState) (r : RegionPtr) (splitAddr : Nat) :
    Prog (RegionState × Bool) :=
  let old := s.region r
  if splitAddr ≤ old.base ∨ old.stop ≤ splitAddr then pure (s, false)
  else match s.kmalloc with
    | (s, none) => pure (s, false)
    | (s, some new) => do
      let s := s.setRegion new { old with
        base := splitAddr
        length := wrap64 (old.base + old.length + 2 ^ 64 - splitAddr)
        objectOffset := wrap64 (old.objectOffset + (splitAddr - old.base)) }
      let s := s.setRegion r { s.region r with length := splitAddr - old.base }
      let s ← s.insertRegionSorted new
      return (s, true)

/-- Split `curr` at the start of the range, if it begins before. It gives the region that begins in
the range and the region to go on with, or nothing if there is no memory. -/
def splitStart (s : RegionState) (curr : RegionPtr) (address : Nat) :
    Prog (RegionState × Option (RegionPtr × Option RegionPtr)) :=
  if (s.region curr).base < address then do
    let (s, split) ← s.aspaceSplitRegion curr address
    if split then
      let next := s.next curr
      let second ← deref next
      return (s, some (second, next))
    else return (s, none)
  else pure (s, some (curr, s.next curr))

/-- Split `curr` at the end of the range, if it ends after. -/
def splitEnd (s : RegionState) (curr : RegionPtr) (next : Option RegionPtr) (stop : Nat) :
    Prog (RegionState × Option (RegionPtr × Option RegionPtr)) :=
  if stop < (s.region curr).stop then do
    let (s, split) ← s.aspaceSplitRegion curr stop
    if split then return (s, some (curr, s.next curr)) else return (s, none)
  else pure (s, some (curr, next))

/-- The body of the loops of `vm_unmap_region` and `vm_protect_region` for a region `curr`: where it
meets the range, it is split and `act` is done to what is within. -/
def rangeRound (act : RegionState → RegionPtr → Prog RegionState) (address stop : Nat)
    (s : RegionState) (curr : RegionPtr) :
    Prog ((RegionState × Option RegionPtr) ⊕ RegionState × VmStatus) :=
  if (s.region curr).base < stop ∧ address < (s.region curr).stop then do
    let (s, first) ← s.splitStart curr address
    match first with
    | none => return .inr (s, .noMemory)
    | some (curr, next) =>
      let (s, second) ← s.splitEnd curr next stop
      match second with
      | none => return .inr (s, .noMemory)
      | some (curr, next) =>
        let s ← act s curr
        return .inl (s, next)
  else pure (.inl (s, s.next curr))

/-- The common part of `vm_unmap_region` and `vm_protect_region`. -/
def forRange (act : RegionState → RegionPtr → Prog RegionState) (s : RegionState)
    (address length : BitVec 64) : Prog (RegionState × VmStatus) :=
  if length = 0 then pure (s, .invalidArg)
  else if s.state.refused then pure (s, .badState)
  else
    let endAddr := wrap64 (address.toNat + length.toNat)
    let address := pageDown address.toNat
    let endAddr := pageUp endAddr
    let length := wrap64 (endAddr + 2 ^ 64 - address)
    loop (fun (s, curr) =>
      match curr with
      | none => pure (.inr (s, .ok))
      | some curr => rangeRound act address (wrap64 (address + length)) s curr) (s, s.regions)

def vmUnmapRegion (s : RegionState) (address length : BitVec 64) : Prog (RegionState × VmStatus) :=
  s.forRange removeRegion address length

/-- `curr->prot = protection;` -/
def setProt (protection : BitVec 32) (s : RegionState) (curr : RegionPtr) : RegionState :=
  s.setRegion curr { s.region curr with prot := protection }

def vmProtectRegion (s : RegionState) (address length : BitVec 64) (protection : BitVec 32) :
    Prog (RegionState × VmStatus) :=
  s.forRange (fun s curr => pure (s.setProt protection curr)) address length

/-- The body of the loop of `aspace_clone`, in the new address space. -/
def cloneRound (s : RegionState) (curr : RegionPtr) :
    Prog ((RegionState × Option RegionPtr) ⊕ RegionState × Bool) :=
  if (s.region curr).inherit = .none then pure (.inl (s, s.next curr))
  else match s.kmalloc with
    | (s, none) => pure (.inr (s, false))
    | (s, some new) => do
      let s := s.setRegion new (s.region curr)
      let s ← s.insertRegionSorted new
      return .inl (s, s.next curr)

/-- The loop of `aspace_clone` over the regions of the source; whether there was enough memory. -/
def cloneRegions (s : RegionState) (regions : Option RegionPtr) : Prog (RegionState × Bool) :=
  loop (fun (s, curr) =>
    match curr with
    | none => pure (.inr (s, true))
    | some curr => s.cloneRound curr) (s, regions)

/-- The loop of `aspace_destroy`. -/
def freeRegions (s : RegionState) : Prog RegionState :=
  loop (fun (s, curr) =>
    match curr with
    | none => pure (.inr s)
    | some curr => pure (.inl (s.kfree curr, s.next curr))) (s, s.regions)

/-- The calls on one address space. `mark` stands for what changes the state of the address space,
and `anon` is the object that `vm_object_create_anon` gives. -/
inductive AspaceCall where
  | mark (state : AspaceState)
  | reserve (base length : BitVec 64) (prot mapFlags : BitVec 32) (inherit : VmInherit)
  | attach (base length : BitVec 64) (prot mapFlags : BitVec 32) (inherit : VmInherit)
      (object : Option Nat) (objectOffset : BitVec 64)
  | detach (base : BitVec 64)
  | map (request : VmMapRequest) (anon : Option Nat)
  | unmap (address length : BitVec 64)
  | protect (address length : BitVec 64) (protection : BitVec 32)

def call (s : RegionState) : AspaceCall → Prog (RegionState × VmStatus)
  | .mark state => pure ({ s with state := state }, .ok)
  | .reserve base length prot mapFlags inherit => do
    let (s, result) ← s.aspaceRegionReserve base length prot mapFlags inherit
    return (s, .of result)
  | .attach base length prot mapFlags inherit object objectOffset => do
    let (s, result) ← s.aspaceRegionAttach base length prot mapFlags inherit object objectOffset
    return (s, .of result)
  | .detach base => s.aspaceRegionDetach base
  | .map request anon => s.vmMapRegion request anon
  | .unmap address length => s.vmUnmapRegion address length
  | .protect address length protection => s.vmProtectRegion address length protection

end RegionState

/-- The regions of all address spaces, which have numbers. -/
structure VmSpaces where
  mem : RegionMem
  spaces : Nat → Option AspaceIndex

/-- `answers` is what `kmalloc` answers during the call, and `created` whether `aspace_create`
succeeds. -/
inductive VmCall where
  | create (space : Nat)
  | call (space : Nat) (answers : List (Option RegionPtr)) (call : RegionState.AspaceCall)
  | clone (space dst : Nat) (created : Bool) (answers : List (Option RegionPtr))

namespace VmSpaces

open Prog

/-- `aspace_create` -/
def emptyAspace : AspaceIndex := ⟨none, none, 0, .created⟩

/-- What a call on a space works on. -/
def enter (s : VmSpaces) (as : AspaceIndex) (answers : List (Option RegionPtr)) : RegionState :=
  { s.mem with toAspaceIndex := as, kmallocs := answers }

def leave (s : VmSpaces) (space : Nat) (r : RegionState) : VmSpaces :=
  ⟨r.toRegionMem, update s.spaces space (some r.toAspaceIndex)⟩

/-- `aspace_clone`. If there is not enough memory, the regions of the new space are freed. -/
def aspaceClone (s : VmSpaces) (space dst : Nat) (created : Bool)
    (answers : List (Option RegionPtr)) : Prog (VmSpaces × VmStatus) := do
  let src ← deref (s.spaces space)
  if src.state.refused then return (s, .badState)
  else if ¬ created then return (s, .noMemory)
  else
    let (r, enough) ← (s.enter emptyAspace answers).cloneRegions src.regions
    if enough then return (s.leave dst r, .ok)
    else
      let r ← r.freeRegions
      return (⟨r.toRegionMem, s.spaces⟩, .noMemory)

/-- A new address space gets a number that no other has. -/
def step (s : VmSpaces) : VmCall → Prog (VmSpaces × VmStatus)
  | .create space =>
    if (s.spaces space).isSome then deref none
    else pure (⟨s.mem, update s.spaces space (some emptyAspace)⟩, .ok)
  | .call space answers call => do
    let as ← deref (s.spaces space)
    let (r, status) ← (s.enter as answers).call call
    return (s.leave space r, status)
  | .clone space dst created answers =>
    if (s.spaces dst).isSome then deref none else s.aspaceClone space dst created answers

end VmSpaces

end BharatOS
