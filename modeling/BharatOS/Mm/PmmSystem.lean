import BharatOS.Lib.Buddy
import BharatOS.Lib.Runs
import BharatOS.Mm.PmmContiguous

/-!
# The memory manager and its callers (`pmm_init.c`, `pmm_buddy.c`)

An action is one call into the memory manager, by any core. A caller frees only the first
page of a block that it was given, and the regions of the memory map do not overlap.
-/

namespace BharatOS

structure HalMmZoneLimits where
  dma32Start : Nat
  dma32End : Nat
  deriving DecidableEq, Repr

namespace Pmm

/-- Before the first region is known. -/
def boot (maxCpus : Nat) : Pmm where
  maxCpus := maxCpus
  activeNumaNodes := 0
  numaNodes := fun _ => ⟨0, 0, 0⟩
  pages := fun _ => ⟨0, 0, 0, .any, 0, .free⟩
  freeList := fun _ => []
  coreActive := fun _ => false
  nodeCaches := fun _ => []
  inbox := fun _ => []

/-- The record of a page that pass 1 of `pmm_add_region` writes. -/
def reservedPage (limits : HalMmZoneLimits) (paddr : Nat) : Page where
  refCount := 1
  ownerCoreId := 0
  order := 0
  zone := if limits.dma32Start ≤ paddr ∧ paddr ≤ limits.dma32End then .dma32 else .normal
  pinCount := 0
  state := .reserved

/-- `pmm_add_region` up to the end of its pass 1. -/
def pmmAddRegion (s : Pmm) (base size : Nat) (limits : HalMmZoneLimits) : Pmm :=
  if size < pageSize ∨ maxNumaNodes ≤ s.activeNumaNodes then s
  else
    let nodeId := s.activeNumaNodes
    let pageCount := size / pageSize
    { s with
      activeNumaNodes := nodeId + 1
      numaNodes := Function.update s.numaNodes nodeId ⟨base, pageCount, 0⟩
      pages := fun page =>
        if page.1 = nodeId ∧ page.2 < pageCount then reservedPage limits (base + page.2 * pageSize)
        else s.pages page
      freeList := fun key => if key.1 = nodeId then [] else s.freeList key }

/-- Whether a region of the memory map overlaps none of the nodes. -/
def clearOf (s : Pmm) (base size : Nat) : Bool :=
  (List.range s.activeNumaNodes).all fun n =>
    base + size ≤ (s.numaNodes n).startAddr ||
      (s.numaNodes n).startAddr + (s.numaNodes n).totalPages * pageSize ≤ base

def pmmCoreLocalInit (s : Pmm) (core : Nat) : Pmm :=
  if s.coreIdValid core then s.setActive core else s

end Pmm

/-- What is not in the code: `held` are the blocks that callers have been given and not
freed, `parts` the pages of runs whose length is not a power of two, and `reserved` the
pages that `pmm_add_region` has not released, these two as blocks of order 0. -/
structure PmmSystem where
  pmm : Pmm
  held : List Block
  parts : List Block
  reserved : List Block

/-- `release` is one round of pass 2 of `pmm_add_region`. -/
inductive PmmAction where
  | addRegion (base size : Nat) (limits : HalMmZoneLimits)
  | release (core phys : Nat)
  | coreLocalInit (core : Nat)
  | alloc (core currentNode order preferred : Nat) (config : Option MmColorConfig)
      (zone : PmmZone) (fallback pinned : Bool)
  | allocContiguous (core currentNode pageCount : Nat) (zone : PmmZone) (pinned : Bool)
  | free (core phys : Nat)
  | freePages (core : Nat) (block : PmmBlock)
  | refGet (phys : Nat)
  | refPut (core phys : Nat)
  | pin (phys : Nat)
  | unpin (phys : Nat)
  | drain (current core : Nat)

/-- The pages from the one with the index, as blocks. -/
def pagesFrom (n i count : Nat) : List Block := (List.range' i count).map fun j => ⟨n, 0, j⟩

/-- Take blocks out of a list that has them all. -/
def takeAll : List Block → List Block → Option (List Block)
  | [], blocks => some blocks
  | b :: rest, blocks => if b ∈ blocks then takeAll rest (blocks.erase b) else none

namespace PmmSystem

def boot (maxCpus : Nat) : PmmSystem := ⟨.boot maxCpus, [], [], []⟩

/-- The block in the list whose first page has the address. -/
def blockAt (s : PmmSystem) (blocks : List Block) (phys : Nat) : Option Block :=
  (s.pmm.physToPage phys).bind fun page =>
    blocks.find? fun b => b.node = page.1 ∧ b.index = page.2

/-- The pages of a region that was added. -/
def newPages (before after : Pmm) : List Block :=
  if before.activeNumaNodes = after.activeNumaNodes then []
  else pagesFrom before.activeNumaNodes 0 (after.numaNodes before.activeNumaNodes).totalPages

/-- What callers have after one of them was given a block. -/
def giveOut (s : PmmSystem) (pmm : Pmm) (block : PmmBlock) : PmmSystem :=
  match pmm.physToPage block.physAddr with
  | none => { s with pmm := pmm }
  | some (n, i) =>
    if block.pageCount = 2 ^ block.order then
      { s with pmm := pmm, held := ⟨n, block.order, i⟩ :: s.held }
    else { s with pmm := pmm, parts := pagesFrom n i block.pageCount ++ s.parts }

/-- What callers have left when one of them gives a block back, if they have it: a block
that was allocated as one may come back as a run of pages. -/
def giveBack (s : PmmSystem) (block : PmmBlock) : Option PmmSystem :=
  (s.pmm.physToPage block.physAddr).bind fun page =>
    if block.pageCount = 2 ^ block.order then
      if ⟨page.1, block.order, page.2⟩ ∈ s.held then
        some { s with held := s.held.erase ⟨page.1, block.order, page.2⟩ }
      else none
    else if block.pageCount = 0 then none
    else
      match s.held.find? fun b =>
        b.node = page.1 ∧ b.index = page.2 ∧ 2 ^ b.order = block.pageCount with
      | some b => some { s with held := s.held.erase b }
      | none => (takeAll (pagesFrom page.1 page.2 block.pageCount) s.parts).map
          fun parts => { s with parts := parts }

/-- A caller does something to the first page of a block that it has. -/
def onHeld (s : PmmSystem) (phys : Nat) (change : Pmm → Nat → Pmm) : Option PmmSystem :=
  (s.blockAt s.held phys).map fun _ => { s with pmm := change s.pmm phys }

/-- The state after a call; `none` if no caller makes it, or if it panics. -/
def step (s : PmmSystem) : PmmAction → Option PmmSystem
  | .addRegion base size limits =>
    if s.pmm.clearOf base size then
      let pmm := s.pmm.pmmAddRegion base size limits
      some { s with pmm := pmm, reserved := newPages s.pmm pmm ++ s.reserved }
    else none
  | .release core phys =>
    -- no page below the end of the early memory is released
    if pageSize ≤ phys then
      (s.blockAt s.reserved phys).bind fun b =>
        (s.pmm.markPageFree core phys).map fun pmm =>
          { s with pmm := pmm, reserved := s.reserved.erase b }
    else none
  | .coreLocalInit core => some { s with pmm := s.pmm.pmmCoreLocalInit core }
  | .alloc core currentNode order preferred config zone fallback pinned =>
    -- a caller that wants one node only has looked whether there is one
    if fallback ∨ 0 < s.pmm.activeNumaNodes then
      (s.pmm.pmmAllocPagesColoredInZone core currentNode order preferred config zone fallback).map
        fun out =>
          if out.2 = 0 then { s with pmm := out.1 }
          else
            s.giveOut (if pinned then out.1.onPage out.2 ({ · with pinCount := 1 }) else out.1)
              ⟨out.2, order, 2 ^ order⟩
    else none
  | .allocContiguous core currentNode pageCount zone pinned =>
    (s.pmm.pmmAllocContiguousEx core currentNode pageCount zone pinned).map fun out =>
      match out.2 with
      | none => { s with pmm := out.1 }
      | some block => s.giveOut out.1 block
  | .free core phys =>
    (s.blockAt s.held phys).bind fun b =>
      (s.pmm.mmFreePage core phys).map fun pmm =>
        { s with
          pmm := pmm
          held := if 1 < (s.pmm.pages (b.node, b.index)).refCount then s.held else s.held.erase b }
  | .freePages core block =>
    (s.giveBack block).bind fun left =>
      (s.pmm.pmmFreePages core block).map fun out =>
        if out.2 then { left with pmm := out.1 } else { s with pmm := out.1 }
  | .refGet phys => s.onHeld phys Pmm.pmmRefGet
  | .refPut core phys =>
    (s.blockAt s.held phys).bind fun b =>
      (s.pmm.pmmRefPut core phys).map fun pmm =>
        { s with
          pmm := pmm
          held := if (s.pmm.pages (b.node, b.index)).lastPut then s.held.erase b else s.held }
  | .pin phys => s.onHeld phys Pmm.pmmPin
  | .unpin phys => s.onHeld phys Pmm.pmmUnpin
  | .drain current core =>
    (s.pmm.pmmDrainRemoteFrees current core).map fun pmm => { s with pmm := pmm }

/-- One call. -/
def Steps (s : PmmSystem) (a : PmmAction) (s' : PmmSystem) : Prop := s.step a = some s'

end PmmSystem

end BharatOS
