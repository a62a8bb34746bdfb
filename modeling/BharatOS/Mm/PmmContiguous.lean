import BharatOS.Mm.PmmAlloc

/-!
# Blocks and runs of pages (`pmm_buddy.c`)

`pmm_alloc_contiguous_ex` takes a block that is large enough and frees the pages that are left over
one by one; `pmm_free_pages` frees a block by its first page and any other run one by one.
-/

namespace BharatOS

structure PmmBlock where
  physAddr : Nat
  order : Nat
  pageCount : Nat
  deriving DecidableEq, Repr

def numaNodeAny : Nat := 0xFFFFFFFF

namespace Pmm

/-- A write to the record of the page that has the address, if there is one. -/
def onPage (s : Pmm) (phys : Nat) (change : Page → Page) : Pmm :=
  match s.physToPage phys with
  | none => s
  | some page => s.setPage page (change (s.pages page))

def pmmAllocPagesEx (s : Pmm) (core currentNode order : Nat) (zone : PmmZone) (pinned : Bool) :
    Option (Pmm × Option PmmBlock) :=
  if maxOrder ≤ order then some (s, none)
  else
    (s.pmmAllocPagesColoredInZone core currentNode order numaNodeAny none zone true).map fun out =>
      if out.2 = 0 then (out.1, none)
      else
        (if pinned then out.1.onPage out.2 ({ · with pinCount := 1 }) else out.1,
          some ⟨out.2, order, 2 ^ order⟩)

/-- The loop that looks for the order of a number of pages, for at most as many orders as
a 32-bit number needs. -/
def contiguousOrder (pageCount : Nat) : Nat → Nat → Nat
  | 0, order => order
  | left + 1, order =>
    if 2 ^ order < pageCount then contiguousOrder pageCount left (order + 1) else order

/-- The loops that free pages one by one. -/
def freeEach (core : Nat) : List Nat → Pmm → Option Pmm
  | [], s => some s
  | phys :: rest, s =>
    ((s.onPage phys ({ · with refCount := 1, order := 0 })).mmFreePage core phys).bind
      (freeEach core rest)

/-- The addresses of a run of pages. -/
def runFrom (phys first count : Nat) : List Nat :=
  (List.range' first count).map fun i => phys + i * pageSize

def pmmAllocContiguousEx (s : Pmm) (core currentNode pageCount : Nat) (zone : PmmZone)
    (pinned : Bool) : Option (Pmm × Option PmmBlock) :=
  if pageCount = 0 then some (s, none)
  else
    let order := contiguousOrder pageCount 32 0
    if 2 ^ order = pageCount then s.pmmAllocPagesEx core currentNode order zone pinned
    else if maxOrder ≤ order then some (s, none)
    else
      (s.pmmAllocPagesEx core currentNode order zone pinned).bind fun out =>
        match out.2 with
        | none => some (out.1, none)
        | some big =>
          (freeEach core (runFrom big.physAddr pageCount (2 ^ big.order - pageCount)) out.1).map
            fun s =>
              (s.onPage big.physAddr fun page =>
                { page with order := 0, pinCount := if pinned then 1 else 0 },
                some ⟨big.physAddr, 0, pageCount⟩)

/-- Whether the page that has the address is pinned. -/
def pinnedAt (s : Pmm) (phys : Nat) : Bool :=
  (s.physToPage phys).any fun page => 0 < (s.pages page).pinCount

def pmmFreePages (s : Pmm) (core : Nat) (block : PmmBlock) : Option (Pmm × Bool) :=
  if 0 < block.pageCount ∧ block.pageCount ≠ 2 ^ block.order then
    let pages := runFrom block.physAddr 0 block.pageCount
    if pages.any s.pinnedAt then some (s, false)
    else (freeEach core pages s).map fun s => (s, true)
  else if s.pinnedAt block.physAddr then some (s, false)
  else
    ((s.onPage block.physAddr
      ({ · with order := block.order, refCount := 1 })).mmFreePage core block.physAddr).map
        fun s => (s, true)

/-- The number of pages of a DMA buffer, as the 32-bit value that is passed on. -/
def dmaPages (size : Nat) : Nat := (size + pageSize - 1) / pageSize % 2 ^ 32

/-- `mm_alloc_dma_pages`. `mapped` says whether `physmap_phys_to_virt` has an address for
the buffer. -/
def mmAllocDmaPages (s : Pmm) (core currentNode size : Nat) (only32 mapped : Bool) :
    Option (Pmm × Option Nat) :=
  if size = 0 then some (s, none)
  else
    (s.pmmAllocContiguousEx core currentNode (dmaPages size) (if only32 then .dma32 else .any)
      false).bind fun out =>
        match out.2 with
        | none => some (out.1, none)
        | some block =>
          if mapped then some (out.1, some block.physAddr)
          else (out.1.pmmFreePages core block).map fun out => (out.1, none)

def mmFreeDmaPages (s : Pmm) (core phys size : Nat) : Option (Pmm × Bool) :=
  if phys = 0 ∨ size = 0 then some (s, false)
  else s.pmmFreePages core ⟨phys, 0, dmaPages size⟩

def pmmRefGet (s : Pmm) (phys : Nat) : Pmm :=
  s.onPage phys fun page =>
    if page.refCount = 0 then page else { page with refCount := page.refCount + 1 }

def pmmRefPut (s : Pmm) (core phys : Nat) : Option Pmm :=
  match s.physToPage phys with
  | none => some s
  | some key =>
    let page := s.pages key
    if page.refCount = 0 ∨ page.refCount = 1 ∧ 0 < page.pinCount then some s
    else
      let s := s.setPage key { page with refCount := page.refCount - 1 }
      if page.lastPut then s.mmFreePage core phys else some s

def pmmPin (s : Pmm) (phys : Nat) : Pmm :=
  s.onPage phys fun page => { page with pinCount := page.pinCount + 1 }

def pmmUnpin (s : Pmm) (phys : Nat) : Pmm :=
  s.onPage phys fun page =>
    if page.pinCount = 0 then page else { page with pinCount := page.pinCount - 1 }

end Pmm

end BharatOS
