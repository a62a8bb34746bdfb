import Mathlib

/-!
# The state of the physical memory manager (`pmm_internal.h`, `pmm_pcache.h`)

Every NUMA node has page records and, for each order and colour, a list of free blocks, named by
their first page. Every core has a stack of single pages for each node, and an inbox.
-/

namespace BharatOS

open Function

def pageSize : Nat := 4096
def maxOrder : Nat := 12
def maxNumaNodes : Nat := 4
def cacheColors : Nat := 8
def pmmPcacheHigh : Nat := 128
def pmmRefillBatch : Nat := 32
def pmmDrainBatch : Nat := 32
def pmmRemoteBatch : Nat := 32
def pmmInboxSize : Nat := 256

inductive PmmZone where
  | any | dma32 | normal | highmem
  deriving DecidableEq, Repr

def PmmZone.rank : PmmZone → Nat
  | .any => 0
  | .dma32 => 1
  | .normal => 2
  | .highmem => 3

/-- The page states that the allocator sets. -/
inductive PmmPageState where
  | free | allocated | remoteFreePending | reserved
  deriving DecidableEq, Repr

/-- References are counted without a bound; `bh_refcount` refuses to count past 2^32 - 1, and no
result is about a page with that many. -/
structure Page where
  refCount : Nat
  ownerCoreId : Nat
  order : Nat
  zone : PmmZone
  pinCount : BitVec 16
  state : PmmPageState
  deriving DecidableEq, Repr

namespace Page

/-- The writes to the first page of a block that becomes free. -/
def freed (page : Page) (order : Nat) : Page :=
  { page with order := order, refCount := 0, state := .free, pinCount := 0 }

/-- The writes to the first page of a block that is handed out. -/
def taken (page : Page) (order core : Nat) : Page :=
  { page with order := order, refCount := 1, state := .allocated, ownerCoreId := core }

/-- The writes to a page that goes into an inbox. -/
def pending (page : Page) : Page :=
  { page with order := 0, refCount := 0, state := .remoteFreePending, pinCount := 0 }

def canEnterPcache (page : Page) : Bool := page.pinCount == 0

/-- Whether `pmm_page_put` gives up the last reference. -/
def lastPut (page : Page) : Bool := page.refCount == 1 && page.pinCount == 0

end Page

structure NumaNode where
  startAddr : Nat
  totalPages : Nat
  freePages : Nat
  deriving DecidableEq, Repr

/-- `freeList` has the keys node, order and colour, `nodeCaches` core and node. A cache has
the page on its top first, an inbox the one that came first. -/
structure Pmm where
  maxCpus : Nat
  activeNumaNodes : Nat
  numaNodes : Nat → NumaNode
  pages : Nat × Nat → Page
  freeList : Nat × Nat × Nat → List Nat
  coreActive : Nat → Bool
  nodeCaches : Nat × Nat → List Nat
  inbox : Nat → List Nat

namespace Pmm

def setPage (s : Pmm) (key : Nat × Nat) (page : Page) : Pmm :=
  { s with pages := update s.pages key page }

def setFreeList (s : Pmm) (key : Nat × Nat × Nat) (list : List Nat) : Pmm :=
  { s with freeList := update s.freeList key list }

def setCache (s : Pmm) (key : Nat × Nat) (cache : List Nat) : Pmm :=
  { s with nodeCaches := update s.nodeCaches key cache }

def setInbox (s : Pmm) (core : Nat) (inbox : List Nat) : Pmm :=
  { s with inbox := update s.inbox core inbox }

def setActive (s : Pmm) (core : Nat) : Pmm :=
  { s with coreActive := update s.coreActive core true }

def setNode (s : Pmm) (n : Nat) (node : NumaNode) : Pmm :=
  { s with numaNodes := update s.numaNodes n node }

def addFreePages (s : Pmm) (n count : Nat) : Pmm :=
  s.setNode n { s.numaNodes n with freePages := (s.numaNodes n).freePages + count }

def subFreePages (s : Pmm) (n count : Nat) : Pmm :=
  s.setNode n { s.numaNodes n with freePages := (s.numaNodes n).freePages - count }

def pageToPhys (s : Pmm) (page : Nat × Nat) : Nat :=
  (s.numaNodes page.1).startAddr + page.2 * pageSize

/-- `phys_to_page`: the first node that has the address. -/
def physToPage (s : Pmm) (phys : Nat) : Option (Nat × Nat) :=
  (List.range s.activeNumaNodes).findSome? fun i =>
    let node := s.numaNodes i
    if node.startAddr ≤ phys ∧ phys < node.startAddr + node.totalPages * pageSize then
      some (i, (phys - node.startAddr) / pageSize)
    else none

def getPageColor (phys : Nat) : Nat := phys / pageSize % cacheColors

/-- The colour of the lists that the block is in. -/
def color (s : Pmm) (n i : Nat) : Nat := getPageColor (s.pageToPhys (n, i))

def coreIdValid (s : Pmm) (core : Nat) : Bool := core < s.maxCpus

def numaNodeValid (s : Pmm) (n : Nat) : Bool := n < s.activeNumaNodes && n < maxNumaNodes

/-- `list_add` of a block to the list of its order and colour. -/
def addFree (s : Pmm) (n order i : Nat) : Pmm :=
  s.setFreeList (n, order, s.color n i) (i :: s.freeList (n, order, s.color n i))

/-- `list_del` of a block from the list it is in. -/
def delFree (s : Pmm) (n order c i : Nat) : Pmm :=
  s.setFreeList (n, order, c) ((s.freeList (n, order, c)).erase i)

end Pmm

end BharatOS
