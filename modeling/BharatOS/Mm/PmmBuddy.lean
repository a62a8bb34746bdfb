import BharatOS.Mm.Pmm

/-!
# The buddy lists of a node (`pmm_buddy.c`)

A block that is freed is joined with its buddy as long as that one is free. A block that is
allocated is cut down to the order that was asked for.
-/

namespace BharatOS

open List

inductive MmColorPolicy where
  | none | preferred | strict | isolated
  deriving DecidableEq, Repr

structure MmColorConfig where
  policy : MmColorPolicy
  colorMask : BitVec 32
  deriving DecidableEq, Repr

namespace Pmm

/-! ## Freeing -/

/-- The loop that joins a block with its buddy, for at most as many orders as there are
above it: the block that comes out of it, as its first page and its order. -/
def coalesce (n : Nat) : Nat → Pmm → Nat → Nat → Pmm × Nat × Nat
  | 0, s, i, order => (s, i, order)
  | left + 1, s, i, order =>
    let buddy := i ^^^ 2 ^ order
    if (s.numaNodes n).totalPages ≤ buddy then (s, i, order)
    else if 0 < (s.pages (n, buddy)).refCount ∨ (s.pages (n, buddy)).order ≠ order then (s, i, order)
    else if buddy ∉ s.freeList (n, order, s.color n buddy) then (s, i, order)
    else
      coalesce n left (s.delFree n order (s.color n buddy) buddy) (if buddy < i then buddy else i)
        (order + 1)

/-- The end of `__mm_free_page`: the block goes back to the lists of its node. -/
def freeToZone (s : Pmm) (n i : Nat) : Pmm :=
  let originalOrder := (s.pages (n, i)).order
  let out := coalesce n (maxOrder - 1 - originalOrder) s i originalOrder
  let head := (n, out.2.1)
  ((out.1.setPage head ((out.1.pages head).freed out.2.2)).addFree n out.2.2 out.2.1).addFreePages n
    (2 ^ originalOrder)

/-! ## Allocating -/

def pageBlockMatchesZone (s : Pmm) (n i order : Nat) (zone : PmmZone) : Bool :=
  zone == .any || (range (2 ^ order)).all fun k => (s.pages (n, i + k)).zone.rank ≤ zone.rank

/-- The first colour of the caller's policy that has a block of the order. -/
def targetColor (s : Pmm) (n order : Nat) (config : Option MmColorConfig) : Option Nat :=
  match config with
  | none => none
  | some config =>
    if config.policy = .none then none
    else (range cacheColors).find? fun c =>
      config.colorMask.getLsbD c && !(s.freeList (n, order, c)).isEmpty

/-- The colours that are looked at in one order. -/
def colorsAt (target : Option Nat) (order current : Nat) : List Nat :=
  match target with
  | none => range cacheColors
  | some c => if current = order then [c] else range cacheColors

/-- The block to allocate from: its order, the colour of its list, and its first page. -/
def findBlock (s : Pmm) (n order : Nat) (target : Option Nat) (zone : PmmZone) :
    Option (Nat × Nat × Nat) :=
  (range' order (maxOrder - order)).findSome? fun current =>
    (colorsAt target order current).findSome? fun c =>
      ((s.freeList (n, current, c)).find? fun i => s.pageBlockMatchesZone n i current zone).map
        fun i => (current, c, i)

/-- The loop that gives the upper half of a block back, down to the order that was asked
for. -/
def splitBlock (n i order : Nat) : Nat → Pmm → Pmm
  | 0, s => s
  | k + 1, s =>
    let buddy := i + 2 ^ (order + k)
    splitBlock n i order k
      ((s.setPage (n, buddy) ((s.pages (n, buddy)).freed (order + k))).addFree n (order + k) buddy)

/-- The part of `pmm_alloc_pages_order_colored` that works on the lists of the node. The
address 0 is its `NULL`. -/
def allocFromZone (s : Pmm) (core n order : Nat) (config : Option MmColorConfig) (zone : PmmZone) :
    Pmm × Nat :=
  let target := s.targetColor n order config
  if target.isNone ∧ config.any (·.policy = .strict) then (s, 0)
  else
    match s.findBlock n order target zone with
    | none => (s, 0)
    | some (current, c, i) =>
      let s := splitBlock n i order (current - order) (s.delFree n current c i)
      (s.setPage (n, i) ((s.pages (n, i)).taken order core), s.pageToPhys (n, i))

end Pmm

end BharatOS
