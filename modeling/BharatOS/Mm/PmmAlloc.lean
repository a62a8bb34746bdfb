import BharatOS.Mm.PmmPcache

/-!
# Allocating pages (`pmm_buddy.c`)

A single page comes from the cache of the core, which is filled from the inbox of the
core and from the lists of the node when it is empty. Larger blocks come from the lists.
-/

namespace BharatOS

namespace Pmm

/-- The page on top of the cache. -/
def takeCached (s : Pmm) (core n : Nat) : Option (Pmm × Nat) :=
  match s.nodeCaches (core, n) with
  | [] => none
  | phys :: rest =>
    let s := s.setCache (core, n) rest
    match s.physToPage phys with
    | none => some (s, phys)
    | some page => some (s.setPage page ((s.pages page).taken 0 core), phys)

/-- The inner loop of the refill: pages of one colour, as long as there are any, the batch
is not full and the cache is not. What is left of the batch comes with it. -/
def refillColor (core n c : Nat) : Nat → Pmm → Nat × Pmm
  | 0, s => (0, s)
  | left + 1, s =>
    match s.freeList (n, 0, c) with
    | [] => (left + 1, s)
    | i :: rest =>
      if (s.nodeCaches (core, n)).length < pmmPcacheHigh then
        refillColor core n c left ((s.setFreeList (n, 0, c) rest).setCache (core, n)
          (s.pageToPhys (n, i) :: s.nodeCaches (core, n)))
      else (left + 1, s)

/-- The refill of a cache from the lists of its node. -/
def refill (s : Pmm) (core n : Nat) : Pmm :=
  ((List.range cacheColors).foldl (fun out c => refillColor core n c out.1 out.2)
    (pmmRefillBatch, s)).2

def pmmAllocPagesOrderColored (s : Pmm) (core order n : Nat) (config : Option MmColorConfig)
    (zone : PmmZone) : Option (Pmm × Nat) :=
  let s := if core < s.maxCpus then s.setActive core else s
  let cached : Bool := order = 0 ∧ core < s.maxCpus ∧ n < maxNumaNodes
  let take : Pmm → Option (Pmm × Nat) := fun s => if cached then s.takeCached core n else none
  match take s with
  | some out => some out
  | none =>
    (s.pmmDrainRemoteFrees core core).bind fun s =>
      match take s with
      | some out => some out
      | none =>
        let s := if cached then s.refill core n else s
        match take s with
        | some out => some out
        | none => some (s.allocFromZone core n order config zone)

/-- The nodes one after the other, until one has a block. The pages of the block are taken
off the node's count. -/
def tryNodes (order : Nat) (alloc : Pmm → Nat → Option (Pmm × Nat)) :
    List Nat → Pmm → Option (Pmm × Nat)
  | [], s => some (s, 0)
  | n :: rest, s =>
    (alloc s n).bind fun out =>
      if out.2 = 0 then tryNodes order alloc rest out.1
      else some (out.1.subFreePages n (2 ^ order), out.2)

/-- The policy of the second round. -/
def noColorConfig : MmColorConfig := ⟨.none, 0xFFFFFFFF⟩

/-- `pmm_alloc_pages_colored_in_zone`. `currentNode` is what `numa_get_current_node` answers;
the reclaim pools of the nodes are empty. -/
def pmmAllocPagesColoredInZone (s : Pmm) (core currentNode order preferred : Nat)
    (config : Option MmColorConfig) (zone : PmmZone) (fallback : Bool) : Option (Pmm × Nat) :=
  let active := s.activeNumaNodes
  let home := if active ≤ preferred then if currentNode < active then currentNode else 0
    else preferred
  let nodes := (List.range (if fallback then active else 1)).map fun k => (home + k) % active
  let attempt : Option MmColorConfig → Pmm → Nat → Option (Pmm × Nat) := fun config s n =>
    s.pmmAllocPagesOrderColored core order n config zone
  (tryNodes order (fun s n => if (s.numaNodes n).freePages < 2 ^ order then some (s, 0)
    else attempt config s n) nodes s).bind fun out =>
  if out.2 ≠ 0 then some out
  else
    (if config.any (·.policy = .preferred) then tryNodes order (attempt (some noColorConfig)) nodes out.1
      else some (out.1, 0)).bind fun out =>
    if out.2 ≠ 0 then some out
    else tryNodes order (attempt config) nodes out.1

end Pmm

end BharatOS
