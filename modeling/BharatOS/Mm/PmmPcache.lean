import BharatOS.Mm.PmmBuddy

/-!
# Freeing a page (`pmm_buddy.c`, `pmm_pcache.c`)

A single page goes to the cache of the core that allocated it, over that core's inbox if another
core frees it. `none` is `kernel_panic`.
-/

namespace BharatOS

namespace Pmm

/-- The beginning of `__mm_free_page`: nothing more is done unless this was the last
reference. -/
def withLastReference (s : Pmm) (phys : Nat) (free : Pmm → Nat → Nat → Option Pmm) : Option Pmm :=
  match s.physToPage phys with
  | none => some s
  | some (n, i) =>
    let page := s.pages (n, i)
    if page.state = .free then none
    else if 1 < page.refCount then
      some (s.setPage (n, i) { page with refCount := page.refCount - 1 })
    else free (s.setPage (n, i) { page with refCount := 0 }) n i

/-- `__mm_free_page` with `bypass_pcache`. -/
def freeBypassing (s : Pmm) (phys : Nat) : Option Pmm :=
  s.withLastReference phys fun s n i => some (s.freeToZone n i)

/-- The loop that gives pages of a cache back to their node. It is not run on more pages
than the cache has. -/
def drainCache (core n : Nat) : Nat → Pmm → Option Pmm
  | 0, s => some s
  | k + 1, s =>
    match s.nodeCaches (core, n) with
    | [] => some s
    | phys :: rest =>
      let s := s.setCache (core, n) rest
      match s.physToPage phys with
      | none => drainCache core n k s
      | some page =>
        let s := s.setPage page { s.pages page with refCount := 1, state := .allocated }
        ((s.subFreePages page.1 1).freeBypassing phys).bind (drainCache core n k)

/-- The page goes on top of the cache. -/
def cachePage (s : Pmm) (core n i phys : Nat) : Pmm :=
  ((s.setCache (core, n) (phys :: s.nodeCaches (core, n))).setPage (n, i)
    ((s.pages (n, i)).freed 0)).addFreePages n 1

/-- `pmm_pcache_remote_free_enqueue`; `none` if it fails. -/
def remoteFreeEnqueue (s : Pmm) (core phys : Nat) : Option Pmm :=
  if s.coreIdValid core ∧ s.coreActive core ∧ (s.inbox core).length + 1 < pmmInboxSize then
    some (s.setInbox core (s.inbox core ++ [phys]))
  else none

def mmFreePage (s : Pmm) (core phys : Nat) : Option Pmm :=
  s.withLastReference phys fun s n i =>
    let page := s.pages (n, i)
    if page.order = 0 ∧ core < s.maxCpus ∧ s.coreActive core ∧ s.numaNodeValid n ∧
        page.canEnterPcache then
      if page.ownerCoreId = core then
        if (s.nodeCaches (core, n)).length < pmmPcacheHigh then some (s.cachePage core n i phys)
        else (drainCache core n pmmDrainBatch s).map (·.cachePage core n i phys)
      else if s.coreIdValid page.ownerCoreId ∧ s.coreActive page.ownerCoreId then
        match s.remoteFreeEnqueue page.ownerCoreId phys with
        | some s => some (s.setPage (n, i) (s.pages (n, i)).pending)
        | none => some (s.freeToZone n i)
      else some (s.freeToZone n i)
    else some (s.freeToZone n i)

def markPageFree (s : Pmm) (core phys : Nat) : Option Pmm :=
  match s.physToPage phys with
  | none => some s
  | some page =>
    (s.setPage page { s.pages page with refCount := 1, order := 0, state := .allocated }).mmFreePage
      core phys

/-- The loop of `pmm_drain_remote_frees`. -/
def drainInbox (current core : Nat) : Nat → Pmm → Option Pmm
  | 0, s => some s
  | k + 1, s =>
    match s.inbox core with
    | [] => some s
    | phys :: rest =>
      ((s.setInbox core rest).mmFreePage current phys).bind (drainInbox current core k)

/-- `pmm_drain_remote_frees(core)`, run by the core `current`. -/
def pmmDrainRemoteFrees (s : Pmm) (current core : Nat) : Option Pmm :=
  if s.coreIdValid core ∧ s.coreActive core then drainInbox current core pmmRemoteBatch s
  else some s

end Pmm

end BharatOS
