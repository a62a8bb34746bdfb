import BharatOS.Mm.Conservation

/-!
# Double frees

`mm_free_page` panics on a page whose record says that it is free. Of a block, only the record of
the first page is kept up to date, so there are pages of free blocks that look allocated, and pages
of allocated blocks that look free.
-/

namespace BharatOS

open Pmm Function Option

open Block

namespace Pmm

variable {s t : Pmm} {core n i phys : Nat}

/-! ## Pages that are freed again -/

theorem coalesce_numaNodes (n left : Nat) (s : Pmm) (i order : Nat) :
    (coalesce n left s i order).1.numaNodes = s.numaNodes := by
  induction left generalizing s i order with
  | zero => rfl
  | succ left ih =>
    simp only [coalesce]
    split
    · rfl
    split
    · rfl
    split
    · rfl
    · exact ih _ _ _

theorem freePages_freeToZone (s : Pmm) (n i : Nat) :
    (s.numaNodes n).freePages < ((s.freeToZone n i).numaNodes n).freePages := by
  have same := coalesce_numaNodes n (maxOrder - 1 - (s.pages (n, i)).order) s i
  simp only [freeToZone, addFreePages, setNode, addFree, setFreeList, setPage, update_self, same]
  exact Nat.lt_add_of_pos_right (Nat.two_pow_pos _)

variable {page : Nat × Nat}

theorem state_cachePage : ((s.cachePage core n i phys).pages (n, i)).state = .free := by
  simp only [cachePage, addFreePages, setNode, setPage, update_self]
  rfl

section

variable (leads : s.physToPage phys = some page)

include leads

theorem freeBypassing_isSome
    (state : (s.pages page).state ≠ .free) : ∃ t, s.freeBypassing phys = some t := by
  unfold freeBypassing withLastReference
  rw [leads]
  simp only [if_neg state]
  split
  · exact ⟨_, rfl⟩
  · exact ⟨_, rfl⟩

omit leads in
/-- A page of a cache is marked before it is freed. -/
theorem drainCache_isSome (core n k : Nat) (s : Pmm) : ∃ t, drainCache core n k s = some t := by
  induction k generalizing s with
  | zero => exact ⟨s, rfl⟩
  | succ k ih =>
    unfold drainCache
    split
    · exact ⟨s, rfl⟩
    rename_i phys rest top
    simp only
    split
    · exact ih _
    rename_i page leads
    generalize popped : s.setCache (core, n) rest = s₁ at leads
    have leads' : ((s₁.setPage page { s₁.pages page with refCount := 1, state := .allocated }
        ).subFreePages page.1 1).physToPage phys = some page := by
      have kept : ((s₁.setPage page { s₁.pages page with refCount := 1, state := .allocated }
          ).subFreePages page.1 1).layout = s₁.layout :=
        (layout_setNode ..).trans (layout_setPage rfl)
      exact (congrArg (fun lay : Layout => lay.physToPage phys) kept).trans leads
    obtain ⟨t, freed⟩ := freeBypassing_isSome leads' (by
      change (update s₁.pages page _ page).state ≠ .free
      rw [update_self]
      exact fun e => by cases e)
    obtain ⟨t', drained⟩ := ih t
    exact ⟨t', bind_eq_some_iff.mpr ⟨t, freed, drained⟩⟩

/-- A page that is not marked free is freed, whoever has it. -/
theorem mmFreePage_changes
    (state : (s.pages page).state ≠ .free) : ∃ t, s.mmFreePage core phys = some t ∧ t ≠ s := by
  obtain ⟨n, i⟩ := page
  unfold mmFreePage withLastReference
  rw [leads]
  simp only [if_neg state]
  split
  · rename_i shared
    refine ⟨_, rfl, fun same => ?_⟩
    have record := congrArg (fun s : Pmm => (s.pages (n, i)).refCount) same
    simp only [pages_setPage_self] at record
    omega
  generalize marked : s.setPage (n, i) { s.pages (n, i) with refCount := 0 } = s₁
  have nodes : s₁.numaNodes = s.numaNodes := by rw [← marked]; rfl
  have inboxes : s₁.inbox = s.inbox := by rw [← marked]; rfl
  have zone : ∃ t, some (s₁.freeToZone n i) = some t ∧ t ≠ s := by
    refine ⟨_, rfl, fun same => ?_⟩
    have more := s₁.freePages_freeToZone n i
    rw [same, nodes] at more
    exact Nat.lt_irrefl _ more
  have cache : ∀ s₂ : Pmm, s₂.cachePage core n i phys ≠ s := by
    intro s₂ same
    refine state ?_
    rw [← same]
    exact state_cachePage
  split
  · split
    · split
      · exact ⟨_, rfl, cache s₁⟩
      obtain ⟨s₂, drained⟩ := drainCache_isSome core n pmmDrainBatch s₁
      exact ⟨_, by rw [drained]; rfl, cache s₂⟩
    split
    · split
      · rename_i s₂ sent
        refine ⟨_, rfl, fun same => ?_⟩
        unfold remoteFreeEnqueue at sent
        split at sent
        · cases sent
          have longer := congrArg
            (fun s : Pmm => (s.inbox (s₁.pages (n, i)).ownerCoreId).length) same
          simp [setPage, setInbox, inboxes] at longer
        · cases sent
      · exact zone
    · exact zone
  · exact zone

/-- The check at the beginning of `mm_free_page`. -/
theorem mmFreePage_caught : (s.mmFreePage core phys = none ∨ s.mmFreePage core phys = some s) ↔
      (s.pages page).state = .free := by
  constructor
  · intro caught
    by_contra state
    obtain ⟨t, freed, changed⟩ := @mmFreePage_changes s core phys page leads state
    rw [freed] at caught
    rcases caught with none' | same
    · cases none'
    · exact changed (some.inj same)
  · intro state
    refine .inl ?_
    unfold mmFreePage withLastReference
    rw [leads]
    simp only [if_pos state]

end

end Pmm

namespace PmmSystem

variable {s : PmmSystem} {i n : Nat} {lay : Layout}

theorem weigh_pos {phys : Nat} (h : 0 < lay.weigh (hold n i) phys) :
    lay.physToPage phys = some (n, i) := by
  unfold Layout.weigh at h
  cases leads : lay.physToPage phys with
  | none =>
    rw [leads] at h
    cases h
  | some page =>
    obtain ⟨m, j⟩ := page
    rw [leads] at h
    simp only [Option.elim, hold_eq, pow_zero] at h
    split at h
    · rename_i same
      obtain ⟨rfl, low, high⟩ := same
      obtain rfl : j = i := by omega
      rfl
    · cases h

theorem cached_state (S : Sound lay s) (h : 0 < s.pmm.cached (hold n i)) :
    (s.pmm.pages (n, i)).state = .free := by
  obtain ⟨⟨core, m⟩, -, phys, there, heavy⟩ := exists_of_shelfSum_pos h
  rw [S.ledger.layout] at heavy
  obtain ⟨-, j, leads, -, record⟩ := S.ledger.caches core m phys there
  obtain ⟨rfl, rfl⟩ := Prod.mk.inj (some.inj ((weigh_pos heavy).symm.trans leads))
  exact record.state

theorem pending_state (S : Sound lay s) (h : 0 < s.pmm.pending (hold n i)) :
    (s.pmm.pages (n, i)).state ≠ .free := by
  obtain ⟨core, -, phys, there, heavy⟩ := exists_of_shelfSum_pos h
  rw [S.ledger.layout] at heavy
  obtain ⟨-, m, j, leads, -, record⟩ := S.ledger.inboxes core phys there
  obtain ⟨rfl, rfl⟩ := Prod.mk.inj (some.inj ((weigh_pos heavy).symm.trans leads))
  rw [record.state]
  exact fun e => by cases e

/-- In every state that calls lead to, for every page and every core: a call that frees it is
caught, or changes nothing, if and only if the page's record says that it is free. It does
so for the pages in caches and for the first pages of the blocks in the free lists, and it
never does for a page in an inbox. -/
theorem double_free_caught {maxCpus core phys n i : Nat}
    (run : Run Steps (fun _ _ => True) (boot maxCpus) s)
    (leads : s.pmm.physToPage phys = some (n, i)) :
    ((s.pmm.mmFreePage core phys = none ∨ s.pmm.mmFreePage core phys = some s.pmm) ↔
      (s.pmm.pages (n, i)).state = .free) ∧
    (∀ order c, i ∈ s.pmm.freeList (n, order, c) → (s.pmm.pages (n, i)).state = .free) ∧
    (0 < s.pmm.cached (hold n i) → (s.pmm.pages (n, i)).state = .free) ∧
    (0 < s.pmm.pending (hold n i) → (s.pmm.pages (n, i)).state ≠ .free) := by
  obtain ⟨lay, S⟩ := sound_run run
  refine ⟨Pmm.mmFreePage_caught leads, fun order c there => ?_, cached_state S, pending_state S⟩
  exact (S.ledger.free n order c i there).2.2.state

/-- The first page of the block that all eight pages make up. -/
theorem double_free_caught_eight : ∃ s, Run Steps (fun _ _ => True) (boot 2) s ∧
    s.pmm.physToPage 0x100000 = some (0, 0) ∧ 0 ∈ s.pmm.freeList (0, 3, 0) ∧
    (s.pmm.mmFreePage 1 0x100000 = none ∨ s.pmm.mmFreePage 1 0x100000 = some s.pmm) := by
  refine found_run_then_both eightPages (by decide +kernel) fun s run leads listed => ?_
  obtain ⟨caught, first, -⟩ := @double_free_caught s 2 1 _ _ _ run leads
  exact caught.mpr (first 3 0 listed)

/-- Core 1 frees a page of core 0 twice, and it is in the inbox of core 0 twice. -/
theorem page_enqueued_twice : ∃ s t, Run Steps (fun _ _ => True) (boot 2) s ∧
    s.pmm.inbox 0 = [0x100000] ∧ s.pmm.mmFreePage 1 0x100000 = some t ∧
    t.inbox 0 = [0x100000, 0x100000] := by
  simp only [exists_and_left]
  exact found_run (eightPages ++ freedByOther.dropLast) (by decide +kernel)

/-! ## Runs of pages -/

theorem contiguousOrder_pow {order left start : Nat} (low : start ≤ order)
    (high : order ≤ start + left) : contiguousOrder (2 ^ order) left start = order := by
  induction left generalizing start with
  | zero => exact Nat.le_antisymm low high
  | succ left ih =>
    unfold contiguousOrder
    split
    · rename_i less
      have := (Nat.pow_lt_pow_iff_right (by decide)).mp less
      exact ih (by omega) (by omega)
    rename_i enough
    have := (Nat.pow_le_pow_iff_right (by decide)).mp (Nat.not_lt.mp enough)
    omega

/-- The page is in a list, a cache or an inbox. -/
def FreeAt (t : Pmm) (phys : Nat) : Prop :=
  ∃ n i, t.physToPage phys = some (n, i) ∧
    t.listed (hold n i) + t.cached (hold n i) + t.pending (hold n i) = 1

variable {lay : Layout} {held loose : List Block} {core core' currentNode order phys n i : Nat}

/-- A request for no page, or for more pages than the largest block has, is refused. -/
theorem pmmAllocContiguousEx_refused {pages : Nat} (pmm : Pmm) (zone : PmmZone) (pinned : Bool)
    (refused : pages = 0 ∨ 2 ^ 11 < pages) :
    pmm.pmmAllocContiguousEx core currentNode pages zone pinned = some (pmm, none) := by
  unfold pmmAllocContiguousEx
  by_cases none' : pages = 0
  · rw [if_pos none']
  have large : maxOrder ≤ contiguousOrder pages 32 0 := by
    rcases Ledger.contiguousOrder_le pages 32 0 with stopped | enough
    · rw [stopped]
      decide
    · exact (Nat.pow_lt_pow_iff_right (by decide)).mp ((refused.resolve_left none').trans_le enough)
  rw [if_neg none']
  simp only [pmmAllocPagesEx, if_pos large, ite_self]

/-- What `pmm_alloc_contiguous_ex` does for a power of two. -/
theorem pmmAllocContiguousEx_pow (pmm : Pmm) (zone : PmmZone) (pinned : Bool) :
    pmm.pmmAllocContiguousEx core currentNode (2 ^ order) zone pinned =
      pmm.pmmAllocPagesEx core currentNode order zone pinned := by
  by_cases high : maxOrder ≤ order
  · rw [pmmAllocPagesEx, if_pos high]
    exact pmmAllocContiguousEx_refused _ _ _ (.inr (Nat.pow_lt_pow_right (by decide) high))
  have positive : 2 ^ order ≠ 0 := Nat.ne_of_gt (Nat.two_pow_pos order)
  have small : order ≤ 32 := (Nat.not_le.mp high).le.trans (by decide)
  unfold pmmAllocContiguousEx
  rw [if_neg positive, contiguousOrder_pow (Nat.zero_le _) (by omega), if_pos rfl]

/-- A block that was just given out can be freed, and all its pages are free then. -/
theorem free_given {pmm : Pmm} (L : Ledger lay pmm held (⟨n, order, i⟩ :: loose) [])
    (leads : lay.physToPage phys = some (n, i)) (fits : lay.Fits ⟨n, order, i⟩)
    (state : (pmm.pages (n, i)).state = .allocated) (pin : (pmm.pages (n, i)).pinCount = 0) :
    ∃ t, pmm.pmmFreePages core ⟨phys, order, 2 ^ order⟩ = some (t, true) ∧
      ∀ k < 2 ^ order, FreeAt t (phys + k * pageSize) := by
  have leads' := L.finds leads
  have unpinned : pmm.pinnedAt phys = false := by
    unfold pinnedAt
    rw [leads']
    simp [pin]
  have marked := L.setFirst fits { pmm.pages (n, i) with order := order, refCount := 1 } rfl
  obtain ⟨t, freed, L', -⟩ := @Ledger.mmFreePage _ _ _ _ n order i core phys marked
    ⟨leads, fits, by rw [pages_setPage_self], by rw [pages_setPage_self]⟩
    (by
      rw [pages_setPage_self]
      simp only [state]
      exact fun e => by cases e)
  refine ⟨t, ?_, fun k small => ?_⟩
  · unfold pmmFreePages
    rw [if_neg (fun h => h.2 rfl), if_neg (by simp [unpinned]), L.onPage_eq leads, freed]
    rfl
  · have inside : i + k < lay.totalPages n :=
      Nat.lt_of_lt_of_le (Nat.add_lt_add_left small i) fits.inside
    have here := Layout.physToPage_run L.apart leads inside
    refine ⟨n, i + k, L'.finds here, ?_⟩
    -- it was in the block, so nobody else has it
    have node : n < lay.activeNumaNodes := fits.node
    have before := L.one_place node inside
    have after := L'.one_place node inside
    have mine : hold n (i + k) ⟨n, order, i⟩ = 1 := if_pos ⟨rfl, by simp, by simpa using small⟩
    rw [total_cons, mine] at before
    omega

/-- In every state that calls lead to: a power of two of pages, not pinned, is allocated and
freed again without a panic, by any two cores, and so is a buffer for DMA of at most one
page. All pages are free afterwards. Numbers of pages that are always refused do no harm. -/
theorem contiguous_freed {maxCpus core core' currentNode : Nat}
    (run : Run Steps (fun _ _ => True) (boot maxCpus) s) :
    (∀ pages zone, (∃ order, pages = 2 ^ order) ∨ pages = 0 ∨ 2 ^ 11 < pages → ∃ t given,
      s.pmm.pmmAllocContiguousEx core currentNode pages zone false = some (t, given) ∧
      ∀ block, given = some block → ∃ t', t.pmmFreePages core' block = some (t', true) ∧
        ∀ k < pages, FreeAt t' (block.physAddr + k * pageSize)) ∧
    ∀ size ≤ pageSize, ∀ only32 mapped, ∃ t given,
      s.pmm.mmAllocDmaPages core currentNode size only32 mapped = some (t, given) ∧
      ∀ phys, given = some phys → ∃ t', t.mmFreeDmaPages core' phys size = some (t', true) ∧
        FreeAt t' phys := by
  obtain ⟨lay, S⟩ := sound_run run
  constructor
  · rintro pages zone (⟨order, rfl⟩ | refused)
    swap
    · exact ⟨s.pmm, none, pmmAllocContiguousEx_refused _ _ _ refused, fun block e => by cases e⟩
    obtain ⟨t, given, called, answer⟩ :=
      @S.ledger.pmmAllocPagesEx lay s.pmm s.held _ core order currentNode zone false
    refine ⟨t, given, by rw [pmmAllocContiguousEx_pow, called], ?_⟩
    rintro block rfl
    rcases answer with ⟨none', -⟩ | ⟨phys, n, i, same, leads, fits, L, -, state, pin, -⟩
    · cases none'
    cases same
    exact free_given L leads fits state pin
  · intro size single only32 mapped
    by_cases empty : size = 0
    · refine ⟨s.pmm, none, by rw [Pmm.mmAllocDmaPages, if_pos empty], fun phys e => by cases e⟩
    have one : Pmm.dmaPages size = 1 := by
      simp only [Pmm.dmaPages, pageSize] at single ⊢
      omega
    obtain ⟨t, given, called, answer⟩ := @S.ledger.pmmAllocPagesEx lay s.pmm s.held _ core 0
      currentNode (if only32 then .dma32 else .any) false
    have asked : s.pmm.pmmAllocContiguousEx core currentNode 1
        (if only32 then .dma32 else .any) false = some (t, given) := by
      rw [← called]
      exact @pmmAllocContiguousEx_pow core currentNode 0 s.pmm _ _
    unfold Pmm.mmAllocDmaPages
    rw [if_neg empty, one, asked, bind_some]
    rcases answer with ⟨rfl, -⟩ | ⟨phys, n, i, rfl, leads, fits, L, -, state, pin, -⟩
    · exact ⟨t, none, rfl, fun phys e => by cases e⟩
    cases mapped with
    | true =>
      refine ⟨t, some phys, rfl, ?_⟩
      rintro phys' same
      cases same
      have nonzero := Ledger.fits_nonzero leads fits
      obtain ⟨t', freed, free⟩ := @free_given _ _ _ core' 0 phys n i t L leads fits state pin
      refine ⟨t', ?_, ?_⟩
      · rw [Pmm.mmFreeDmaPages, if_neg (not_or.mpr ⟨nonzero, empty⟩), one]
        exact freed
      · exact free 0 (by decide)
    | false =>
      obtain ⟨t', freed, -⟩ := @free_given _ _ _ core 0 phys n i t L leads fits state pin
      refine ⟨t', none, ?_, fun phys e => by cases e⟩
      simp only [Bool.false_eq_true, if_false]
      rw [freed]
      rfl

theorem contiguous_freed_eight : ∃ s, Run Steps (fun _ _ => True) (boot 2) s ∧
    ∃ t given, s.pmm.pmmAllocContiguousEx 0 0 (2 ^ 2) .any false = some (t, given) ∧
      ∀ block, given = some block → ∃ t', t.pmmFreePages 1 block = some (t', true) ∧
        ∀ k < 2 ^ 2, FreeAt t' (block.physAddr + k * pageSize) := by
  obtain ⟨s, went⟩ : ∃ s, exec step (boot 2) eightPages = some s := by decide +kernel
  have run := run_of_exec went
  exact ⟨s, run, (contiguous_freed run).1 _ .any (.inl ⟨2, rfl⟩)⟩

/-- Eight pages were released, and five of them are asked for. The sixth is freed again; the
seventh still says that it is free. -/
theorem contiguous_panics : ∃ s, Run Steps (fun _ _ => True) (boot 2) s ∧
    s.pmm.pmmAllocContiguousEx 0 0 5 .any false = none := by
  obtain ⟨s, went, panics⟩ : ∃ s, exec step (boot 2) eightPages = some s ∧
      (s.pmm.pmmAllocContiguousEx 0 0 5 .any false).isNone := by decide +kernel
  exact ⟨s, run_of_exec went, isNone_iff_eq_none.mp panics⟩

end PmmSystem

end BharatOS
