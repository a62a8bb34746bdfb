import BharatOS.Mm.Spans

/-!
# No page is lost

The ledger holds after every call of a run: each page of a node is at one place, and the
counts of the nodes say how many pages are in their lists and in the caches.
-/

namespace BharatOS

open Function Option List

open Block

/-! ## A new region -/

namespace Layout

variable {lay lay' : Layout}

/-- The layout after a node was added at the end. -/
structure Extends (lay lay' : Layout) : Prop where
  maxCpus : lay'.maxCpus = lay.maxCpus
  activeNumaNodes : lay'.activeNumaNodes = lay.activeNumaNodes + 1
  startAddr : ∀ n < lay.activeNumaNodes, lay'.startAddr n = lay.startAddr n
  totalPages : ∀ n < lay.activeNumaNodes, lay'.totalPages n = lay.totalPages n
  apart : lay'.Apart

theorem Extends.physToPage (x : Extends lay lay') {phys : Nat} {page : Nat × Nat}
    (leads : lay.physToPage phys = some page) : lay'.physToPage phys = some page := by
  have node := (physToPage_eq_some leads).1
  have inside := (physToPage_eq_some leads).2.1
  have low := (physToPage_eq_some leads).2.2.1
  have high := (physToPage_eq_some leads).2.2.2
  refine physToPage_of_mem x.apart ?_ ?_ ?_ ?_
  · rw [x.activeNumaNodes]
    exact Nat.lt_succ_of_lt node
  · rw [x.totalPages _ node]
    exact inside
  · rw [pageToPhys, x.startAddr _ node]
    exact low
  · rw [pageToPhys, x.startAddr _ node]
    exact high

theorem Extends.fits (x : Extends lay lay') {b : Block} (fits : lay.Fits b) : lay'.Fits b := by
  have node := fits.node
  refine ⟨?_, fits.order, fits.aligned, ?_, ?_⟩
  · rw [x.activeNumaNodes]
    exact Nat.lt_succ_of_lt node
  · rw [x.totalPages _ node]
    exact fits.inside
  · have nonzero := fits.nonzero
    rw [pageToPhys] at nonzero ⊢
    rwa [x.startAddr _ node]

theorem total_first {weight : Block → Nat} {n count : Nat} :
    total weight (pagesFrom n 0 count) = ∑ i ∈ Finset.range count, weight ⟨n, 0, i⟩ := by
  induction count with
  | zero => rfl
  | succ count ih =>
    rw [pagesFrom_add, total_append, ih, Finset.sum_range_succ, Nat.zero_add]
    simp [pagesFrom, total]

theorem Extends.region (x : Extends lay lay') (weight : Block → Nat) :
    lay'.region weight = lay.region weight +
      total weight (pagesFrom lay.activeNumaNodes 0 (lay'.totalPages lay.activeNumaNodes)) := by
  rw [Layout.region, x.activeNumaNodes, Finset.sum_range_succ, total_first, Layout.region]
  congr 1
  exact Finset.sum_congr rfl fun n listed => by rw [x.totalPages n (Finset.mem_range.mp listed)]

end Layout

namespace Ledger

variable {lay lay' : Layout} {s t : Pmm} {held loose : List Block}

/-- None of the pages that the lists and caches have is a page of a node that is not there. -/
theorem no_stock (L : Ledger lay s held loose []) {n : Nat} (absent : lay.activeNumaNodes ≤ n) :
    s.listed (pagesOf n) = 0 ∧ s.cached (pagesOf n) = 0 := by
  constructor
  · refine shelfSum_zero fun key _ i there => ?_
    obtain ⟨fits, -⟩ := L.free _ _ _ _ there
    have node : key.1 < lay.activeNumaNodes := fits.node
    exact if_neg (by simp only; omega)
  · refine shelfSum_zero fun key _ phys there => ?_
    obtain ⟨-, i, leads, -⟩ := L.caches _ _ _ there
    have node := (Layout.physToPage_eq_some leads).1
    rw [L.weigh _ leads]
    exact if_neg (by simp only; omega)

theorem weigh_extends (x : Layout.Extends lay lay') {weight : Block → Nat} {phys n i : Nat}
    (leads : lay.physToPage phys = some (n, i)) : lay'.weigh weight phys = lay.weigh weight phys := by
  rw [Layout.weigh_of_some _ leads, Layout.weigh_of_some _ (x.physToPage leads)]

/-- A node is added, and none of its pages is free yet. -/
theorem extend (L : Ledger lay s held loose []) (x : Layout.Extends lay lay')
    (layout : t.layout = lay') (nodes : lay'.activeNumaNodes ≤ maxNumaNodes)
    (freeList : t.freeList = s.freeList) (caches : t.nodeCaches = s.nodeCaches)
    (inbox : t.inbox = s.inbox)
    (pages : ∀ n < lay.activeNumaNodes, ∀ i, t.pages (n, i) = s.pages (n, i))
    (counts : ∀ n < lay.activeNumaNodes, (t.numaNodes n).freePages = (s.numaNodes n).freePages)
    (count : (t.numaNodes lay.activeNumaNodes).freePages = 0) : Ledger lay' t held
      (pagesFrom lay.activeNumaNodes 0 (lay'.totalPages lay.activeNumaNodes) ++ loose) [] := by
  have cpus : t.maxCpus = s.maxCpus := by
    have same := x.maxCpus
    rwa [← layout, ← L.layout] at same
  have listed : ∀ weight, t.listed weight = s.listed weight := fun weight => by
    unfold Pmm.listed
    rw [freeList]
  have cached : ∀ weight, t.cached weight = s.cached weight := fun weight => by
    unfold Pmm.cached Pmm.cacheKeys
    rw [caches, cpus, layout, L.layout]
    refine shelfSum_congr fun key _ phys there => ?_
    obtain ⟨-, i, leads, -⟩ := L.caches _ _ _ there
    exact weigh_extends x leads
  have pending : ∀ weight, t.pending weight = s.pending weight := fun weight => by
    unfold Pmm.pending
    rw [inbox, cpus, layout, L.layout]
    refine shelfSum_congr fun core _ phys there => ?_
    obtain ⟨-, n, i, leads, -⟩ := L.inboxes _ _ there
    exact weigh_extends x leads
  refine ⟨layout, nodes, x.apart, ?_, ?_, ?_, ?_, ?_, ?_⟩
  · intro weight splits
    rw [x.region, ← L.balance weight splits, listed, cached, pending, total_append]
    omega
  · intro n node
    rw [listed, cached]
    rw [x.activeNumaNodes] at node
    rcases Nat.lt_succ_iff_lt_or_eq.mp node with old | rfl
    · rw [counts n old]
      exact L.account n old
    obtain ⟨none₁, none₂⟩ := L.no_stock (Nat.le_refl _)
    rw [count, none₁, none₂]
    rfl
  · intro n order c i there
    rw [freeList] at there
    obtain ⟨fits, color, record⟩ := L.free n order c i there
    have node : n < lay.activeNumaNodes := fits.node
    rw [Layout.pageToPhys, pages n node, x.startAddr n node]
    exact ⟨x.fits fits, color, record⟩
  · intro core n phys there
    rw [caches] at there
    obtain ⟨valid, i, leads, fits, record⟩ := L.caches core n phys there
    rw [x.maxCpus]
    exact ⟨valid, i, x.physToPage leads, x.fits fits, by rw [pages n fits.node]; exact record⟩
  · intro core phys there
    rw [inbox] at there
    obtain ⟨valid, n, i, leads, fits, record⟩ := L.inboxes core phys there
    rw [x.maxCpus]
    exact ⟨valid, n, i, x.physToPage leads, x.fits fits, by rw [pages n fits.node]; exact record⟩
  · intro b there
    obtain ⟨fits, record⟩ := L.heads b there
    rw [pages b.node fits.node]
    exact ⟨x.fits fits, record⟩

end Ledger

/-! ## The steps -/

namespace PmmSystem

variable {lay : Layout} {s s' : PmmSystem} {phys : Nat} {b : Block}

/-- The ledger of a state between two calls. -/
structure Sound (lay : Layout) (s : PmmSystem) : Prop where
  ledger : Ledger lay s.pmm s.held (s.parts ++ s.reserved) []
  parts : ∀ b ∈ s.parts, b.order = 0 ∧ lay.Fits b
  reserved : ∀ b ∈ s.reserved, b.order = 0
  zones : ∀ n < lay.activeNumaNodes, ∀ i < lay.totalPages n,
    (lay.zone (n, i)).rank ≤ PmmZone.normal.rank

theorem Sound.leads (S : Sound lay s) {page : Nat × Nat} (h : s.pmm.physToPage phys = some page) :
    lay.physToPage phys = some page := by
  rw [← h, ← S.ledger.layout]
  rfl

theorem Sound.blockAt (S : Sound lay s) {blocks : List Block} (h : s.blockAt blocks phys = some b) :
    b ∈ blocks ∧ lay.physToPage phys = some (b.node, b.index) := by
  obtain ⟨page, leads, found⟩ := bind_eq_some_iff.mp h
  have matched := find?_some found
  have same := of_decide_eq_true matched
  refine ⟨mem_of_find?_eq_some found, ?_⟩
  rw [same.1, same.2]
  exact S.leads leads

theorem boot_sound (maxCpus : Nat) : ∃ lay, Sound lay (boot maxCpus) := by
  refine ⟨(Pmm.boot maxCpus).layout, ⟨rfl, ?_, ?_, ?_, ?_, ?_, ?_, ?_, ?_⟩, ?_, ?_, fun n node => ?_⟩
  · exact Nat.zero_le _
  · intro n node
    exact absurd node (Nat.not_lt_zero n)
  · intro weight _
    have listed : (Pmm.boot maxCpus).listed weight = 0 :=
      shelfSum_zero nofun
    have cached : (Pmm.boot maxCpus).cached weight = 0 :=
      shelfSum_zero nofun
    have pending : (Pmm.boot maxCpus).pending weight = 0 :=
      shelfSum_zero nofun
    rw [boot, listed, cached, pending]
    rfl
  · intro n node
    exact absurd node (Nat.not_lt_zero n)
  case refine_11 => exact absurd node (Nat.not_lt_zero n)
  all_goals
    intros
    rename_i there
    cases there

variable {base size n core : Nat} {pmm : Pmm} {limits : HalMmZoneLimits}

theorem clearOf_apart (clear : pmm.clearOf base size = true) (node : n < pmm.activeNumaNodes) :
    base + size ≤ pmm.layout.startAddr n ∨
      pmm.layout.startAddr n + pmm.layout.totalPages n * pageSize ≤ base := by
  have here := List.all_eq_true.mp clear n (mem_range.mpr node)
  rcases Bool.or_eq_true_iff.mp here with before | behind
  · exact .inl (of_decide_eq_true before)
  · exact .inr (of_decide_eq_true behind)

theorem addRegion_extends (apart : pmm.layout.Apart) (clear : pmm.clearOf base size = true)
    (some' : ¬(size < pageSize ∨ maxNumaNodes ≤ pmm.activeNumaNodes)) :
    Layout.Extends pmm.layout (pmm.pmmAddRegion base size limits).layout := by
  have room : size / pageSize * pageSize ≤ size := Nat.div_mul_le_self size pageSize
  unfold Pmm.pmmAddRegion
  rw [if_neg some']
  have other : ∀ n < pmm.activeNumaNodes,
      update pmm.numaNodes pmm.activeNumaNodes ⟨base, size / pageSize, 0⟩ n =
        pmm.numaNodes n := fun n node => update_of_ne (Nat.ne_of_lt node) _ _
  refine ⟨rfl, rfl, fun n node => ?_, fun n node => ?_, ?_⟩
  · exact congrArg NumaNode.startAddr (other n node)
  · exact congrArg NumaNode.totalPages (other n node)
  · intro n node m node' different
    simp only [Pmm.layout] at node node' ⊢
    rcases Nat.lt_succ_iff_lt_or_eq.mp node with old | rfl
    · rw [other n old]
      rcases Nat.lt_succ_iff_lt_or_eq.mp node' with old' | rfl
      · rw [other m old']
        exact apart n old m old' different
      rw [update_self]
      rcases clearOf_apart clear old with before | behind
      · exact .inr (Nat.le_trans (Nat.add_le_add_left room base) before)
      · exact .inl behind
    · rw [update_self]
      rcases Nat.lt_succ_iff_lt_or_eq.mp node' with old' | rfl
      · rw [other m old']
        rcases clearOf_apart clear old' with before | behind
        · exact .inl (Nat.le_trans (Nat.add_le_add_left room base) before)
        · exact .inr behind
      · exact absurd rfl different

theorem Sound.addRegion (S : Sound lay s) (h : s.step (.addRegion base size limits) = some s') :
    ∃ lay', Sound lay' s' := by
  obtain rfl := S.ledger.layout
  simp only [step] at h
  split at h
  · rename_i clear
    cases h
    by_cases none' : size < pageSize ∨ maxNumaNodes ≤ s.pmm.activeNumaNodes
    · have same : s.pmm.pmmAddRegion base size limits = s.pmm := if_pos none'
      refine ⟨s.pmm.layout, ?_⟩
      simp only [same, newPages, if_true, nil_append]
      exact ⟨S.ledger, S.parts, S.reserved, S.zones⟩
    have x := @addRegion_extends base size s.pmm limits S.ledger.apart clear none'
    have added : s.pmm.pmmAddRegion base size limits = _ := if_neg none'
    have pages : newPages s.pmm (s.pmm.pmmAddRegion base size limits) =
        pagesFrom s.pmm.layout.activeNumaNodes 0
          ((s.pmm.pmmAddRegion base size limits).layout.totalPages
            s.pmm.layout.activeNumaNodes) := by
      unfold newPages
      rw [if_neg]
      · rfl
      · rw [added]
        simp
    have L := S.ledger.extend x rfl (by rw [added]; simp only [Pmm.layout]; omega) (by
        rw [added]
        funext key
        simp only
        split
        · rename_i new
          -- no block of the new node is in a list
          refine (eq_nil_iff_forall_not_mem.mpr fun i there => ?_).symm
          have node : key.1 < s.pmm.activeNumaNodes := (S.ledger.free _ _ _ _ there).1.node
          omega
        · rfl)
      (by rw [added]) (by rw [added])
      (fun n node i => by
        rw [added]
        exact if_neg fun new => Nat.ne_of_lt node new.1)
      (fun n node => by
        rw [added]
        exact congrArg NumaNode.freePages (update_of_ne (Nat.ne_of_lt node) _ _))
      (by
        rw [added]
        simp only [Pmm.layout, update_self])
    refine ⟨_, ?_, fun b h => ⟨(S.parts b h).1, x.fits (S.parts b h).2⟩, ?_, ?_⟩
    · refine L.recut (fun weight _ => ?_) fun _ _ => rfl
      simp only [pages, total_append]
      omega
    · intro b h
      rcases mem_append.mp h with new | old
      · simp only [pages, pagesFrom, List.mem_map] at new
        obtain ⟨i, -, rfl⟩ := new
        rfl
      · exact S.reserved b old
    · intro n node i inside
      rw [x.activeNumaNodes] at node
      rcases Nat.lt_succ_iff_lt_or_eq.mp node with old | rfl
      · have before := S.zones n old i (x.totalPages n old ▸ inside)
        rw [added]
        simp only [Pmm.layout]
        rw [if_neg fun new => Nat.ne_of_lt old new.1]
        exact before
      · rw [added] at inside ⊢
        simp only [Pmm.layout, update_self] at inside ⊢
        rw [if_pos ⟨trivial, inside⟩]
        simp only [Pmm.reservedPage]
        split <;> decide
  · cases h

theorem fits_of_release {i : Nat} (leads : lay.physToPage phys = some (n, i))
    (low : pageSize ≤ phys) : lay.Fits ⟨n, 0, i⟩ := by
  obtain ⟨node, inside, -, high⟩ := Layout.physToPage_eq_some leads
  have lowest : 0 < maxOrder := by decide
  exact ⟨node, lowest, by simp, by simp only [pow_zero]; omega, by simp only; omega⟩

section

variable (S : Sound lay s)

include S

theorem Sound.release (h : s.step (.release core phys) = some s') : Sound lay s' := by
  simp only [step] at h
  split at h
  · rename_i low
    obtain ⟨⟨n, order, i⟩, found, h⟩ := bind_eq_some_iff.mp h
    obtain ⟨pmm, freed, rfl⟩ := map_eq_some_iff.mp h
    obtain ⟨there, leads⟩ := S.blockAt found
    obtain rfl : order = 0 := S.reserved _ there
    have fits := fits_of_release leads low
    have picked : Ledger lay s.pmm s.held
        (⟨n, 0, i⟩ :: (s.parts ++ s.reserved.erase ⟨n, 0, i⟩)) [] := by
      refine S.ledger.recut (fun weight _ => ?_) fun _ _ => rfl
      rw [total_cons, total_append, total_append, ← total_erase weight there]
      omega
    unfold Pmm.markPageFree at freed
    simp only [S.ledger.finds leads] at freed
    have marked := picked.setFirst fits
      { s.pmm.pages (n, i) with refCount := 1, order := 0, state := .allocated } rfl
    refine ⟨marked.mmFreePage_some ⟨leads, fits, ?_, ?_⟩ freed, S.parts,
      fun b h => S.reserved b (mem_of_mem_erase h), S.zones⟩
    · rw [Pmm.pages_setPage_self]
    · rw [Pmm.pages_setPage_self]
  · cases h

variable {block : PmmBlock} {t : Pmm} {currentNode : Nat} {pinned : Bool} {zone : PmmZone}

theorem Sound.giveOut {i : Nat} (leads : lay.physToPage block.physAddr = some (n, i))
    (carries : Ledger.Carries lay t s.held (s.parts ++ s.reserved) block n i) :
    Sound lay (s.giveOut t block) := by
  have leads' : t.physToPage block.physAddr = some (n, i) := by
    cases carries with
    | whole _ _ L | pages _ _ L => exact L.finds leads
  unfold PmmSystem.giveOut
  simp only [leads']
  cases carries with
  | whole length fits L order state =>
    rw [if_pos length]
    refine ⟨L.hand_out fits ⟨order, ?_⟩, S.parts, S.reserved, S.zones⟩
    rw [state]
    exact nofun
  | pages length fits L =>
    rw [if_neg length]
    refine ⟨by rw [append_assoc]; exact L, ?_, S.reserved, S.zones⟩
    intro b h
    rcases mem_append.mp h with new | old
    · obtain ⟨j, range, rfl⟩ := List.mem_map.mp new
      obtain ⟨low, high⟩ := mem_range'_1.mp range
      obtain ⟨k, rfl⟩ := Nat.le.dest low
      exact ⟨rfl, fits k (by omega)⟩
    · exact S.parts b old

theorem Sound.alloc {order preferred : Nat} {config : Option MmColorConfig} {fallback : Bool}
    (h : s.step (.alloc core currentNode order preferred config zone fallback pinned) = some s') :
    Sound lay s' := by
  simp only [step] at h
  split at h
  · have ready : Ledger.Ready lay s.held _ core zone False s.pmm := ⟨S.ledger, False.elim⟩
    obtain ⟨out, called, answer⟩ :=
      ready.pmmAllocPagesColoredInZone currentNode order preferred config fallback
    rw [called, map_some] at h
    cases h
    rcases answer with ⟨failed, ready'⟩ | ⟨nonzero, n, i, grant⟩
    · rw [if_pos failed]
      exact ⟨ready'.ledger, S.parts, S.reserved, S.zones⟩
    · rw [if_neg nonzero]
      exact S.giveOut grant.leads (grant.carries pinned)
  · cases h

theorem Sound.allocContiguous {pageCount : Nat}
    (h : s.step (.allocContiguous core currentNode pageCount zone pinned) = some s') :
    Sound lay s' := by
  obtain ⟨⟨t, given⟩, called, rfl⟩ := map_eq_some_iff.mp h
  rcases S.ledger.pmmAllocContiguousEx_some called with ⟨rfl, L⟩ | ⟨block, n, i, rfl, leads, carries⟩
  · exact ⟨L, S.parts, S.reserved, S.zones⟩
  · exact S.giveOut leads carries

/-- A caller writes to the record of a page and keeps the block. -/
theorem Sound.onPage (found : s.blockAt s.held phys = some b)
    (change : Page → Page) (zone : ∀ page, (change page).zone = page.zone)
    (order : ∀ page, (change page).order = page.order)
    (state : ∀ page, (change page).state = page.state) :
    Sound lay { s with pmm := s.pmm.onPage phys change } := by
  obtain ⟨there, leads⟩ := S.blockAt found
  refine ⟨?_, S.parts, S.reserved, S.zones⟩
  rw [S.ledger.onPage_eq leads]
  exact S.ledger.setHeld there _ (zone _) (order _) (state _)

/-- A caller gives up a block with its last reference. -/
theorem Sound.giveUp (found : s.blockAt s.held phys = some b)
    (L : Ledger lay t (s.held.erase b) (b :: (s.parts ++ s.reserved)) [])
    (order : (t.pages (b.node, b.index)).order = b.order)
    (last : (t.pages (b.node, b.index)).refCount ≤ 1) (freed : t.mmFreePage core phys = some pmm) :
    Sound lay { s with pmm := pmm, held := s.held.erase b } := by
  obtain ⟨there, leads⟩ := S.blockAt found
  obtain ⟨fits, -⟩ := S.ledger.heads b there
  exact ⟨L.mmFreePage_some ⟨leads, fits, order, last⟩ freed, S.parts, S.reserved, S.zones⟩

theorem Sound.free (h : s.step (.free core phys) = some s') : Sound lay s' := by
  obtain ⟨b, found, h⟩ := bind_eq_some_iff.mp h
  obtain ⟨pmm, freed, rfl⟩ := map_eq_some_iff.mp h
  obtain ⟨there, leads⟩ := S.blockAt found
  obtain ⟨fits, order, state⟩ := S.ledger.heads b there
  by_cases shared : 1 < (s.pmm.pages (b.node, b.index)).refCount
  · -- the call takes one reference away
    rw [if_pos shared]
    unfold Pmm.mmFreePage Pmm.withLastReference at freed
    simp only [S.ledger.finds leads, if_neg state, if_pos shared] at freed
    cases freed
    exact ⟨S.ledger.setHeld there _ rfl rfl rfl, S.parts, S.reserved, S.zones⟩
  · rw [if_neg shared]
    exact S.giveUp found (S.ledger.take_back there) order (Nat.not_lt.mp shared) freed

theorem Sound.refPut (h : s.step (.refPut core phys) = some s') : Sound lay s' := by
  obtain ⟨b, found, h⟩ := bind_eq_some_iff.mp h
  obtain ⟨pmm, freed, rfl⟩ := map_eq_some_iff.mp h
  obtain ⟨there, leads⟩ := S.blockAt found
  obtain ⟨fits, order, state⟩ := S.ledger.heads b there
  unfold Pmm.pmmRefPut at freed
  simp only [S.ledger.finds leads] at freed
  split at freed
  · rename_i refused
    cases freed
    have kept : (s.pmm.pages (b.node, b.index)).lastPut = false := by
      unfold Page.lastPut
      rcases refused with none' | ⟨one, pinned⟩
      · simp [none']
      · simpa [one] using fun zero : _ = 0#16 => by simp [zero] at pinned
    rw [kept]
    exact S
  split at freed
  · rename_i last
    rw [if_pos last]
    have one : (s.pmm.pages (b.node, b.index)).refCount = 1 := by
      have both := last
      simp only [Page.lastPut, Bool.and_eq_true, beq_iff_eq] at both
      exact both.1
    have put := (S.ledger.take_back there).setFirst fits { s.pmm.pages (b.node, b.index) with
        refCount := (s.pmm.pages (b.node, b.index)).refCount - 1 } rfl
    refine S.giveUp found put ?_ ?_ freed
    · rw [Pmm.pages_setPage_self]
      exact order
    · rw [Pmm.pages_setPage_self]
      simp only
      omega
  · rename_i notLast
    rw [if_neg notLast]
    cases freed
    exact ⟨S.ledger.setHeld there _ rfl rfl rfl, S.parts, S.reserved, S.zones⟩

theorem Sound.freePages (h : s.step (.freePages core block) = some s') : Sound lay s' := by
  obtain ⟨left, given, h⟩ := bind_eq_some_iff.mp h
  obtain ⟨⟨t, ok⟩, freed, rfl⟩ := map_eq_some_iff.mp h
  obtain ⟨⟨n, i⟩, leads, back⟩ := bind_eq_some_iff.mp given
  replace leads := S.leads leads
  -- a call that is refused has changed nothing
  suffices answer : (ok = false ∧ t = s.pmm) ∨ (ok = true ∧ Sound lay { left with pmm := t }) by
    rcases answer with ⟨rfl, rfl⟩ | ⟨rfl, sound⟩
    · exact S
    · exact sound
  obtain ⟨phys, order, pageCount⟩ := block
  simp only at back leads
  split at back
  · rename_i length
    subst length
    split at back
    · rename_i there
      cases back
      obtain ⟨fits, -⟩ := S.ledger.heads _ there
      rcases (S.ledger.take_back there).pmmFreePages_block leads fits freed with kept | ⟨ok, L⟩
      · exact .inl kept
      · exact .inr ⟨ok, L, S.parts, S.reserved, S.zones⟩
    · cases back
  rename_i length
  split at back
  · cases back
  rename_i positive
  replace positive : 0 < pageCount := Nat.pos_of_ne_zero positive
  split at back
  · -- a block that was allocated as one comes back as the run of its pages
    rename_i b found
    cases back
    have matched := find?_some found
    obtain ⟨m, order', j⟩ := b
    obtain ⟨rfl, rfl, rfl⟩ := of_decide_eq_true matched
    have there := mem_of_find?_eq_some found
    obtain ⟨fits, -⟩ := S.ledger.heads _ there
    have cut : Ledger lay s.pmm (s.held.erase ⟨m, order', j⟩)
        (pagesFrom m j (2 ^ order') ++ (s.parts ++ s.reserved)) [] := by
      refine (S.ledger.take_back there).recut (fun weight splits => ?_) fun _ _ => rfl
      rw [total_append, total_cons, total_pagesFrom splits]
    have runs := Ledger.runOf_pages S.ledger.apart leads 0 (2 ^ order') fun k _ small =>
      Ledger.fits_page fits (by omega)
    rcases cut.pmmFreePages_run runs positive length freed with kept | ⟨ok, L⟩
    · exact .inl kept
    · exact .inr ⟨ok, L, S.parts, S.reserved, S.zones⟩
  · obtain ⟨parts, taken, rfl⟩ := map_eq_some_iff.mp back
    obtain ⟨sums, subset, all⟩ := takeAll_some taken
    have cut : Ledger lay s.pmm s.held (pagesFrom n i pageCount ++ (parts ++ s.reserved)) [] := by
      refine S.ledger.recut (fun weight _ => ?_) fun _ _ => rfl
      rw [total_append, total_append, total_append, ← sums weight]
      omega
    have runs := Ledger.runOf_pages S.ledger.apart leads 0 pageCount fun k _ small => by
      refine (S.parts _ (all _ (List.mem_map.mpr ⟨i + k, mem_range'_1.mpr ⟨?_, ?_⟩, rfl⟩))).2
      · omega
      · omega
    rcases cut.pmmFreePages_run runs positive length freed with kept | ⟨ok, L⟩
    · exact .inl kept
    · exact .inr ⟨ok, L, fun b h => S.parts b (subset b h), S.reserved, S.zones⟩

theorem sound_step {a : PmmAction} (h : Steps s a s') : ∃ lay', Sound lay' s' := by
  cases a with
  | addRegion => exact S.addRegion h
  | release => exact ⟨lay, S.release h⟩
  | coreLocalInit core =>
    cases h
    refine ⟨lay, ?_, S.parts, S.reserved, S.zones⟩
    simp only [Pmm.pmmCoreLocalInit]
    split
    · exact S.ledger.setActive core
    · exact S.ledger
  | alloc => exact ⟨lay, S.alloc h⟩
  | allocContiguous => exact ⟨lay, S.allocContiguous h⟩
  | free => exact ⟨lay, S.free h⟩
  | freePages => exact ⟨lay, S.freePages h⟩
  | refGet phys | unpin phys =>
    obtain ⟨b, found, rfl⟩ := map_eq_some_iff.mp h
    refine ⟨lay, S.onPage found _ ?_ ?_ ?_⟩
    all_goals
      intro page
      split <;> rfl
  | refPut => exact ⟨lay, S.refPut h⟩
  | pin phys =>
    obtain ⟨b, found, rfl⟩ := map_eq_some_iff.mp h
    exact ⟨lay, S.onPage found _ (fun _ => rfl) (fun _ => rfl) (fun _ => rfl)⟩
  | drain current core =>
    obtain ⟨pmm, drained, rfl⟩ := map_eq_some_iff.mp h
    obtain ⟨t, drained', L, -⟩ := @Ledger.pmmDrainRemoteFrees _ _ _ _ core current S.ledger
    obtain rfl := some.inj (drained.symm.trans drained')
    exact ⟨lay, L, S.parts, S.reserved, S.zones⟩
end

theorem sound_run {maxCpus : Nat} (run : Run Steps (fun _ _ => True) (boot maxCpus) s) :
    ∃ lay, Sound lay s :=
  run.invariant (fun s => ∃ lay, Sound lay s) (boot_sound maxCpus)
    fun _ _ _ ⟨_, S⟩ _ step => sound_step S step

/-- In every state that calls of the memory manager lead to, each page of a node is at one
place: in one block of a free list, in one cache, in one inbox, or with one owner. The
blocks of the lists are aligned and within the node, and its count is that of its pages in
lists and caches. -/
theorem pages_conserved {maxCpus : Nat} (run : Run Steps (fun _ _ => True) (boot maxCpus) s)
    {n : Nat} (node : n < s.pmm.activeNumaNodes) : (∀ i < (s.pmm.numaNodes n).totalPages,
      s.pmm.listed (hold n i) + s.pmm.cached (hold n i) + s.pmm.pending (hold n i) +
        total (hold n i) (s.held ++ s.parts ++ s.reserved) = 1) ∧
    (∀ order c i, i ∈ s.pmm.freeList (n, order, c) →
      2 ^ order ∣ i ∧ i + 2 ^ order ≤ (s.pmm.numaNodes n).totalPages) ∧
    (s.pmm.numaNodes n).freePages = s.pmm.listed (pagesOf n) + s.pmm.cached (pagesOf n) := by
  obtain ⟨lay, S⟩ := sound_run run
  obtain rfl := S.ledger.layout
  refine ⟨fun i inside => ?_, fun order c i there => ?_, S.ledger.account n node⟩
  · have one := S.ledger.one_place node inside
    simp only [total_append] at one ⊢
    omega
  · obtain ⟨fits, -⟩ := S.ledger.free n order c i there
    exact ⟨fits.aligned, fits.inside⟩

/-- A region of eight pages, all of them released by a core that has no cache yet. -/
def eightPages : List PmmAction :=
  .addRegion 0x100000 0x8000 ⟨0, 0xFFFFFFFF⟩ ::
    (range 8).map fun i => .release 0 (0x100000 + i * pageSize)

/-- Core 0 allocates a page, core 1 frees it, and core 0 takes it from its inbox. -/
def freedByOther : List PmmAction :=
  [.coreLocalInit 1, .alloc 0 0 0 0 none .any true false, .free 1 0x100000, .drain 0 0]

theorem pages_conserved_eight : ∃ s, Run Steps (fun _ _ => True) (boot 2) s ∧
    0 < s.pmm.activeNumaNodes ∧ ((∀ i < (s.pmm.numaNodes 0).totalPages,
      s.pmm.listed (hold 0 i) + s.pmm.cached (hold 0 i) + s.pmm.pending (hold 0 i) +
        total (hold 0 i) (s.held ++ s.parts ++ s.reserved) = 1) ∧
    (∀ order c i, i ∈ s.pmm.freeList (0, order, c) →
      2 ^ order ∣ i ∧ i + 2 ^ order ≤ (s.pmm.numaNodes 0).totalPages) ∧
    (s.pmm.numaNodes 0).freePages = s.pmm.listed (pagesOf 0) + s.pmm.cached (pagesOf 0)) := by
  exact found_run_then (eightPages ++ freedByOther) (by decide +kernel) fun s run node =>
    pages_conserved run node

/-- In every such state the record of a page agrees with the list, cache or inbox it is in. -/
theorem records_agree {maxCpus : Nat} (run : Run Steps (fun _ _ => True) (boot maxCpus) s) :
    let lay := s.pmm.layout
    (∀ n order c i, i ∈ s.pmm.freeList (n, order, c) → lay.Fits ⟨n, order, i⟩ ∧
      c = Pmm.getPageColor (lay.pageToPhys (n, i)) ∧ (s.pmm.pages (n, i)).IsFree order) ∧
    (∀ core n phys, phys ∈ s.pmm.nodeCaches (core, n) → core < lay.maxCpus ∧
      ∃ i, lay.physToPage phys = some (n, i) ∧ lay.Fits ⟨n, 0, i⟩ ∧ (s.pmm.pages (n, i)).IsFree 0) ∧
    ∀ core phys, phys ∈ s.pmm.inbox core → core < lay.maxCpus ∧ ∃ n i,
      lay.physToPage phys = some (n, i) ∧ lay.Fits ⟨n, 0, i⟩ ∧ (s.pmm.pages (n, i)).IsPending := by
  obtain ⟨lay, S⟩ := sound_run run
  obtain rfl := S.ledger.layout
  exact ⟨S.ledger.free, S.ledger.caches, S.ledger.inboxes⟩

theorem records_agree_eight : ∃ s, Run Steps (fun _ _ => True) (boot 2) s ∧
    0x100000 ∈ s.pmm.inbox 0 ∧ ∃ n i, (s.pmm.pages (n, i)).IsPending := by
  refine found_run_then (eightPages ++ freedByOther.take 3) (by decide +kernel) fun s run there => ?_
  obtain ⟨-, n, i, -, -, pending⟩ := (records_agree run).2.2 0 _ there
  exact ⟨n, i, pending⟩

end PmmSystem

end BharatOS
