import BharatOS.Lib.Shelves
import BharatOS.Mm.PmmSystem

/-!
# Where the pages are

Every page is counted where it is. A change moves one block from one place to another, and what
does not depend on how the pages are cut into blocks keeps its sum.
-/

namespace BharatOS

open Function List

open Block

namespace Block

/-- The weight of all blocks in a list. -/
def total (weight : Block → Nat) (blocks : List Block) : Nat := (blocks.map weight).sum

variable (weight : Block → Nat)

@[simp] theorem total_nil : total weight [] = 0 := rfl

@[simp] theorem total_cons (b : Block) (blocks : List Block) :
    total weight (b :: blocks) = weight b + total weight blocks := by
  simp [total]

@[simp] theorem total_append (blocks more : List Block) :
    total weight (blocks ++ more) = total weight blocks + total weight more := by
  simp [total]

variable {b : Block} {blocks : List Block}

theorem le_total (h : b ∈ blocks) : weight b ≤ total weight blocks :=
  single_le_sum (fun _ _ => Nat.zero_le _) _ (List.mem_map_of_mem h)

theorem total_erase (h : b ∈ blocks) :
    weight b + total weight (blocks.erase b) = total weight blocks := by
  have same := ((perm_cons_erase h).map weight).sum_eq
  exact same.symm

end Block

/-! ## The address map -/

/-- What no call but `pmm_add_region` changes. -/
structure Layout where
  maxCpus : Nat
  activeNumaNodes : Nat
  startAddr : Nat → Nat
  totalPages : Nat → Nat
  zone : Nat × Nat → PmmZone

namespace Layout

def pageToPhys (lay : Layout) (page : Nat × Nat) : Nat :=
  lay.startAddr page.1 + page.2 * pageSize

def physToPage (lay : Layout) (phys : Nat) : Option (Nat × Nat) :=
  (range lay.activeNumaNodes).findSome? fun i =>
    if lay.startAddr i ≤ phys ∧ phys < lay.startAddr i + lay.totalPages i * pageSize then
      some (i, (phys - lay.startAddr i) / pageSize)
    else none

/-- No two nodes overlap. -/
def Apart (lay : Layout) : Prop :=
  ∀ n < lay.activeNumaNodes, ∀ m < lay.activeNumaNodes, n ≠ m →
    lay.startAddr n + lay.totalPages n * pageSize ≤ lay.startAddr m ∨
    lay.startAddr m + lay.totalPages m * pageSize ≤ lay.startAddr n

/-- A block of the node's page array. Its address is not `NULL`. -/
structure Fits (lay : Layout) (b : Block) : Prop where
  node : b.node < lay.activeNumaNodes
  order : b.order < maxOrder
  aligned : 2 ^ b.order ∣ b.index
  inside : b.index + 2 ^ b.order ≤ lay.totalPages b.node
  nonzero : lay.pageToPhys (b.node, b.index) ≠ 0

/-- All pages there are. -/
def region (lay : Layout) (weight : Block → Nat) : Nat :=
  ∑ n ∈ Finset.range lay.activeNumaNodes, ∑ i ∈ Finset.range (lay.totalPages n), weight ⟨n, 0, i⟩

/-- The weight of the page that has the address. -/
def weigh (lay : Layout) (weight : Block → Nat) (phys : Nat) : Nat :=
  (lay.physToPage phys).elim 0 fun page => weight ⟨page.1, 0, page.2⟩

variable {lay : Layout} {n i phys : Nat}

theorem physToPage_eq_some (h : lay.physToPage phys = some (n, i)) :
    n < lay.activeNumaNodes ∧ i < lay.totalPages n ∧ lay.pageToPhys (n, i) ≤ phys ∧
      phys < lay.pageToPhys (n, i) + pageSize := by
  obtain ⟨m, listed, found⟩ := exists_of_findSome?_eq_some h
  split at found
  · rename_i inside
    cases found
    have quotient := Nat.div_add_mod (phys - lay.startAddr n) pageSize
    have rest := Nat.mod_lt (phys - lay.startAddr n) (show 0 < pageSize by decide)
    rw [Nat.mul_comm] at quotient
    refine ⟨mem_range.mp listed, Nat.div_lt_of_lt_mul ?_, ?_, ?_⟩
    · rw [Nat.mul_comm]
      omega
    · simp only [pageToPhys]
      omega
    · simp only [pageToPhys]
      omega
  · cases found

/-- An address of a node leads to that node. -/
theorem physToPage_of_mem (apart : lay.Apart) (node : n < lay.activeNumaNodes)
    (inside : i < lay.totalPages n) (low : lay.pageToPhys (n, i) ≤ phys)
    (high : phys < lay.pageToPhys (n, i) + pageSize) : lay.physToPage phys = some (n, i) := by
  have room : (i + 1) * pageSize ≤ lay.totalPages n * pageSize := Nat.mul_le_mul_right _ inside
  have here : lay.startAddr n ≤ phys ∧ phys < lay.startAddr n + lay.totalPages n * pageSize := by
    simp only [pageToPhys, pageSize] at room low high ⊢
    omega
  have index : (phys - lay.startAddr n) / pageSize = i := by
    simp only [pageToPhys] at low high
    refine Nat.div_eq_of_lt_le ?_ ?_
    · omega
    · rw [Nat.add_mul]
      omega
  cases found : lay.physToPage phys with
  | none =>
    have missed := findSome?_eq_none_iff.mp found n (mem_range.mpr node)
    rw [if_pos here] at missed
    cases missed
  | some page =>
    obtain ⟨m, listed, found⟩ := exists_of_findSome?_eq_some found
    split at found
    · rename_i there
      by_cases same : m = n
      · subst same
        rw [index] at found
        exact found.symm
      · rcases apart m (mem_range.mp listed) n node same with _ | _ <;> omega
    · cases found

theorem physToPage_pageToPhys (apart : lay.Apart) (node : n < lay.activeNumaNodes)
    (inside : i < lay.totalPages n) : lay.physToPage (lay.pageToPhys (n, i)) = some (n, i) :=
  physToPage_of_mem apart node inside (Nat.le_refl _) (Nat.lt_add_of_pos_right (by decide))

/-- The addresses of a run of pages lead to one page after the other. -/
theorem physToPage_run (apart : lay.Apart) (leads : lay.physToPage phys = some (n, i)) {k : Nat}
    (inside : i + k < lay.totalPages n) :
    lay.physToPage (phys + k * pageSize) = some (n, i + k) := by
  obtain ⟨node, -, low, high⟩ := physToPage_eq_some leads
  refine physToPage_of_mem apart node inside ?_ ?_
  · simp only [pageToPhys, Nat.add_mul] at low ⊢
    omega
  · simp only [pageToPhys, Nat.add_mul] at high ⊢
    omega

theorem weigh_of_some (weight : Block → Nat) (h : lay.physToPage phys = some (n, i)) :
    lay.weigh weight phys = weight ⟨n, 0, i⟩ := by
  rw [weigh, h]
  rfl

/-- A page is in a node once. -/
theorem region_hold (node : n < lay.activeNumaNodes) (inside : i < lay.totalPages n) :
    lay.region (hold n i) = 1 := by
  have one : ∀ m j, hold n i ⟨m, 0, j⟩ = if m = n ∧ j = i then 1 else 0 := by
    intro m j
    simp only [hold_eq, pow_zero]
    congr 1
    apply propext
    omega
  simp only [region, one]
  rw [Finset.sum_eq_single_of_mem n (Finset.mem_range.mpr node),
    Finset.sum_eq_single_of_mem i (Finset.mem_range.mpr inside)]
  · rw [if_pos ⟨rfl, rfl⟩]
  · intro j _ other
    rw [if_neg (by simp [other])]
  · intro m _ other
    exact Finset.sum_eq_zero fun j _ => if_neg (by simp [other])

end Layout

/-! ## The places -/

/-- The record of the first page of a free block. -/
structure Page.IsFree (page : Page) (order : Nat) : Prop where
  order : page.order = order
  refCount : page.refCount = 0
  state : page.state = .free
  pinCount : page.pinCount = 0

theorem Page.isFree_freed {page : Page} {order : Nat} : (page.freed order).IsFree order :=
  ⟨rfl, rfl, rfl, rfl⟩

/-- The record of a page in an inbox. -/
structure Page.IsPending (page : Page) : Prop where
  order : page.order = 0
  refCount : page.refCount = 0
  state : page.state = .remoteFreePending

namespace Pmm

def layout (s : Pmm) : Layout :=
  ⟨s.maxCpus, s.activeNumaNodes, fun n => (s.numaNodes n).startAddr,
    fun n => (s.numaNodes n).totalPages, fun page => (s.pages page).zone⟩

@[irreducible] def freeKeys : Finset (Nat × Nat × Nat) :=
  Finset.range maxNumaNodes ×ˢ Finset.range maxOrder ×ˢ Finset.range cacheColors

def cacheKeys (s : Pmm) : Finset (Nat × Nat) :=
  Finset.range s.maxCpus ×ˢ Finset.range maxNumaNodes

/-- The blocks of the free lists. -/
def listed (s : Pmm) (weight : Block → Nat) : Nat :=
  shelfSum freeKeys s.freeList fun key i => weight ⟨key.1, key.2.1, i⟩

/-- The pages in the caches. -/
def cached (s : Pmm) (weight : Block → Nat) : Nat :=
  shelfSum s.cacheKeys s.nodeCaches fun _ phys => s.layout.weigh weight phys

/-- The pages in the inboxes. -/
def pending (s : Pmm) (weight : Block → Nat) : Nat :=
  shelfSum (Finset.range s.maxCpus) s.inbox fun _ phys => s.layout.weigh weight phys

variable (s : Pmm) (n count : Nat)

theorem pages_setPage_self (key : Nat × Nat) (page : Page) :
    (s.setPage key page).pages key = page := update_self ..

theorem layout_setPage {s : Pmm} {key : Nat × Nat} {page : Page}
    (zone : page.zone = (s.pages key).zone) : (s.setPage key page).layout = s.layout := by
  simp only [layout, setPage, Layout.mk.injEq, true_and]
  funext other
  by_cases h : other = key
  · rw [h, update_self, zone]
  · rw [update_of_ne h]

theorem layout_setNode (freePages : Nat) :
    (s.setNode n { s.numaNodes n with freePages := freePages }).layout = s.layout := by
  simp only [layout, setNode, Layout.mk.injEq, true_and, and_true]
  constructor <;> funext m <;> by_cases h : m = n <;> simp [h]

end Pmm

/-- The state of the memory manager while `held` are the blocks that callers have, `loose`
are blocks outside of it, and the pages of `due` have left the lists and caches but have
not been taken off the counts of their nodes yet. -/
structure Ledger (lay : Layout) (s : Pmm) (held loose due : List Block) : Prop where
  layout : s.layout = lay
  nodes : lay.activeNumaNodes ≤ maxNumaNodes
  apart : lay.Apart
  balance : ∀ weight, Splits weight →
    s.listed weight + s.cached weight + s.pending weight + total weight held +
      total weight loose = lay.region weight
  account : ∀ n < lay.activeNumaNodes,
    (s.numaNodes n).freePages = s.listed (pagesOf n) + s.cached (pagesOf n) + total (pagesOf n) due
  free : ∀ n order c i, i ∈ s.freeList (n, order, c) → lay.Fits ⟨n, order, i⟩ ∧
    c = Pmm.getPageColor (lay.pageToPhys (n, i)) ∧ (s.pages (n, i)).IsFree order
  caches : ∀ core n phys, phys ∈ s.nodeCaches (core, n) → core < lay.maxCpus ∧
    ∃ i, lay.physToPage phys = some (n, i) ∧ lay.Fits ⟨n, 0, i⟩ ∧ (s.pages (n, i)).IsFree 0
  inboxes : ∀ core phys, phys ∈ s.inbox core → core < lay.maxCpus ∧
    ∃ n i, lay.physToPage phys = some (n, i) ∧ lay.Fits ⟨n, 0, i⟩ ∧ (s.pages (n, i)).IsPending
  heads : ∀ b ∈ held, lay.Fits b ∧ (s.pages (b.node, b.index)).order = b.order ∧
    (s.pages (b.node, b.index)).state ≠ .free

namespace Ledger

variable {lay : Layout} {s : Pmm} {held loose due : List Block} {n order c i core phys : Nat}

section

variable (L : Ledger lay s held loose due)

include L

theorem freeKey (fits : lay.Fits ⟨n, order, i⟩)
    (color : c = Pmm.getPageColor (lay.pageToPhys (n, i))) : (n, order, c) ∈ Pmm.freeKeys := by
  have node : n < maxNumaNodes := Nat.lt_of_lt_of_le fits.node L.nodes
  have color : c < cacheColors := color ▸ Nat.mod_lt _ (by decide)
  unfold Pmm.freeKeys
  simp only [Finset.mem_product, Finset.mem_range]
  exact ⟨node, fits.order, color⟩

theorem cacheKey (valid : core < lay.maxCpus)
    (node : n < lay.activeNumaNodes) : (core, n) ∈ s.cacheKeys := by
  obtain rfl := L.layout
  simp only [Pmm.cacheKeys, Finset.mem_product, Finset.mem_range]
  exact ⟨valid, Nat.lt_of_lt_of_le node L.nodes⟩

theorem inboxKey (valid : core < lay.maxCpus) : core ∈ Finset.range s.maxCpus := by
  obtain rfl := L.layout
  exact Finset.mem_range.mpr valid

theorem finds (leads : lay.physToPage phys = some (n, i)) : s.physToPage phys = some (n, i) := by
  obtain rfl := L.layout
  exact leads

theorem weigh (weight : Block → Nat) (leads : lay.physToPage phys = some (n, i)) :
    s.layout.weigh weight phys = weight ⟨n, 0, i⟩ := by
  rw [L.layout, Layout.weigh_of_some _ leads]

/-! ### A page has one place -/

theorem one_place (node : n < lay.activeNumaNodes)
    (inside : i < lay.totalPages n) : s.listed (hold n i) + s.cached (hold n i) +
      s.pending (hold n i) + total (hold n i) held + total (hold n i) loose = 1 := by
  rw [L.balance _ (hold_splits n i), Layout.region_hold node inside]

theorem listed_pos (h : i ∈ s.freeList (n, order, c)) : 1 ≤ s.listed (hold n i) := by
  obtain ⟨fits, color, -⟩ := L.free n order c i h
  have least := le_shelfSum (fun key j => hold n i ⟨key.1, key.2.1, j⟩) (L.freeKey fits color) h
  rwa [hold_self ⟨n, order, i⟩] at least

theorem cached_pos (h : phys ∈ s.nodeCaches (core, n))
    (page : lay.physToPage phys = some (n, i)) : 1 ≤ s.cached (hold n i) := by
  obtain ⟨valid, -⟩ := L.caches core n phys h
  have key := L.cacheKey valid (Layout.physToPage_eq_some page).1
  calc 1 = s.layout.weigh (hold n i) phys := by rw [L.weigh _ page, hold_self ⟨n, 0, i⟩]
    _ ≤ s.cached (hold n i) := le_shelfSum (fun _ phys => s.layout.weigh (hold n i) phys) key h

theorem pending_pos (h : phys ∈ s.inbox core)
    (page : lay.physToPage phys = some (n, i)) : 1 ≤ s.pending (hold n i) := by
  obtain ⟨valid, -⟩ := L.inboxes core phys h
  calc 1 = s.layout.weigh (hold n i) phys := by rw [L.weigh _ page, hold_self ⟨n, 0, i⟩]
    _ ≤ s.pending (hold n i) :=
        le_shelfSum (fun _ phys => s.layout.weigh (hold n i) phys) (L.inboxKey valid) h
end

variable {b : Block} {rest : List Nat}

theorem held_pos (h : b ∈ held) : 1 ≤ total (hold b.node b.index) held := by
  have least := le_total (hold b.node b.index) h
  rwa [hold_self b] at least

/-! ### The moves -/

section

variable (L : Ledger lay s held loose due)

include L

/-- The record of a page that is in nobody's hands but the call's. -/
theorem setPage (node : n < lay.activeNumaNodes)
    (inside : i < lay.totalPages n) (mine : 1 ≤ total (hold n i) loose) {page : Page}
    (zone : page.zone = (s.pages (n, i)).zone) :
    Ledger lay (s.setPage (n, i) page) held loose due := by
  have one := L.one_place node inside
  -- the ledger reads no page that would be counted a second time here
  have same : ∀ m j, (1 ≤ s.listed (hold m j) ∨ 1 ≤ s.cached (hold m j) ∨
      1 ≤ s.pending (hold m j) ∨ 1 ≤ total (hold m j) held) →
      (s.setPage (n, i) page).pages (m, j) = s.pages (m, j) := by
    intro m j read
    refine update_of_ne ?_ _ _
    rintro ⟨⟩
    omega
  have kept := Pmm.layout_setPage zone
  refine { L with layout := kept.trans L.layout, balance := ?_, account := ?_, free := ?_,
                  caches := ?_, inboxes := ?_, heads := ?_ }
  · intro weight splits
    exact L.balance weight splits
  · intro m node
    exact L.account m node
  · intro m o c j h
    obtain ⟨fits, color, kept⟩ := L.free m o c j h
    rw [← same m j (.inl (L.listed_pos h))] at kept
    exact ⟨fits, color, kept⟩
  · intro core m phys h
    obtain ⟨valid, j, leads, fits, kept⟩ := L.caches core m phys h
    rw [← same m j (.inr (.inl (L.cached_pos h leads)))] at kept
    exact ⟨valid, j, leads, fits, kept⟩
  · intro core phys h
    obtain ⟨valid, m, j, leads, fits, kept⟩ := L.inboxes core phys h
    rw [← same m j (.inr (.inr (.inl (L.pending_pos h leads))))] at kept
    exact ⟨valid, m, j, leads, fits, kept⟩
  · intro b h
    obtain ⟨fits, kept⟩ := L.heads b h
    rw [← same b.node b.index (.inr (.inr (.inr (held_pos h))))] at kept
    exact ⟨fits, kept⟩

/-- The loose blocks and the due ones may be cut in another way. -/
theorem recut {loose' due' : List Block}
    (hl : ∀ weight, Splits weight → total weight loose' = total weight loose)
    (hd : ∀ weight, Splits weight → total weight due' = total weight due) :
    Ledger lay s held loose' due' :=
  { L with
    balance := fun weight splits => by rw [hl weight splits, L.balance weight splits]
    account := fun n node => by rw [hd _ (pagesOf_splits n), L.account n node] }

/-- A block moves: what the lists and caches lose is due, and what is due is in the call's
hands or in an inbox. -/
theorem sums (t : Pmm) (loose' due' : List Block) (counts : t.numaNodes = s.numaNodes)
    (stock : ∀ weight, t.listed weight + t.cached weight + total weight due' =
      s.listed weight + s.cached weight + total weight due)
    (rest : ∀ weight, t.pending weight + total weight loose' + total weight due =
      s.pending weight + total weight loose + total weight due') :
    (∀ weight, Splits weight → t.listed weight + t.cached weight + t.pending weight +
      total weight held + total weight loose' = lay.region weight) ∧
    ∀ n < lay.activeNumaNodes, (t.numaNodes n).freePages =
      t.listed (pagesOf n) + t.cached (pagesOf n) + total (pagesOf n) due' := by
  constructor
  · intro weight splits
    have before := L.balance weight splits
    have first := stock weight
    have second := rest weight
    omega
  · intro n node
    rw [counts, stock (pagesOf n)]
    exact L.account n node

theorem take_free (h : i ∈ s.freeList (n, order, c)) :
    Ledger lay (s.delFree n order c i) held (⟨n, order, i⟩ :: loose) (⟨n, order, i⟩ :: due) := by
  obtain ⟨fits, color, -⟩ := L.free n order c i h
  have less : ∀ weight, (s.delFree n order c i).listed weight + weight ⟨n, order, i⟩ =
      s.listed weight := fun weight =>
    shelfSum_take (fun (key : Nat × Nat × Nat) j => weight ⟨key.1, key.2.1, j⟩)
      (L.freeKey fits color) (perm_cons_erase h)
  obtain ⟨balance, account⟩ := L.sums (s.delFree n order c i) (⟨n, order, i⟩ :: loose)
    (⟨n, order, i⟩ :: due) rfl
    (fun weight => by
      have kept : (s.delFree n order c i).cached weight = s.cached weight := rfl
      rw [kept, ← less weight, total_cons]
      omega)
    (fun weight => by
      have kept : (s.delFree n order c i).pending weight = s.pending weight := rfl
      simp only [kept, total_cons]
      omega)
  refine { L with balance := balance, account := account, free := ?_ }
  intro m o c' j there
  exact L.free m o c' j (mem_of_take there (perm_cons_erase h))
end

theorem put_free (L : Ledger lay s held (⟨n, order, i⟩ :: loose) (⟨n, order, i⟩ :: due))
    (fits : lay.Fits ⟨n, order, i⟩) (page : (s.pages (n, i)).IsFree order) :
    Ledger lay (s.addFree n order i) held loose due := by
  have color : s.color n i = Pmm.getPageColor (lay.pageToPhys (n, i)) := by
    rw [← L.layout]
    rfl
  have more : ∀ weight, (s.addFree n order i).listed weight =
      s.listed weight + weight ⟨n, order, i⟩ := fun weight =>
    shelfSum_put (fun (key : Nat × Nat × Nat) j => weight ⟨key.1, key.2.1, j⟩)
      (L.freeKey fits color) (.refl _)
  obtain ⟨balance, account⟩ := L.sums (s.addFree n order i) loose due rfl (fun weight => by
      have kept : (s.addFree n order i).cached weight = s.cached weight := rfl
      rw [kept, more weight, total_cons]
      omega)
    (fun weight => by
      have kept : (s.addFree n order i).pending weight = s.pending weight := rfl
      simp only [kept, total_cons]
      omega)
  refine { L with balance := balance, account := account, free := ?_ }
  intro m o c' j there
  rcases mem_of_put there (.refl _) with before | ⟨⟨⟩, rfl⟩
  · exact L.free m o c' j before
  · exact ⟨fits, color, page⟩

theorem put_cached (L : Ledger lay s held (⟨n, 0, i⟩ :: loose) (⟨n, 0, i⟩ :: due))
    (valid : core < lay.maxCpus) (leads : lay.physToPage phys = some (n, i))
    (fits : lay.Fits ⟨n, 0, i⟩) (page : (s.pages (n, i)).IsFree 0) :
    Ledger lay (s.setCache (core, n) (phys :: s.nodeCaches (core, n))) held loose due := by
  generalize stored : s.setCache (core, n) (phys :: s.nodeCaches (core, n)) = t
  have more : ∀ weight, t.cached weight = s.cached weight + weight ⟨n, 0, i⟩ := by
    intro weight
    rw [← stored, ← L.weigh weight leads]
    exact shelfSum_put (fun _ phys => s.layout.weigh weight phys) (L.cacheKey valid fits.node)
      (.refl _)
  have kept : t.listed = s.listed ∧ t.pending = s.pending := by rw [← stored]; exact ⟨rfl, rfl⟩
  obtain ⟨balance, account⟩ := L.sums t loose due (by rw [← stored]; rfl) (fun weight => by
      rw [kept.1, more weight, total_cons]
      omega)
    (fun weight => by
      simp only [kept.2, total_cons]
      omega)
  subst stored
  refine { L with balance := balance, account := account, caches := ?_ }
  intro core' m phys' there
  rcases mem_of_put there (.refl _) with before | ⟨⟨⟩, rfl⟩
  · exact L.caches core' m phys' before
  · exact ⟨valid, i, leads, fits, page⟩

theorem put_pending (L : Ledger lay s held (⟨n, 0, i⟩ :: loose) due) (valid : core < lay.maxCpus)
    (leads : lay.physToPage phys = some (n, i)) (fits : lay.Fits ⟨n, 0, i⟩)
    (page : (s.pages (n, i)).IsPending) :
    Ledger lay (s.setInbox core (s.inbox core ++ [phys])) held loose due := by
  have more : ∀ weight, (s.setInbox core (s.inbox core ++ [phys])).pending weight =
      s.pending weight + weight ⟨n, 0, i⟩ := by
    intro weight
    rw [← L.weigh weight leads]
    exact shelfSum_put (fun _ phys => s.layout.weigh weight phys) (L.inboxKey valid)
      (perm_append_singleton ..)
  obtain ⟨balance, account⟩ := L.sums (s.setInbox core (s.inbox core ++ [phys])) loose due rfl
    (fun _ => rfl)
    (fun weight => by
      rw [more weight, total_cons]
      omega)
  refine { L with balance := balance, account := account, inboxes := ?_ }
  intro core' phys' there
  rcases mem_of_put there (perm_append_singleton ..) with before | ⟨rfl, rfl⟩
  · exact L.inboxes core' phys' before
  · exact ⟨valid, n, i, leads, fits, page⟩

theorem pagesOf_ne {m : Nat} (other : m ≠ b.node) : pagesOf m b = 0 :=
  if_neg fun same => other same.symm

/-- A caller is given a block. -/
theorem hand_out (L : Ledger lay s held (b :: loose) due) (fits : lay.Fits b)
    (page : (s.pages (b.node, b.index)).order = b.order ∧
      (s.pages (b.node, b.index)).state ≠ .free) : Ledger lay s (b :: held) loose due := by
  refine { L with balance := ?_, heads := ?_ }
  · intro weight splits
    have before := L.balance weight splits
    rw [total_cons] at before ⊢
    omega
  · intro b' h
    rcases mem_cons.mp h with rfl | before
    · exact ⟨fits, page⟩
    · exact L.heads b' before

section

variable (L : Ledger lay s held loose due)

include L

theorem take_cached (top : s.nodeCaches (core, n) = phys :: rest)
    (leads : lay.physToPage phys = some (n, i)) :
    Ledger lay (s.setCache (core, n) rest) held (⟨n, 0, i⟩ :: loose) (⟨n, 0, i⟩ :: due) := by
  have there : phys ∈ s.nodeCaches (core, n) := top ▸ mem_cons_self
  have key := L.cacheKey (L.caches core n phys there).1 (Layout.physToPage_eq_some leads).1
  have less : ∀ weight, (s.setCache (core, n) rest).cached weight + weight ⟨n, 0, i⟩ =
      s.cached weight := by
    intro weight
    rw [← L.weigh weight leads]
    exact shelfSum_take (fun _ phys => s.layout.weigh weight phys) key (.of_eq top)
  obtain ⟨balance, account⟩ := L.sums (s.setCache (core, n) rest) (⟨n, 0, i⟩ :: loose)
    (⟨n, 0, i⟩ :: due) rfl
    (fun weight => by
      have kept : (s.setCache (core, n) rest).listed weight = s.listed weight := rfl
      rw [kept, ← less weight, total_cons]
      omega)
    (fun weight => by
      have kept : (s.setCache (core, n) rest).pending weight = s.pending weight := rfl
      simp only [kept, total_cons]
      omega)
  refine { L with balance := balance, account := account, caches := ?_ }
  intro core' m phys' there
  exact L.caches core' m phys' (mem_of_take there (.of_eq top))

theorem take_pending (first : s.inbox core = phys :: rest)
    (leads : lay.physToPage phys = some (n, i)) :
    Ledger lay (s.setInbox core rest) held (⟨n, 0, i⟩ :: loose) due := by
  have there : phys ∈ s.inbox core := first ▸ mem_cons_self
  have less : ∀ weight, (s.setInbox core rest).pending weight + weight ⟨n, 0, i⟩ =
      s.pending weight := by
    intro weight
    rw [← L.weigh weight leads]
    exact shelfSum_take (fun _ phys => s.layout.weigh weight phys)
      (L.inboxKey (L.inboxes core phys there).1) (.of_eq first)
  obtain ⟨balance, account⟩ := L.sums (s.setInbox core rest) (⟨n, 0, i⟩ :: loose) due rfl
    (fun _ => rfl)
    (fun weight => by
      rw [← less weight, total_cons]
      omega)
  refine { L with balance := balance, account := account, inboxes := ?_ }
  intro core' phys' there
  exact L.inboxes core' phys' (mem_of_take there (.of_eq first))

/-- The count of a node goes with the pages that are due. -/
theorem recount {freePages : Nat} {due' : List Block}
    (counts : freePages + total (pagesOf n) due = (s.numaNodes n).freePages + total (pagesOf n) due')
    (others : ∀ m ≠ n, total (pagesOf m) due' = total (pagesOf m) due) :
    Ledger lay (s.setNode n { s.numaNodes n with freePages := freePages }) held loose due' := by
  have kept := s.layout_setNode n freePages
  have cached : ∀ weight, (s.setNode n { s.numaNodes n with freePages := freePages }).cached weight =
      s.cached weight := fun weight => by
    unfold Pmm.cached
    rw [kept]
    rfl
  have pending : ∀ weight,
      (s.setNode n { s.numaNodes n with freePages := freePages }).pending weight =
      s.pending weight := fun weight => by
    unfold Pmm.pending
    rw [kept]
    rfl
  refine { L with layout := kept.trans L.layout, balance := ?_, account := ?_ }
  · intro weight splits
    rw [cached weight, pending weight]
    exact L.balance weight splits
  · intro m node
    have before := L.account m node
    rw [cached (pagesOf m)]
    change (update s.numaNodes n _ m).freePages = s.listed (pagesOf m) + _ + _
    by_cases same : m = n
    · subst same
      rw [update_self]
      simp only
      omega
    · rw [update_of_ne same, others m same]
      exact before

theorem credit (order i : Nat) :
    Ledger lay (s.addFreePages n (2 ^ order)) held loose (⟨n, order, i⟩ :: due) := by
  refine L.recount ?_ fun m other => ?_
  · have own : pagesOf n ⟨n, order, i⟩ = 2 ^ order := if_pos rfl
    rw [total_cons, own]
    omega
  · rw [total_cons, pagesOf_ne other, Nat.zero_add]

omit L in
theorem charge (L : Ledger lay s held loose (⟨n, order, i⟩ :: due))
    (node : n < lay.activeNumaNodes) :
    Ledger lay (s.subFreePages n (2 ^ order)) held loose due := by
  have before := L.account n node
  have own : pagesOf n ⟨n, order, i⟩ = 2 ^ order := if_pos rfl
  rw [total_cons, own] at before
  refine L.recount ?_ fun m other => ?_
  · rw [total_cons, own]
    omega
  · rw [total_cons, pagesOf_ne other, Nat.zero_add]

/-- A caller gives a block back. -/
theorem take_back (h : b ∈ held) : Ledger lay s (held.erase b) (b :: loose) due := by
  refine { L with balance := ?_, heads := ?_ }
  · intro weight splits
    have before := L.balance weight splits
    have without := total_erase weight h
    rw [total_cons]
    omega
  · exact fun b' there => L.heads b' (mem_of_mem_erase there)

theorem perm_held {held' : List Block} (same : held.Perm held') : Ledger lay s held' loose due :=
  { L with
    balance := fun weight splits => by
      have sum : total weight held = total weight held' := (same.map weight).sum_eq
      rw [← L.balance weight splits, sum]
    heads := fun b h => L.heads b (same.mem_iff.mpr h) }

end

end Ledger

end BharatOS
