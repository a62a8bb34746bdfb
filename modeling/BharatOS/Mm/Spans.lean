import BharatOS.Mm.Grants

/-!
# Blocks and runs of pages keep the ledger

A block may be given out, or come back, as the run of its pages. The pages of a run are
freed one by one, and a call that comes back from that has freed them all.
-/

namespace BharatOS

open Pmm Option List

open Block

theorem pagesFrom_add (n i a b : Nat) :
    pagesFrom n i (a + b) = pagesFrom n i a ++ pagesFrom n (i + a) b := by
  unfold pagesFrom
  rw [← map_append, range'_append_1]

/-- A block weighs as much as its pages. -/
theorem total_pagesFrom {weight : Block → Nat} (splits : Splits weight) (n order i : Nat) :
    total weight (pagesFrom n i (2 ^ order)) = weight ⟨n, order, i⟩ := by
  induction order generalizing i with
  | zero => simp [pagesFrom, total]
  | succ order ih =>
    have double : 2 ^ (order + 1) = 2 ^ order + 2 ^ order := by rw [pow_succ]; omega
    rw [double, pagesFrom_add, total_append, ih, ih, splits]

theorem takeAll_some {blocks left : List Block} {taken : List Block}
    (h : takeAll taken blocks = some left) :
    (∀ weight, total weight taken + total weight left = total weight blocks) ∧
      (∀ b ∈ left, b ∈ blocks) ∧ ∀ b ∈ taken, b ∈ blocks := by
  induction taken generalizing blocks with
  | nil =>
    cases h
    exact ⟨fun _ => Nat.zero_add _, fun _ h => h, fun _ h => by cases h⟩
  | cons b rest ih =>
    unfold takeAll at h
    split at h
    · rename_i there
      obtain ⟨sums, subset, all⟩ := ih h
      refine ⟨fun weight => ?_, fun b' h' => mem_of_mem_erase (subset b' h'), ?_⟩
      · rw [total_cons, ← total_erase weight there, ← sums weight]
        omega
      · intro b' h'
        rcases mem_cons.mp h' with rfl | later
        · exact there
        · exact mem_of_mem_erase (all b' later)
    · cases h

namespace Ledger

variable {lay : Layout} {s t : Pmm} {held loose due : List Block} {core phys n i order : Nat}

theorem onPage_eq (L : Ledger lay s held loose due) (leads : lay.physToPage phys = some (n, i))
    (change : Page → Page) : s.onPage phys change = s.setPage (n, i) (change (s.pages (n, i))) := by
  unfold onPage
  rw [L.finds leads]

/-- The addresses and the pages of a run. -/
def RunOf (lay : Layout) : List Nat → List Block → Prop :=
  List.Forall₂ fun phys b => b.order = 0 ∧ lay.physToPage phys = some (b.node, b.index) ∧ lay.Fits b

variable {blocks : List Block} {count : Nat} {zone : PmmZone} {ok : Bool}

theorem freeEach_some {addrs : List Nat} (runs : RunOf lay addrs blocks)
    (L : Ledger lay s held (blocks ++ loose) []) (freed : freeEach core addrs s = some t) :
    Ledger lay t held loose [] := by
  induction runs generalizing s with
  | nil =>
    cases freed
    exact L
  | @cons phys b addrs blocks page _ ih =>
    obtain ⟨n, order, i⟩ := b
    obtain ⟨rfl, leads, fits⟩ := page
    obtain ⟨s', first, later⟩ := bind_eq_some_iff.mp freed
    rw [L.onPage_eq leads] at first
    have marked := L.setFirst fits { s.pages (n, i) with refCount := 1, order := 0 } rfl
    refine ih (marked.mmFreePage_some ⟨leads, fits, ?_, ?_⟩ first) later
    · rw [pages_setPage_self]
    · rw [pages_setPage_self]

theorem fits_page (fits : lay.Fits ⟨n, order, i⟩) {k : Nat} (small : k < 2 ^ order) :
    lay.Fits ⟨n, 0, i + k⟩ := by
  have inside : i + 2 ^ order ≤ lay.totalPages n := fits.inside
  have nonzero : lay.startAddr n + i * pageSize ≠ 0 := fits.nonzero
  have lowest : 0 < maxOrder := by decide
  refine ⟨fits.node, lowest, by simp, by simp only; omega, ?_⟩
  simp only [Layout.pageToPhys, Nat.add_mul]
  omega

theorem runOf_pages (apart : lay.Apart) (leads : lay.physToPage phys = some (n, i))
    (first count : Nat) (all : ∀ k, first ≤ k → k < first + count → lay.Fits ⟨n, 0, i + k⟩) :
    RunOf lay (runFrom phys first count) (pagesFrom n (i + first) count) := by
  induction count generalizing first with
  | zero => exact .nil
  | succ count ih =>
    have fits := all first (Nat.le_refl _) (by omega)
    refine .cons ⟨rfl, ?_, fits⟩ (ih (first + 1) fun k low high => all k (by omega) (by omega))
    exact Layout.physToPage_run apart leads (first_inside fits)

/-- The record of the first page of a block that a caller has. -/
theorem setHeld {b : Block} (L : Ledger lay s held loose due) (h : b ∈ held) (page : Page)
    (zone : page.zone = (s.pages (b.node, b.index)).zone)
    (order : page.order = (s.pages (b.node, b.index)).order)
    (state : page.state = (s.pages (b.node, b.index)).state) :
    Ledger lay (s.setPage (b.node, b.index) page) held loose due := by
  obtain ⟨fits, order', state'⟩ := L.heads b h
  have marked := (L.take_back h).setFirst fits page zone
  refine (marked.hand_out fits ⟨?_, ?_⟩).perm_held (perm_cons_erase h).symm
  · rw [pages_setPage_self, order, order']
  · rw [pages_setPage_self, state]
    exact state'

/-- What `pmm_alloc_pages_ex` and `pmm_alloc_contiguous_ex` give. -/
theorem pmmAllocPagesEx (L : Ledger lay s held loose []) (currentNode : Nat) (zone : PmmZone)
    (pinned : Bool) : ∃ t given, s.pmmAllocPagesEx core currentNode order zone pinned =
      some (t, given) ∧ ((given = none ∧ Ledger lay t held loose []) ∨ ∃ phys n i,
        given = some ⟨phys, order, 2 ^ order⟩ ∧ lay.physToPage phys = some (n, i) ∧
        lay.Fits ⟨n, order, i⟩ ∧ Ledger lay t held (⟨n, order, i⟩ :: loose) [] ∧
        (t.pages (n, i)).order = order ∧ (t.pages (n, i)).state = .allocated ∧
        ((t.pages (n, i)).pinCount = if pinned then 1 else 0) ∧
        (order ≠ 0 ∨ lay.maxCpus ≤ core ∨ Singles lay core (lay.AtMost zone) s →
          lay.InZone zone ⟨n, order, i⟩)) := by
  unfold Pmm.pmmAllocPagesEx
  split
  · exact ⟨_, _, rfl, .inl ⟨rfl, L⟩⟩
  have ready : Ready lay held loose core zone (Singles lay core (lay.AtMost zone) s) s := ⟨L, id⟩
  obtain ⟨out, called, answer⟩ :=
    ready.pmmAllocPagesColoredInZone currentNode order numaNodeAny none true
  rw [called, map_some]
  rcases answer with ⟨failed, ready'⟩ | ⟨nonzero, n, i, grant⟩
  · rw [if_pos failed]
    exact ⟨_, _, rfl, .inl ⟨rfl, ready'.ledger⟩⟩
  rw [if_neg nonzero]
  refine ⟨_, _, rfl, .inr ⟨out.2, n, i, rfl, grant.leads, grant.fits, ?_⟩⟩
  obtain ⟨order', -, state, pin⟩ := grant.record
  cases pinned with
  | false => exact ⟨grant.ledger, order', state, pin, grant.zone⟩
  | true =>
    simp only [if_true]
    rw [grant.ledger.onPage_eq grant.leads]
    refine ⟨grant.ledger.setFirst grant.fits _ rfl, ?_⟩
    rw [Pmm.pages_setPage_self]
    exact ⟨order', state, rfl, grant.zone⟩

/-! ## Any number of pages -/

theorem contiguousOrder_le (pageCount left order : Nat) :
    contiguousOrder pageCount left order = order + left ∨
      pageCount ≤ 2 ^ contiguousOrder pageCount left order := by
  induction left generalizing order with
  | zero => exact .inl rfl
  | succ left ih =>
    unfold contiguousOrder
    split
    · rcases ih (order + 1) with stopped | enough
      · exact .inl (by rw [stopped]; omega)
      · exact .inr enough
    · rename_i enough
      exact .inr (Nat.not_lt.mp enough)

/-- A run of pages that is not a block, out of a block that is large enough. -/
theorem shorten (L : Ledger lay s held (⟨n, order, i⟩ :: loose) [])
    (leads : lay.physToPage phys = some (n, i)) (fits : lay.Fits ⟨n, order, i⟩)
    (enough : count ≤ 2 ^ order) (freed : freeEach core
      (runFrom phys count (2 ^ order - count)) s = some t) :
    Ledger lay t held (pagesFrom n i count ++ loose) [] := by
  have whole : 2 ^ order = count + (2 ^ order - count) := by omega
  have cut : Ledger lay s held (pagesFrom n (i + count) (2 ^ order - count) ++
      (pagesFrom n i count ++ loose)) [] := by
    refine L.recut (fun weight splits => ?_) fun _ _ => rfl
    rw [total_cons, ← total_pagesFrom splits n order i, whole, pagesFrom_add]
    simp only [total_append, ← whole]
    omega
  refine freeEach_some (runOf_pages L.apart leads count _ fun k low high => ?_) cut freed
  exact fits_page fits (by omega)

/-- A block or a run of pages in the hands of the call. -/
inductive Carries (lay : Layout) (t : Pmm) (held loose : List Block) (block : PmmBlock)
    (n i : Nat) : Prop
  | whole (length : block.pageCount = 2 ^ block.order) (fits : lay.Fits ⟨n, block.order, i⟩)
      (ledger : Ledger lay t held (⟨n, block.order, i⟩ :: loose) [])
      (order : (t.pages (n, i)).order = block.order) (state : (t.pages (n, i)).state = .allocated)
  | pages (length : block.pageCount ≠ 2 ^ block.order)
      (fits : ∀ k < block.pageCount, lay.Fits ⟨n, 0, i + k⟩)
      (ledger : Ledger lay t held (pagesFrom n i block.pageCount ++ loose) [])

theorem Grant.carries {near : Prop} (grant : Grant lay t held loose [] core order zone near phys n i)
    (pinned : Bool) :
    Carries lay (if pinned then t.onPage phys ({ · with pinCount := 1 }) else t)
      held loose ⟨phys, order, 2 ^ order⟩ n i := by
  cases pinned with
  | false => exact .whole rfl grant.fits grant.ledger grant.record.order grant.record.state
  | true =>
    simp only [if_true]
    rw [grant.ledger.onPage_eq grant.leads]
    refine .whole rfl grant.fits (grant.ledger.setFirst grant.fits _ rfl) ?_ ?_
    · rw [pages_setPage_self]
      exact grant.record.order
    · rw [pages_setPage_self]
      exact grant.record.state

theorem pmmAllocContiguousEx_some {currentNode : Nat} {pinned : Bool} {given : Option PmmBlock}
    (L : Ledger lay s held loose [])
    (called : s.pmmAllocContiguousEx core currentNode count zone pinned = some (t, given)) :
    (given = none ∧ Ledger lay t held loose []) ∨ ∃ block n i, given = some block ∧
      lay.physToPage block.physAddr = some (n, i) ∧ Carries lay t held loose block n i := by
  unfold pmmAllocContiguousEx at called
  split at called
  · cases called
    exact .inl ⟨rfl, L⟩
  rename_i some'
  simp only at called
  generalize found : contiguousOrder count 32 0 = order at called
  obtain ⟨t₁, given₁, called₁, answer⟩ :=
    @L.pmmAllocPagesEx lay s held loose core order currentNode zone pinned
  rw [called₁] at called
  split at called
  · cases called
    rcases answer with failed | ⟨phys, n, i, rfl, leads, fits, L₁, order', state, -⟩
    · exact .inl failed
    · exact .inr ⟨_, n, i, rfl, leads, .whole rfl fits L₁ order' state⟩
  rename_i notPower
  split at called
  · cases called
    exact .inl ⟨rfl, L⟩
  rename_i small
  rcases answer with ⟨rfl, L₁⟩ | ⟨phys, n, i, rfl, leads, fits, L₁, -⟩
  · cases called
    exact .inl ⟨rfl, L₁⟩
  obtain ⟨t₂, freed, done⟩ := map_eq_some_iff.mp called
  cases done
  have enough : count ≤ 2 ^ order := by
    rcases contiguousOrder_le count 32 0 with stopped | enough
    · have bound : maxOrder = 12 := rfl
      omega
    · rwa [found] at enough
  have single : count ≠ 1 := by
    rintro rfl
    exact notPower (by rw [← found]; rfl)
  have L₂ := L₁.shorten leads fits enough freed
  have first : ⟨n, 0, i⟩ ∈ pagesFrom n i count :=
    mem_map.mpr ⟨i, mem_range'_1.mpr ⟨Nat.le_refl _, by omega⟩, rfl⟩
  have mine : 1 ≤ total (hold n i) (pagesFrom n i count ++ loose) := by
    have least := le_total (hold n i) first
    rw [hold_self ⟨n, 0, i⟩] at least
    rw [total_append]
    omega
  refine .inr ⟨_, n, i, rfl, leads, .pages ?_ ?_ ?_⟩
  · exact single
  · exact fun k small => fits_page fits (Nat.lt_of_lt_of_le small enough)
  · rw [L₂.onPage_eq leads]
    exact L₂.setPage fits.node (first_inside fits) mine rfl

/-! ## Blocks that come back -/

theorem pmmFreePages_block (L : Ledger lay s held (⟨n, order, i⟩ :: loose) [])
    (leads : lay.physToPage phys = some (n, i)) (fits : lay.Fits ⟨n, order, i⟩)
    (freed : s.pmmFreePages core ⟨phys, order, 2 ^ order⟩ = some (t, ok)) :
    (ok = false ∧ t = s) ∨ (ok = true ∧ Ledger lay t held loose []) := by
  unfold pmmFreePages at freed
  rw [if_neg (fun h => h.2 rfl)] at freed
  split at freed
  · cases freed
    exact .inl ⟨rfl, rfl⟩
  obtain ⟨t', now, done⟩ := map_eq_some_iff.mp freed
  cases done
  rw [L.onPage_eq leads] at now
  have marked := L.setFirst fits { s.pages (n, i) with order := order, refCount := 1 } rfl
  refine .inr ⟨rfl, marked.mmFreePage_some ⟨leads, fits, ?_, ?_⟩ now⟩
  · rw [pages_setPage_self]
  · rw [pages_setPage_self]

theorem pmmFreePages_run {block : PmmBlock} (L : Ledger lay s held (blocks ++ loose) [])
    (runs : RunOf lay (runFrom block.physAddr 0 block.pageCount) blocks)
    (positive : 0 < block.pageCount) (length : block.pageCount ≠ 2 ^ block.order)
    (freed : s.pmmFreePages core block = some (t, ok)) :
    (ok = false ∧ t = s) ∨ (ok = true ∧ Ledger lay t held loose []) := by
  unfold pmmFreePages at freed
  rw [if_pos ⟨positive, length⟩] at freed
  simp only at freed
  split at freed
  · cases freed
    exact .inl ⟨rfl, rfl⟩
  obtain ⟨t', now, done⟩ := map_eq_some_iff.mp freed
  cases done
  exact .inr ⟨rfl, freeEach_some runs L now⟩

end Ledger

end BharatOS
