import BharatOS.Mm.Frees

/-!
# Allocating keeps the ledger

An allocation that succeeds has one block in its hands at the end. Only blocks from the lists are
checked against the zone.
-/

namespace BharatOS

open Pmm Option List

open Block

/-- The record of the first page of a block that was just allocated. -/
structure Page.IsTaken (page : Page) (order : Nat) : Prop where
  order : page.order = order
  refCount : page.refCount = 1
  state : page.state = .allocated
  pinCount : page.pinCount = 0

def Layout.AtMost (lay : Layout) (zone : PmmZone) (page : Nat × Nat) : Prop :=
  (lay.zone page).rank ≤ zone.rank

/-- What `page_block_matches_zone` says about a block. -/
def Layout.InZone (lay : Layout) (zone : PmmZone) (b : Block) : Prop :=
  zone = .any ∨ ∀ k < 2 ^ b.order, lay.AtMost zone (b.node, b.index + k)

namespace Ledger

variable {lay : Layout} {s : Pmm} {held loose due : List Block} {n order i core phys : Nat}
  {zone : PmmZone} {near : Prop}

/-- A block in the call's hands that the caller has asked for. It is in the zone if it came from
the lists, or if `near` says so of the single pages that the core gets at. -/
structure Grant (lay : Layout) (t : Pmm) (held loose due : List Block) (core order : Nat)
    (zone : PmmZone) (near : Prop) (phys n i : Nat) : Prop where
  ledger : Ledger lay t held (⟨n, order, i⟩ :: loose) due
  leads : lay.physToPage phys = some (n, i)
  fits : lay.Fits ⟨n, order, i⟩
  record : (t.pages (n, i)).IsTaken order
  zone : order ≠ 0 ∨ lay.maxCpus ≤ core ∨ near → lay.InZone zone ⟨n, order, i⟩

/-! ## From a cache -/

variable {out : Pmm × Nat} {c k current : Nat}

theorem refillColor (left : Nat) (valid : core < lay.maxCpus) (L : Ledger lay s held loose []) :
    Ledger lay (refillColor core n c left s).2 held loose [] ∧
      ∀ Q, Singles lay core Q s → Singles lay core Q (refillColor core n c left s).2 := by
  induction left generalizing s with
  | zero => exact ⟨L, fun _ h => h⟩
  | succ left ih =>
    unfold refillColor
    split
    · exact ⟨L, fun _ h => h⟩
    rename_i i rest first
    split
    · have there : i ∈ s.freeList (n, 0, c) := first ▸ mem_cons_self
      obtain ⟨fits, -, record⟩ := L.free n 0 c i there
      have taken := L.take_free there
      have leads := Layout.physToPage_pageToPhys L.apart fits.node (first_inside fits)
      have cached := taken.put_cached valid leads fits record
      have same : s.delFree n 0 c i = s.setFreeList (n, 0, c) rest := by
        unfold delFree
        rw [first, erase_cons_head]
      have address : lay.pageToPhys (n, i) = s.pageToPhys (n, i) := by
        rw [← L.layout]
        rfl
      rw [same, address] at cached
      refine ⟨(ih cached).1, fun Q h => (ih cached).2 Q ?_⟩
      have popped := h.setFreeList fun _ kept => .inl (first ▸ mem_cons_of_mem i kept)
      refine popped.setCache fun phys' new => ?_
      rcases mem_cons.mp new with rfl | old
      · exact .inr fun _ page leads' => by
          rw [← address] at leads'
          cases leads.symm.trans leads'
          exact h.lists _ i there rfl
      · exact .inl old
    · exact ⟨L, fun _ h => h⟩

theorem fits_lower (fits : lay.Fits ⟨n, k + 1, i⟩) : lay.Fits ⟨n, k, i⟩ := by
  have top : k + 1 < maxOrder := fits.order
  have aligned : 2 ^ (k + 1) ∣ i := fits.aligned
  have inside : i + 2 ^ (k + 1) ≤ lay.totalPages n := fits.inside
  exact ⟨fits.node, by simp only; omega, Dvd.dvd.trans (Nat.dvd_mul_right _ _) aligned,
    by simp only; omega, fits.nonzero⟩

theorem fits_upper (fits : lay.Fits ⟨n, k + 1, i⟩) : lay.Fits ⟨n, k, i + 2 ^ k⟩ := by
  have inside : i + 2 ^ (k + 1) ≤ lay.totalPages n := fits.inside
  have positive : 0 < (i + 2 ^ k) * pageSize :=
    Nat.mul_pos (Nat.add_pos_right i (Nat.two_pow_pos k)) (by decide)
  refine ⟨fits.node, (fits_lower fits).order, ?_, by simp only; omega, ?_⟩
  · exact Nat.dvd_add (fits_lower fits).aligned (Nat.dvd_refl _)
  · simp only [Layout.pageToPhys]
    omega

theorem splitBlock (k : Nat) (L : Ledger lay s held (⟨n, order + k, i⟩ :: loose)
      (⟨n, order + k, i⟩ :: due)) (fits : lay.Fits ⟨n, order + k, i⟩) :
    Ledger lay (splitBlock n i order k s) held (⟨n, order, i⟩ :: loose)
        (⟨n, order, i⟩ :: due) ∧ lay.Fits ⟨n, order, i⟩ ∧
      (splitBlock n i order k s).pages (n, i) = s.pages (n, i) := by
  induction k generalizing s with
  | zero => exact ⟨L, fits, rfl⟩
  | succ k ih =>
    have upper := fits_upper fits
    have halves : ∀ weight blocks, Splits weight →
        total weight (⟨n, order + k, i + 2 ^ (order + k)⟩ :: ⟨n, order + k, i⟩ :: blocks) =
          total weight (⟨n, order + (k + 1), i⟩ :: blocks) := by
      intro weight blocks splits
      simp only [total_cons, ← Nat.add_assoc order k 1, splits n (order + k) i]
      omega
    have cut := L.recut (fun weight => halves weight loose) (fun weight => halves weight due)
    have marked := cut.setFirst upper ((s.pages (n, i + 2 ^ (order + k))).freed (order + k)) rfl
    have put := marked.put_free upper (by
      rw [pages_setPage_self]
      exact Page.isFree_freed)
    obtain ⟨L', fits', page⟩ := ih put (fits_lower fits)
    refine ⟨L', fits', page.trans ?_⟩
    refine Function.update_of_ne ?_ _ _
    have positive := Nat.two_pow_pos (order + k)
    intro same
    have := congrArg Prod.snd same
    omega

theorem findBlock_some {target : Option Nat}
    (h : s.findBlock n order target zone = some (current, c, i)) :
    order ≤ current ∧ i ∈ s.freeList (n, current, c) ∧
      s.pageBlockMatchesZone n i current zone = true := by
  obtain ⟨o, listed, h⟩ := exists_of_findSome?_eq_some h
  obtain ⟨c', -, h⟩ := exists_of_findSome?_eq_some h
  obtain ⟨j, found, h⟩ := map_eq_some_iff.mp h
  cases h
  have matched := find?_some found
  exact ⟨(mem_range'_1.mp listed).1, mem_of_find?_eq_some found, matched⟩

/-- A block in the zone, cut down to its first part. -/
theorem inZone_of_matches (L : Ledger lay s held loose due) (smaller : order ≤ current)
    (h : s.pageBlockMatchesZone n i current zone = true) : lay.InZone zone ⟨n, order, i⟩ := by
  rcases Bool.or_eq_true_iff.mp h with any | all
  · exact .inl (eq_of_beq any)
  refine .inr fun k small => ?_
  have bound : k < 2 ^ current :=
    Nat.lt_of_lt_of_le small (Nat.pow_le_pow_right (by decide) smaller)
  rw [← L.layout]
  have low := of_decide_eq_true (all_eq_true.mp all k (mem_range.mpr bound))
  exact low

theorem setActive (L : Ledger lay s held loose due) (core : Nat) :
    Ledger lay (s.setActive core) held loose due := { L with }

/-- What a request finds, and leaves when it fails. -/
structure Ready (lay : Layout) (held loose : List Block) (core : Nat) (zone : PmmZone) (near : Prop)
    (s : Pmm) : Prop where
  ledger : Ledger lay s held loose []
  near : near → Singles lay core (lay.AtMost zone) s

/-- A request that has been charged, or has failed. -/
def Answered (lay : Layout) (held loose : List Block) (core order : Nat) (zone : PmmZone)
    (near : Prop) (out : Pmm × Nat) : Prop :=
  (out.2 = 0 ∧ Ready lay held loose core zone near out.1) ∨
    out.2 ≠ 0 ∧ ∃ n i, Grant lay out.1 held loose [] core order zone near out.2 n i

theorem tryNodes {alloc : Pmm → Nat → Option (Pmm × Nat)} {core order : Nat} {zone : PmmZone}
    (spec : ∀ s n, Ready lay held loose core zone near s → ∃ out, alloc s n = some out ∧
      ((out.2 = 0 ∧ Ready lay held loose core zone near out.1) ∨
        ∃ i, Grant lay out.1 held loose [⟨n, order, i⟩] core order zone near out.2 n i))
    (nodes : List Nat) (ready : Ready lay held loose core zone near s) :
    ∃ out, tryNodes order alloc nodes s = some out ∧
      Answered lay held loose core order zone near out := by
  induction nodes generalizing s with
  | nil => exact ⟨_, rfl, .inl ⟨rfl, ready⟩⟩
  | cons n rest ih =>
    obtain ⟨out, called, answer⟩ := spec s n ready
    unfold tryNodes
    rw [called, bind_some]
    rcases answer with ⟨failed, L'⟩ | ⟨i, grant⟩
    · rw [if_pos failed]
      exact ih L'
    have nonzero := fits_nonzero grant.leads grant.fits
    rw [if_neg nonzero]
    exact ⟨_, rfl, .inr ⟨nonzero, n, i, grant.ledger.charge grant.fits.node, grant.leads,
      grant.fits, grant.record, grant.zone⟩⟩

section

variable (ready : Ready lay held loose core zone near s)

include ready

theorem Ready.takeCached (h : s.takeCached core n = some out) :
    ∃ i, Grant lay out.1 held loose [⟨n, 0, i⟩] core 0 zone near out.2 n i := by
  obtain ⟨L, singles⟩ := ready
  unfold Pmm.takeCached at h
  split at h
  · cases h
  rename_i phys rest top
  have there : phys ∈ s.nodeCaches (core, n) := top ▸ mem_cons_self
  obtain ⟨valid, i, leads, fits, record⟩ := L.caches core n phys there
  have popped := L.take_cached top leads
  simp only [popped.finds leads] at h
  cases h
  refine ⟨i, popped.setFirst fits ((s.pages (n, i)).taken 0 core) rfl, leads, fits, ?_, ?_⟩
  · rw [Pmm.pages_setPage_self]
    exact ⟨rfl, rfl, rfl, record.pinCount⟩
  · rintro (single | noCache | near)
    · exact absurd rfl single
    · exact absurd valid (Nat.not_lt.mpr noCache)
    · refine .inr fun k small => ?_
      obtain rfl := Nat.lt_one_iff.mp small
      exact (singles near).caches _ phys there rfl _ leads

theorem Ready.refill (valid : core < lay.maxCpus) :
    Ready lay held loose core zone near (s.refill core n) := by
  -- the colours one after the other, with what is left of the batch
  suffices all : ∀ colors left s, Ready lay held loose core zone near s →
      Ready lay held loose core zone near (foldl (fun out c => Pmm.refillColor core n c out.1 out.2)
        (left, s) colors).2 from all _ _ s ready
  intro colors
  induction colors with
  | nil => exact fun _ _ ready => ready
  | cons c rest ih =>
    intro left s ready
    obtain ⟨L, singles⟩ := ready.ledger.refillColor left valid
    exact ih _ _ ⟨L, fun near => singles _ (ready.near near)⟩

/-! ## From the lists -/

theorem Ready.allocFromZone (config : Option MmColorConfig) (n order : Nat)
    (h : s.allocFromZone core n order config zone = out) :
    (out.2 = 0 ∧ Ready lay held loose core zone near out.1) ∨
      ∃ i, Grant lay out.1 held loose [⟨n, order, i⟩] core order zone near out.2 n i := by
  have L := ready.ledger
  unfold Pmm.allocFromZone at h
  simp only at h
  split at h
  · subst h
    exact .inl ⟨rfl, ready⟩
  split at h
  · subst h
    exact .inl ⟨rfl, ready⟩
  rename_i current c i found
  subst h
  obtain ⟨smaller, there, matched⟩ := findBlock_some found
  obtain ⟨fits, -, record⟩ := L.free n current c i there
  obtain ⟨k, rfl⟩ := Nat.le.dest smaller
  rw [Nat.add_sub_cancel_left]
  obtain ⟨L', fits', page⟩ := splitBlock k (L.take_free there) fits
  have leads : lay.physToPage (lay.pageToPhys (n, i)) = some (n, i) :=
    Layout.physToPage_pageToPhys L.apart fits.node (first_inside fits)
  have address : lay.pageToPhys (n, i) =
      (Pmm.splitBlock n i order k (s.delFree n (order + k) c i)).pageToPhys (n, i) := by
    rw [← L'.layout]
    rfl
  rw [address] at leads
  refine .inr ⟨i, L'.setFirst fits' _ rfl, leads, fits', ?_, ?_⟩
  · rw [Pmm.pages_setPage_self, page]
    exact ⟨rfl, rfl, rfl, record.pinCount⟩
  · exact fun _ => L.inZone_of_matches smaller matched

/-! ## The whole allocation -/

theorem Ready.pmmAllocPagesOrderColored (config : Option MmColorConfig) (order n : Nat) :
    ∃ out, s.pmmAllocPagesOrderColored core order n config zone = some out ∧
      ((out.2 = 0 ∧ Ready lay held loose core zone near out.1) ∨
        ∃ i, Grant lay out.1 held loose [⟨n, order, i⟩] core order zone near out.2 n i) := by
  have ready₁ : Ready lay held loose core zone near
      (if core < s.maxCpus then s.setActive core else s) := by
    split
    · exact ⟨ready.ledger.setActive core, fun near => (ready.near near).of_places rfl rfl rfl⟩
    · exact ready
  unfold Pmm.pmmAllocPagesOrderColored
  generalize (if core < s.maxCpus then s.setActive core else s) = s₁ at ready₁
  simp only
  generalize hc : decide (order = 0 ∧ core < s₁.maxCpus ∧ n < maxNumaNodes) = cached
  -- what any of the three looks into the cache gives
  have taken : ∀ {s' : Pmm} {out : Pmm × Nat}, Ready lay held loose core zone near s' →
      (if cached then s'.takeCached core n else none) = some out →
      ∃ i, Grant lay out.1 held loose [⟨n, order, i⟩] core order zone near out.2 n i := by
    intro s' out ready' h
    split at h
    · rename_i on
      obtain ⟨rfl, -⟩ := of_decide_eq_true (hc.trans on)
      exact ready'.takeCached h
    · cases h
  have valid : cached = true → core < lay.maxCpus := by
    intro on
    rw [← ready₁.ledger.layout]
    exact (of_decide_eq_true (hc.trans on)).2.1
  split
  · rename_i out h
    exact ⟨out, rfl, .inr (taken ready₁ h)⟩
  obtain ⟨s₂, drained, L₂, singles⟩ := @Ledger.pmmDrainRemoteFrees _ _ _ _ core core ready₁.ledger
  have ready₂ : Ready lay held loose core zone near s₂ :=
    ⟨L₂, fun near => singles rfl _ (ready₁.near near)⟩
  rw [drained, bind_some]
  split
  · rename_i out h
    exact ⟨out, rfl, .inr (taken ready₂ h)⟩
  have ready₃ : Ready lay held loose core zone near (if cached then s₂.refill core n else s₂) := by
    split
    · rename_i on
      exact ready₂.refill (valid on)
    · exact ready₂
  split
  · rename_i out h
    exact ⟨out, rfl, .inr (taken ready₃ h)⟩
  · exact ⟨_, rfl, ready₃.allocFromZone config n order rfl⟩

theorem Ready.pmmAllocPagesColoredInZone (currentNode order preferred : Nat)
    (config : Option MmColorConfig) (fallback : Bool) :
    ∃ out, s.pmmAllocPagesColoredInZone core currentNode order preferred config zone fallback =
      some out ∧ Answered lay held loose core order zone near out := by
  unfold Pmm.pmmAllocPagesColoredInZone
  simp only
  generalize List.map _ _ = nodes
  obtain ⟨out₁, first, answer₁⟩ := @tryNodes lay s held loose near
    (fun s n => if (s.numaNodes n).freePages < 2 ^ order then some (s, 0)
      else s.pmmAllocPagesOrderColored core order n config zone) core order zone
    (fun s n ready => by
      split
      · exact ⟨_, rfl, .inl ⟨rfl, ready⟩⟩
      · exact ready.pmmAllocPagesOrderColored config order n) nodes ready
  rw [first, bind_some]
  rcases answer₁ with ⟨failed, ready₁⟩ | granted
  · rw [if_neg (not_not.mpr failed)]
    have second : ∃ out, (if config.any (·.policy = .preferred) then
        Pmm.tryNodes order (fun s n =>
          s.pmmAllocPagesOrderColored core order n (some Pmm.noColorConfig) zone) nodes out₁.1
        else some (out₁.1, 0)) = some out ∧ Answered lay held loose core order zone near out := by
      split
      · exact tryNodes (fun s n ready => ready.pmmAllocPagesOrderColored _ order n) nodes ready₁
      · exact ⟨_, rfl, .inl ⟨rfl, ready₁⟩⟩
    obtain ⟨out₂, second, answer₂⟩ := second
    rw [second, bind_some]
    rcases answer₂ with ⟨failed, ready₂⟩ | granted
    · rw [if_neg (not_not.mpr failed)]
      exact tryNodes (fun s n ready => ready.pmmAllocPagesOrderColored config order n) nodes ready₂
    · rw [if_pos granted.1]
      exact ⟨out₂, rfl, .inr granted⟩
  · rw [if_pos granted.1]
    exact ⟨out₁, rfl, .inr granted⟩

end

end Ledger

end BharatOS
