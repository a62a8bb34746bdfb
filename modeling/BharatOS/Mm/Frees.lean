import BharatOS.Mm.Ledger

/-!
# Freeing keeps the ledger

A block that a call has in its hands goes back to the lists, to a cache or to an inbox, and the
count of its node goes with it.
-/

namespace BharatOS

open Pmm Function Option

open Block

/-- What is true of the single pages that a core gets at: those in its caches, in its inbox
and in the lists of order 0. -/
structure Pmm.Singles (lay : Layout) (core : Nat) (Q : Nat × Nat → Prop) (s : Pmm) : Prop where
  caches : ∀ key, ∀ phys ∈ s.nodeCaches key, key.1 = core → ∀ page ∈ lay.physToPage phys, Q page
  inbox : ∀ key, ∀ phys ∈ s.inbox key, key = core → ∀ page ∈ lay.physToPage phys, Q page
  lists : ∀ key, ∀ i ∈ s.freeList key, key.2.1 = 0 → Q (key.1, i)

namespace Pmm.Singles

theorem forall_mem_update {κ α : Type} [DecidableEq κ] {f : κ → List α} {P : κ → α → Prop} {key : κ}
    {list : List α} (old : ∀ k, ∀ x ∈ f k, P k x) (new : ∀ x ∈ list, x ∈ f key ∨ P key x) (k : κ) :
    ∀ x ∈ update f key list k, P k x := by
  intro x there
  by_cases same : k = key
  · subst same
    rw [update_self] at there
    exact (new x there).elim (old k x) id
  · rw [update_of_ne same] at there
    exact old k x there

variable {lay : Layout} {core : Nat} {Q : Nat × Nat → Prop} {s : Pmm} (h : Singles lay core Q s)

include h

theorem setCache {key : Nat × Nat} {cache : List Nat}
    (new : ∀ phys ∈ cache, phys ∈ s.nodeCaches key ∨
      (key.1 = core → ∀ page ∈ lay.physToPage phys, Q page)) :
    Singles lay core Q (s.setCache key cache) :=
  ⟨forall_mem_update h.caches new, h.inbox, h.lists⟩

theorem setInbox {key : Nat} {inbox : List Nat}
    (new : ∀ phys ∈ inbox, phys ∈ s.inbox key ∨ (key = core → ∀ page ∈ lay.physToPage phys, Q page)) :
    Singles lay core Q (s.setInbox key inbox) :=
  ⟨h.caches, forall_mem_update h.inbox new, h.lists⟩

theorem setFreeList {key : Nat × Nat × Nat} {list : List Nat}
    (new : ∀ i ∈ list, i ∈ s.freeList key ∨ (key.2.1 = 0 → Q (key.1, i))) :
    Singles lay core Q (s.setFreeList key list) :=
  ⟨h.caches, h.inbox, forall_mem_update h.lists new⟩

/-- Nothing but the places matters. -/
theorem of_places {t : Pmm} (caches : t.nodeCaches = s.nodeCaches) (inbox : t.inbox = s.inbox)
    (lists : t.freeList = s.freeList) : Singles lay core Q t :=
  ⟨caches ▸ h.caches, inbox ▸ h.inbox, lists ▸ h.lists⟩

end Pmm.Singles

namespace Ledger

variable {lay : Layout} {s : Pmm} {held loose due : List Block} {n order i core phys : Nat}

theorem first_inside (fits : lay.Fits ⟨n, order, i⟩) : i < lay.totalPages n :=
  Nat.lt_of_lt_of_le (Nat.lt_add_of_pos_right (Nat.two_pow_pos order)) fits.inside

/-- The record of the first page of the block in the call's hands. -/
theorem setFirst (L : Ledger lay s held (⟨n, order, i⟩ :: loose) due)
    (fits : lay.Fits ⟨n, order, i⟩) (page : Page) (zone : page.zone = (s.pages (n, i)).zone) :
    Ledger lay (s.setPage (n, i) page) held (⟨n, order, i⟩ :: loose) due := by
  refine L.setPage fits.node (first_inside fits) ?_ zone
  rw [total_cons, hold_self ⟨n, order, i⟩]
  omega

/-! ## To the lists of the node -/

variable {lower current : Nat} {t : Pmm}

/-- Two buddies make up a block. -/
theorem fits_joined (fits : lay.Fits ⟨n, order, i⟩)
    (buddyFits : lay.Fits ⟨n, order, i ^^^ 2 ^ order⟩) (room : order + 1 < maxOrder)
    (first : (if i ^^^ 2 ^ order < i then i ^^^ 2 ^ order else i) = lower) :
    lay.Fits ⟨n, order + 1, lower⟩ := by
  have aligned : 2 ^ order ∣ i := fits.aligned
  have inside : i + 2 ^ order ≤ lay.totalPages n := fits.inside
  have buddyInside : (i ^^^ 2 ^ order) + 2 ^ order ≤ lay.totalPages n := buddyFits.inside
  obtain ⟨whole, ⟨rfl, upper⟩ | ⟨rfl, upper⟩⟩ := buddy_lower aligned first
  · exact ⟨fits.node, room, whole, by simp only; omega, fits.nonzero⟩
  · exact ⟨fits.node, room, whole, by simp only; omega, buddyFits.nonzero⟩

theorem weight_joined {weight : Block → Nat} (splits : Splits weight) (aligned : 2 ^ order ∣ i)
    (first : (if i ^^^ 2 ^ order < i then i ^^^ 2 ^ order else i) = lower) :
    weight ⟨n, order + 1, lower⟩ = weight ⟨n, order, i⟩ + weight ⟨n, order, i ^^^ 2 ^ order⟩ := by
  obtain ⟨-, ⟨rfl, upper⟩ | ⟨rfl, upper⟩⟩ := buddy_lower aligned first
  · rw [splits, ← upper]
  · rw [splits, ← upper, Nat.add_comm]

/-- The loop takes free blocks out of the lists, and what comes out of it is the block that
went in together with them: a single page only if it went in. -/
structure Coalesced (lay : Layout) (held loose due : List Block) (n : Nat) (s : Pmm) (i order : Nat)
    (out : Pmm × Nat × Nat) (due' : List Block) : Prop where
  ledger : Ledger lay out.1 held (⟨n, out.2.2, out.2.1⟩ :: loose) due'
  fits : lay.Fits ⟨n, out.2.2, out.2.1⟩
  sums : ∀ weight, Splits weight → weight ⟨n, out.2.2, out.2.1⟩ + total weight due =
    weight ⟨n, order, i⟩ + total weight due'
  single : out.2.2 = 0 → order = 0 ∧ out.2.1 = i
  singles : ∀ core Q, Singles lay core Q s → Singles lay core Q out.1

theorem coalesce_spec (left : Nat) (L : Ledger lay s held (⟨n, order, i⟩ :: loose) due)
    (fits : lay.Fits ⟨n, order, i⟩) (room : order + left < maxOrder) :
    ∃ due', Coalesced lay held loose due n s i order (coalesce n left s i order) due' := by
  induction left generalizing s i order due with
  | zero => exact ⟨due, L, fits, fun _ _ => rfl, fun e => ⟨e, rfl⟩, fun _ _ h => h⟩
  | succ left ih =>
    have stops : ∃ due', Coalesced lay held loose due n s i order (s, i, order) due' :=
      ⟨due, L, fits, fun _ _ => rfl, fun e => ⟨e, rfl⟩, fun _ _ h => h⟩
    simp only [coalesce]
    split
    · exact stops
    split
    · exact stops
    split
    · exact stops
    rename_i there
    replace there := not_not.mp there
    generalize first : (if i ^^^ 2 ^ order < i then i ^^^ 2 ^ order else i) = lower
    obtain ⟨buddyFits, -⟩ := L.free _ _ _ _ there
    have aligned : 2 ^ order ∣ i := fits.aligned
    have joined : ∀ weight, Splits weight → total weight (⟨n, order + 1, lower⟩ :: loose) =
        total weight (⟨n, order, i ^^^ 2 ^ order⟩ :: ⟨n, order, i⟩ :: loose) := by
      intro weight splits
      simp only [total_cons, weight_joined splits aligned first]
      omega
    have wider := fits_joined fits buddyFits (by omega) first
    obtain ⟨due', done⟩ := ih ((L.take_free there).recut joined fun _ _ => rfl) wider (by omega)
    refine ⟨due', done.ledger, done.fits, fun weight splits => ?_,
      fun e => absurd (done.single e).1 (Nat.succ_ne_zero order), fun core Q h =>
      done.singles core Q (h.setFreeList fun _ kept => .inl (List.mem_of_mem_erase kept))⟩
    have sum := done.sums weight splits
    rw [total_cons, weight_joined splits aligned first] at sum
    omega

theorem addFree_addFreePages {m count : Nat} :
    (s.addFree n order i).addFreePages m count = (s.addFreePages m count).addFree n order i := by
  have color : (s.addFreePages m count).color n i = s.color n i :=
    congrArg (fun lay : Layout => getPageColor (lay.pageToPhys (n, i))) (s.layout_setNode m _)
  unfold addFree
  rw [color]
  rfl

theorem freeToZone (L : Ledger lay s held (⟨n, order, i⟩ :: loose) [])
    (fits : lay.Fits ⟨n, order, i⟩) (page : (s.pages (n, i)).order = order) :
    Ledger lay (s.freeToZone n i) held loose [] ∧ ∀ core Q, (order = 0 → Q (n, i)) →
      Singles lay core Q s → Singles lay core Q (s.freeToZone n i) := by
  have top := fits.order
  obtain ⟨due', joined⟩ := L.coalesce_spec (maxOrder - 1 - order) fits (by simp only at top; omega)
  unfold Pmm.freeToZone
  simp only [page, addFree_addFreePages]
  generalize coalesce n (maxOrder - 1 - order) s i order = out at joined
  obtain ⟨s', i', order'⟩ := out
  have credited : Ledger lay (s'.addFreePages n (2 ^ order)) held (⟨n, order', i'⟩ :: loose)
      [⟨n, order', i'⟩] := by
    refine (joined.ledger.credit order i).recut (fun _ _ => rfl) fun weight splits => ?_
    have sum := joined.sums weight splits
    simp only [total_cons, total_nil] at sum ⊢
    omega
  have marked := credited.setFirst joined.fits ((s'.pages (n, i')).freed order') rfl
  refine ⟨marked.put_free joined.fits (by
    rw [Pmm.pages_setPage_self]
    exact Page.isFree_freed), fun core Q holds h => ?_⟩
  have placed : Singles lay core Q ((s'.setPage (n, i') ((s'.pages (n, i')).freed order')).addFreePages
      n (2 ^ order)) := (joined.singles core Q h).of_places rfl rfl rfl
  refine placed.setFreeList fun j there => ?_
  rcases List.mem_cons.mp there with rfl | old
  · refine .inr fun single => ?_
    obtain ⟨zero, same⟩ := joined.single single
    obtain rfl : j = i := same
    exact holds zero
  · exact .inl old

/-! ## The last reference -/

/-- What `mm_free_page` is called on. -/
structure Freeable (lay : Layout) (s : Pmm) (phys : Nat) (b : Block) : Prop where
  leads : lay.physToPage phys = some (b.node, b.index)
  fits : lay.Fits b
  order : (s.pages (b.node, b.index)).order = b.order
  last : (s.pages (b.node, b.index)).refCount ≤ 1

theorem withLastReference_eq (L : Ledger lay s held loose due) {b : Block}
    (f : Freeable lay s phys b) (state : (s.pages (b.node, b.index)).state ≠ .free)
    (free : Pmm → Nat → Nat → Option Pmm) :
    s.withLastReference phys free = free (s.setPage (b.node, b.index)
      { s.pages (b.node, b.index) with refCount := 0 }) b.node b.index := by
  unfold withLastReference
  rw [L.finds f.leads]
  simp only
  rw [if_neg state, if_neg (Nat.not_lt.mpr f.last)]

theorem freeBypassing (L : Ledger lay s held (⟨n, order, i⟩ :: loose) [])
    (f : Freeable lay s phys ⟨n, order, i⟩) (state : (s.pages (n, i)).state ≠ .free) :
    ∃ t, s.freeBypassing phys = some t ∧ Ledger lay t held loose [] ∧
      ∀ core Q, (order = 0 → Q (n, i)) → Singles lay core Q s → Singles lay core Q t := by
  have marked := L.setFirst f.fits { s.pages (n, i) with refCount := 0 } rfl
  obtain ⟨L', singles⟩ := marked.freeToZone f.fits (by rw [pages_setPage_self]; exact f.order)
  exact ⟨_, L.withLastReference_eq f state _, L', fun core Q holds h =>
    singles core Q holds (h.of_places rfl rfl rfl)⟩

/-! ## Caches and inboxes -/

theorem fits_nonzero (leads : lay.physToPage phys = some (n, i)) (fits : lay.Fits ⟨n, order, i⟩) :
    phys ≠ 0 := by
  have least := (Layout.physToPage_eq_some leads).2.2.1
  have positive := fits.nonzero
  simp only at positive
  omega

theorem cachePage (L : Ledger lay s held (⟨n, 0, i⟩ :: loose) []) (valid : core < lay.maxCpus)
    (leads : lay.physToPage phys = some (n, i)) (fits : lay.Fits ⟨n, 0, i⟩) :
    Ledger lay (s.cachePage core n i phys) held loose [] ∧ ∀ Q, Q (n, i) →
      Singles lay core Q s → Singles lay core Q (s.cachePage core n i phys) := by
  have credited : Ledger lay (s.addFreePages n 1) held (⟨n, 0, i⟩ :: loose) [⟨n, 0, i⟩] :=
    L.credit 0 i
  have marked := credited.setFirst fits ((s.pages (n, i)).freed 0) rfl
  refine ⟨marked.put_cached valid leads fits (by
    rw [pages_setPage_self]
    exact Page.isFree_freed), fun Q holds h => ?_⟩
  refine Singles.of_places (h.setCache fun phys' there => ?_) rfl rfl rfl
  rcases List.mem_cons.mp there with rfl | old
  · exact .inr fun _ page leads' => by
      cases leads.symm.trans leads'
      exact holds
  · exact .inl old

theorem drainCache (k : Nat) (L : Ledger lay s held loose []) :
    ∃ t, drainCache core n k s = some t ∧ Ledger lay t held loose [] ∧
      ∀ Q, Singles lay core Q s → Singles lay core Q t := by
  induction k generalizing s with
  | zero => exact ⟨s, rfl, L, fun _ h => h⟩
  | succ k ih =>
    unfold drainCache
    split
    · exact ⟨s, rfl, L, fun _ h => h⟩
    rename_i phys rest top
    obtain ⟨valid, i, leads, fits, record⟩ := L.caches core n phys (top ▸ List.mem_cons_self)
    have popped := L.take_cached top leads
    simp only [popped.finds leads]
    have marked := popped.setFirst fits
      { s.pages (n, i) with refCount := 1, state := .allocated } rfl
    obtain ⟨t, freed, L', singles⟩ := (marked.charge fits.node).freeBypassing ⟨leads, fits, by
        change (update s.pages (n, i) _ (n, i)).order = 0
        rw [update_self]
        exact record.order, by
        change (update s.pages (n, i) _ (n, i)).refCount ≤ 1
        rw [update_self]⟩
      (by
        change (update s.pages (n, i) _ (n, i)).state ≠ .free
        rw [update_self]
        exact fun e => by cases e)
    obtain ⟨t', drained, L'', singles'⟩ := ih L'
    refine ⟨t', bind_eq_some_iff.mpr ⟨t, freed, drained⟩, L'', fun Q h => singles' Q ?_⟩
    have there : phys ∈ s.nodeCaches (core, n) := top ▸ List.mem_cons_self
    refine singles core Q (fun _ => h.caches _ phys there rfl _ leads) (Singles.of_places
      (h.setCache fun _ kept => .inl (top ▸ List.mem_cons_of_mem phys kept)) rfl rfl rfl)

/-- A page that another core allocated. -/
theorem enqueue {target : Nat} (L : Ledger lay s held (⟨n, 0, i⟩ :: loose) [])
    (leads : lay.physToPage phys = some (n, i)) (fits : lay.Fits ⟨n, 0, i⟩)
    (sent : s.remoteFreeEnqueue target phys = some t) :
    Ledger lay (t.setPage (n, i) (t.pages (n, i)).pending) held loose [] ∧ ∀ core Q, Q (n, i) →
      Singles lay core Q s → Singles lay core Q (t.setPage (n, i) (t.pages (n, i)).pending) := by
  unfold remoteFreeEnqueue at sent
  split at sent
  · rename_i room
    cases sent
    have valid : target < lay.maxCpus := by
      rw [← L.layout]
      exact of_decide_eq_true room.1
    have marked := L.setFirst fits (s.pages (n, i)).pending rfl
    refine ⟨marked.put_pending valid leads fits (by
      rw [pages_setPage_self]
      exact ⟨rfl, rfl, rfl⟩), fun core Q holds h => ?_⟩
    refine Singles.of_places (h.setInbox fun phys' there => ?_) rfl rfl rfl
    rcases List.mem_append.mp there with old | new
    · exact .inl old
    · exact .inr fun _ page leads' => by
        rw [List.mem_singleton.mp new] at leads'
        cases leads.symm.trans leads'
        exact holds
  · cases sent

/-- A block that is not marked free is freed. -/
theorem mmFreePage (L : Ledger lay s held (⟨n, order, i⟩ :: loose) [])
    (f : Freeable lay s phys ⟨n, order, i⟩) (state : (s.pages (n, i)).state ≠ .free) :
    ∃ t, s.mmFreePage core phys = some t ∧ Ledger lay t held loose [] ∧
      ∀ Q, (order = 0 → Q (n, i)) → Singles lay core Q s → Singles lay core Q t := by
  unfold Pmm.mmFreePage
  rw [L.withLastReference_eq f state]
  have places : ∀ Q, Singles lay core Q s → Singles lay core Q
      (s.setPage (n, i) { s.pages (n, i) with refCount := 0 }) :=
    fun Q h => h.of_places rfl rfl rfl
  have L₁ := L.setFirst f.fits { s.pages (n, i) with refCount := 0 } rfl
  generalize marked : s.setPage (n, i) { s.pages (n, i) with refCount := 0 } = s₁ at L₁ places
  have page : (s₁.pages (n, i)).order = order := by
    rw [← marked, Pmm.pages_setPage_self]
    exact f.order
  obtain ⟨L₂, singles⟩ := L₁.freeToZone f.fits page
  have zone := And.intro L₂ fun Q holds h => singles core Q holds (places Q h)
  simp only [page]
  split
  · rename_i mayCache
    obtain ⟨rfl, core', -⟩ := mayCache
    have valid : core < lay.maxCpus := by
      rw [← L₁.layout]
      exact core'
    split
    · split
      · obtain ⟨L₃, cached⟩ := L₁.cachePage valid f.leads f.fits
        exact ⟨_, rfl, L₃, fun Q holds h => cached Q (holds rfl) (places Q h)⟩
      obtain ⟨t, drained, L₃, kept⟩ := @drainCache _ _ _ _ n core pmmDrainBatch L₁
      obtain ⟨L₄, cached⟩ := L₃.cachePage valid f.leads f.fits
      exact ⟨_, by rw [drained]; rfl, L₄, fun Q holds h =>
        cached Q (holds rfl) (kept Q (places Q h))⟩
    · split
      · split
        · rename_i t sent
          obtain ⟨L₃, sends⟩ := L₁.enqueue f.leads f.fits sent
          exact ⟨_, rfl, L₃, fun Q holds h => sends core Q (holds rfl) (places Q h)⟩
        · exact ⟨_, rfl, zone⟩
      · exact ⟨_, rfl, zone⟩
  · exact ⟨_, rfl, zone⟩

/-- Whatever the state of the page: if the call comes back, it has freed the block. -/
theorem mmFreePage_some (L : Ledger lay s held (⟨n, order, i⟩ :: loose) [])
    (f : Freeable lay s phys ⟨n, order, i⟩) (freed : s.mmFreePage core phys = some t) :
    Ledger lay t held loose [] := by
  by_cases state : (s.pages (n, i)).state = .free
  · unfold Pmm.mmFreePage Pmm.withLastReference at freed
    simp only [L.finds f.leads, if_pos state] at freed
    cases freed
  · obtain ⟨t', freed', L', -⟩ := L.mmFreePage f state
    obtain rfl := some.inj (freed.symm.trans freed')
    exact L'

theorem drainInbox (k : Nat) (L : Ledger lay s held loose []) :
    ∃ t, drainInbox current core k s = some t ∧ Ledger lay t held loose [] ∧
      (current = core → ∀ Q, Singles lay core Q s → Singles lay core Q t) := by
  induction k generalizing s with
  | zero => exact ⟨s, rfl, L, fun _ _ h => h⟩
  | succ k ih =>
    unfold drainInbox
    split
    · exact ⟨s, rfl, L, fun _ _ h => h⟩
    rename_i phys rest first
    have there : phys ∈ s.inbox core := first ▸ List.mem_cons_self
    obtain ⟨-, n, i, leads, fits, record⟩ := L.inboxes core phys there
    obtain ⟨t, freed, L', singles⟩ := @mmFreePage _ _ _ _ n 0 i current phys
      (L.take_pending first leads)
      ⟨leads, fits, record.order, Nat.le_of_eq record.refCount |>.trans (Nat.zero_le 1)⟩
      (by
        change (s.pages (n, i)).state ≠ .free
        rw [record.state]
        exact fun e => by cases e)
    obtain ⟨t', drained, L'', singles'⟩ := ih L'
    refine ⟨t', bind_eq_some_iff.mpr ⟨t, freed, drained⟩, L'', ?_⟩
    rintro rfl Q h
    refine singles' rfl Q (singles Q (fun _ => h.inbox _ phys there rfl _ leads) ?_)
    exact h.setInbox fun _ kept => .inl (first ▸ List.mem_cons_of_mem phys kept)

theorem pmmDrainRemoteFrees (L : Ledger lay s held loose []) :
    ∃ t, s.pmmDrainRemoteFrees current core = some t ∧ Ledger lay t held loose [] ∧
      (current = core → ∀ Q, Singles lay core Q s → Singles lay core Q t) := by
  unfold Pmm.pmmDrainRemoteFrees
  split
  · exact L.drainInbox pmmRemoteBatch
  · exact ⟨s, rfl, L, fun _ _ h => h⟩

end Ledger

end BharatOS
