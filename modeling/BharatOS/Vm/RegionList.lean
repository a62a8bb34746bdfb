import BharatOS.Lib.LinkedList
import BharatOS.Vm.RegionInsert
import BharatOS.Vm.RegionRemove
import BharatOS.Vm.RegionOps

/-!
# The list of regions and the tree together

`Intact s zs`: the regions of the address space are `zs`, in the list and from left to right in the
tree, in ascending order and apart from one another. Regions are inserted and removed one at a time.
-/

namespace BharatOS

open Function List

open ColorTree TreeLinks Prog

namespace VmRegion

/-- The end of the region, as a number. -/
def limit (r : VmRegion) : Nat := r.base + r.length

/-- A region that is not empty and ends below the end of memory. -/
structure Proper (r : VmRegion) : Prop where
  pos : 0 < r.length
  fits : r.limit < 2 ^ 64
  offset : r.objectOffset < 2 ^ 64

variable {r : VmRegion}

theorem Proper.stop_eq (h : r.Proper) : r.stop = r.limit := Nat.mod_eq_of_lt h.fits

theorem Proper.base_lt (h : r.Proper) : r.base < r.limit := Nat.lt_add_of_pos_right h.pos

end VmRegion

/-- Regions in ascending order that are apart from one another. -/
structure Laid (region : RegionPtr → VmRegion) (zs : List RegionPtr) : Prop where
  proper : ∀ p ∈ zs, (region p).Proper
  spaced : zs.Pairwise fun p q => (region p).limit ≤ (region q).base

namespace Laid

variable {region region' : RegionPtr → VmRegion} {xs ys zs : List RegionPtr} {z : RegionPtr}

section

variable (h : Laid region zs)

include h

theorem congr (same : ∀ p ∈ zs, region' p = region p) : Laid region' zs where
  proper p member := same p member ▸ h.proper p member
  spaced := h.spaced.imp_of_mem fun hp hq apart => by rwa [same _ hp, same _ hq]

theorem ascending : zs.Pairwise fun p q => (region p).base < (region q).base :=
  h.spaced.imp_of_mem fun hp _ apart => Nat.lt_of_lt_of_le (h.proper _ hp).base_lt apart

theorem nodup : zs.Nodup := h.ascending.imp fun less => by
    rintro rfl
    exact Nat.lt_irrefl _ less

theorem sublist (sub : xs.Sublist zs) : Laid region xs :=
  ⟨fun p member => h.proper p (sub.subset member), h.spaced.sublist sub⟩

end

section

variable (h : Laid region (xs ++ z :: ys))

include h

theorem remove : Laid region (xs ++ ys) := h.sublist ((sublist_cons_self z ys).append_left xs)

theorem before_le : ∀ p ∈ xs, (region p).limit ≤ (region z).base := fun p member =>
  (pairwise_append.mp h.spaced).2.2 p member z mem_cons_self

theorem le_after : ∀ p ∈ ys, (region z).limit ≤ (region p).base :=
  (pairwise_cons.mp (pairwise_append.mp h.spaced).2.1).1

theorem before_lt : ∀ p ∈ xs, (region p).base < (region z).base := fun p member =>
  Nat.lt_of_lt_of_le (h.proper p (by simp [member])).base_lt (h.before_le p member)

theorem lt_after : ∀ p ∈ ys, (region z).base < (region p).base := fun p member =>
  Nat.lt_of_lt_of_le (h.proper z (by simp)).base_lt (h.le_after p member)
end

variable {r : VmRegion}

theorem insert (h : Laid region (xs ++ ys)) (fresh : z ∉ xs ++ ys) (proper : r.Proper)
    (before : ∀ p ∈ xs, (region p).limit ≤ r.base) (after : ∀ p ∈ ys, r.limit ≤ (region p).base) :
    Laid (update region z r) (xs ++ z :: ys) := by
  have other : ∀ p ∈ xs ++ ys, update region z r p = region p := by
    intro p member
    have ne : p ≠ z := fun eq => fresh (eq ▸ member)
    exact update_of_ne ne _ _
  have here : update region z r z = r := update_self ..
  obtain ⟨nodupXs, nodupYs, apart⟩ := pairwise_append.mp (h.congr other).spaced
  refine ⟨fun p member => ?_, pairwise_append.mpr ⟨nodupXs,
    pairwise_cons.mpr ⟨fun p member => ?_, nodupYs⟩, fun p inXs q member => ?_⟩⟩
  · by_cases eq : p = z
    · rw [eq, here]
      exact proper
    have member : p ∈ xs ++ ys := by
      simpa [eq] using member
    rw [other p member]
    exact h.proper p member
  · rw [here, other p (mem_append_right _ member)]
    exact after p member
  · rcases mem_cons.mp member with rfl | member
    · rw [here, other p (mem_append_left _ inXs)]
      exact before p inXs
    · exact apart p inXs q member

/-- A region that meets no other has its place among them. -/
theorem exists_place (h : Laid region zs)
    (apart : ∀ p ∈ zs, (region p).limit ≤ r.base ∨ r.limit ≤ (region p).base) :
    ∃ xs ys, zs = xs ++ ys ∧ (∀ p ∈ xs, (region p).limit ≤ r.base) ∧
      ∀ p ∈ ys, r.limit ≤ (region p).base := by
  induction zs with
  | nil => exact ⟨[], [], rfl, nofun, nofun⟩
  | cons z rest ih =>
    rcases apart z mem_cons_self with before | after
    · obtain ⟨xs, ys, rfl, low, high⟩ := ih (h.sublist (sublist_cons_self z rest))
        fun p member => apart p (mem_cons_of_mem z member)
      exact ⟨z :: xs, ys, rfl, forall_mem_cons.mpr ⟨before, low⟩, high⟩
    refine ⟨[], z :: rest, rfl, nofun, forall_mem_cons.mpr ⟨after, fun p member => ?_⟩⟩
    have := (pairwise_cons.mp h.spaced).1 p member
    have := (h.proper z mem_cons_self).base_lt
    omega

/-- There cannot be more regions than addresses. -/
theorem length_lt (h : Laid region zs) : zs.length < 2 ^ 64 := by
  suffices all : ∀ low, low < 2 ^ 64 → (∀ p ∈ zs, low ≤ (region p).base) →
      low + zs.length < 2 ^ 64 by
    simpa using all 0 (by decide) fun _ _ => Nat.zero_le _
  induction zs with
  | nil => exact fun low less _ => less
  | cons z rest ih =>
    intro low _ least
    have proper := h.proper z mem_cons_self
    have := ih (h.sublist (sublist_cons_self z rest)) (region z).limit proper.fits
      (pairwise_cons.mp h.spaced).1
    have := least z mem_cons_self
    have := proper.base_lt
    simp only [length_cons]
    omega

end Laid

namespace RegionState

variable {s t u : RegionState} {xs ys zs zs' : List RegionPtr} {z new : RegionPtr}

/-- The list is as it should be. -/
structure InOrder (s : RegionState) (zs : List RegionPtr) : Prop where
  list : Listed s.next s.prev s.regions zs
  laid : Laid s.region zs
  live : ∀ p ∈ zs, s.live p = true

/-- The list, the tree and the count agree. -/
structure Intact (s : RegionState) (zs : List RegionPtr) : Prop extends InOrder s zs where
  tree : ∃ T n, s.HasTree T ∧ T.Balanced .black n ∧ T.nodes = zs
  count : s.regionCount = zs.length

/-- Nothing changes in a region. -/
structure SameRecord (s t : RegionState) (q : RegionPtr) : Prop where
  links : SameAt s.toTreeLinks t.toTreeLinks q
  maxEnd : t.maxEnd q = s.maxEnd q
  next : t.next q = s.next q
  prev : t.prev q = s.prev q
  region : t.region q = s.region q
  live : t.live q = s.live q

theorem SameRecord.refl (q : RegionPtr) : SameRecord s s q :=
  ⟨⟨fun _ => rfl, rfl, rfl⟩, rfl, rfl, rfl, rfl, rfl⟩

theorem SameRecord.trans {q : RegionPtr} (h : SameRecord s t q) (h' : SameRecord t u q) :
    SameRecord s u q where
  links := ⟨fun d => (h'.links.1 d).trans (h.links.1 d), h'.links.2.1.trans h.links.2.1,
    h'.links.2.2.trans h.links.2.2⟩
  maxEnd := h'.maxEnd.trans h.maxEnd
  next := h'.next.trans h.next
  prev := h'.prev.trans h.prev
  region := h'.region.trans h.region
  live := h'.live.trans h.live

/-- The regions of another address space stay intact. -/
theorem Intact.congr (h : s.Intact zs) (same : ∀ q ∈ zs, SameRecord s t q)
    (root : t.regionsTreeRoot = s.regionsTreeRoot) (regions : t.regions = s.regions)
    (count : t.regionCount = s.regionCount) : t.Intact zs := by
  obtain ⟨T, n, tree, balanced, rfl⟩ := h.tree
  refine ⟨⟨?_, ?_, ?_⟩, ⟨T, n, ⟨⟨root.trans tree.root, ?_, tree.nodup⟩, ?_⟩, balanced, rfl⟩,
    count.trans h.count⟩
  · rw [regions]
    exact h.list.congr (fun q member => (same q member).next) fun q member => (same q member).prev
  · exact h.laid.congr fun q member => (same q member).region
  · exact fun q member => (same q member).live.trans (h.live q member)
  · exact tree.rep.congr fun q member => (same q member).links
  · have stops : ∀ q ∈ T.nodes, t.stopAt q = s.stopAt q := fun q member => by
      rw [stopAt, stopAt, (same q member).region]
    exact (tree.tops.congr fun q member => (same q member).maxEnd).revalue stops

/-- From the regions `zs` to the regions `zs'`: new ones were not in use, and others that are in use
stay as they are. -/
structure Evolves (s : RegionState) (zs : List RegionPtr) (t : RegionState)
    (zs' : List RegionPtr) : Prop where
  intact : t.Intact zs'
  fresh : ∀ p ∈ zs', p ∈ zs ∨ s.live p = false
  kept : ∀ q, q ∉ zs → s.live q = true → SameRecord s t q

theorem Evolves.refl (h : s.Intact zs) : Evolves s zs s zs :=
  ⟨h, fun _ member => .inl member, fun q _ _ => .refl q⟩

theorem Evolves.trans {us : List RegionPtr} (h : Evolves s zs t zs') (h' : Evolves t zs' u us) :
    Evolves s zs u us where
  intact := h'.intact
  fresh p member := by
    rcases h'.fresh p member with old | dead
    · exact h.fresh p old
    by_contra away
    obtain ⟨out, alive⟩ := not_or.mp away
    have alive := Bool.not_eq_false _ ▸ alive
    rw [(h.kept p out alive).live, alive] at dead
    cases dead
  kept q out alive := by
    have same := h.kept q out alive
    refine same.trans (h'.kept q (fun member => ?_) (same.live.trans alive))
    rcases h.fresh q member with old | dead
    · exact out old
    rw [alive] at dead
    cases dead

/-! ## Insertion -/

/-- Where the tree puts the new region is where the list puts it. -/
theorem split_eq_of_place {path : List (Hop RegionPtr)} (place : PlaceOf s new path)
    (whole : before path ++ after path = xs ++ ys) (laid : Laid s.region (xs ++ new :: ys)) :
    before path = xs ∧ after path = ys := by
  suffices same : before path = xs from ⟨same, append_cancel_left (same ▸ whole)⟩
  let low : RegionPtr → Bool := fun p => (s.region p).base ≤ (s.region new).base
  have left : ∀ as bs : List RegionPtr, (∀ p ∈ as, (s.region p).base ≤ (s.region new).base) →
      (∀ p ∈ bs, (s.region new).base < (s.region p).base) → (as ++ bs).filter low = as := by
    intro as bs small large
    rw [filter_append, filter_eq_self.mpr fun p member => by simpa [low] using small p member,
      filter_eq_nil_iff.mpr fun p member => by simpa [low] using large p member,
      append_nil]
  rw [← left _ _ place.before place.after, whole]
  exact left xs ys (fun p member => Nat.le_of_lt (laid.before_lt p member)) laid.lt_after

theorem listPlace_spec (list : Listed s.next s.prev s.regions (xs ++ ys))
    (laid : Laid s.region (xs ++ new :: ys)) :
    Returns (s.listPlace new) ((xs.getLast?, ys.head?) = ·) := by
  refine .loop (fun k now => ∃ done todo, xs = done ++ todo ∧ todo.length = k ∧
    now = (done.getLast?, (todo ++ ys).head?)) ?_ ⟨[], xs, rfl, rfl, by rw [list.head]; rfl⟩
  rintro k _ ⟨done, todo, rfl, rfl, rfl⟩
  cases todo with
  | nil =>
    simp only [append_nil, nil_append] at list laid ⊢
    cases ys with
    | nil => exact .pure rfl
    | cons y ys =>
      have after := laid.lt_after y mem_cons_self
      simp only [head?_cons, Nat.not_lt.mpr (Nat.le_of_lt after), if_false]
      exact .pure rfl
  | cons c todo =>
    have before := laid.before_lt c (by simp)
    have next : s.next c = (todo ++ ys).head? := by
      simp only [append_assoc, cons_append] at list
      exact list.next_eq
    simp only [cons_append, head?_cons, before, if_true]
    exact .pure ⟨todo.length, by simp, done ++ [c], todo, by simp, rfl, by simp [next]⟩

theorem linkBetween_eq {prev curr : Option RegionPtr} : s.linkBetween new prev curr = { s with
      next := fun b => if prev = some b then some new else if b = new then curr else s.next b
      prev := fun b => if curr = some b then some new else if b = new then prev else s.prev b
      regions := if prev = none then some new else s.regions } := by
  cases prev <;> cases curr <;>
    simp [linkBetween, setNext, setPrev, update_apply, funext_iff, eq_comm]

/-- The regions are `xs` and `ys`, and `new` belongs between them. Greatest ends may be wrong on the
way to its place. -/
structure ReadyToInsert (s : RegionState) (xs : List RegionPtr) (new : RegionPtr)
    (ys : List RegionPtr) : Prop where
  tree : ∃ T n, s.HasShape T ∧ T.Balanced .black n ∧ T.nodes = xs ++ ys ∧
    ∀ path, fill path .nil = T → before path = xs → s.TopsBeside path
  list : Listed s.next s.prev s.regions (xs ++ ys)
  count : s.regionCount = (xs ++ ys).length
  laid : Laid s.region (xs ++ new :: ys)
  live : ∀ p ∈ xs ++ new :: ys, s.live p = true

/-- Only links change. -/
structure Relinked (zs : List RegionPtr) (s t : RegionState) : Prop where
  region : t.region = s.region
  live : t.live = s.live
  state : t.state = s.state
  same : ∀ q, q ∉ zs → SameRecord s t q

/-- The links of the list change, to those of another list. -/
structure Relisted (zs : List RegionPtr) (s t : RegionState) : Prop where
  same : t = { s with next := t.next, prev := t.prev, regions := t.regions }
  links : ∀ q, q ∉ zs → t.next q = s.next q ∧ t.prev q = s.prev q

theorem linkBetween_spec (list : Listed s.next s.prev s.regions (xs ++ ys))
    (nodup : (xs ++ new :: ys).Nodup) : Listed (s.linkBetween new xs.getLast? ys.head?).next
        (s.linkBetween new xs.getLast? ys.head?).prev
        (s.linkBetween new xs.getLast? ys.head?).regions (xs ++ new :: ys) ∧
      Relisted (xs ++ new :: ys) s (s.linkBetween new xs.getLast? ys.head?) := by
  obtain ⟨fresh, nodup⟩ := nodup_cons.mp (nodup_middle.mp nodup)
  rw [linkBetween_eq]
  have notLast : xs.getLast? ≠ some new := fun last =>
    fresh (mem_append_left _ (mem_of_getLast? last))
  have notHead : ys.head? ≠ some new := fun head =>
    fresh (mem_append_right _ (mem_of_head? head))
  refine ⟨list.insert nodup ?_ ⟨by simp [notLast], by simp [notHead]⟩ ?_ ?_, rfl, ?_⟩
  · cases xs with
    | nil => rfl
    | cons x xs => simp [getLast?_cons, list.head]
  · intro b member
    have other : b ≠ new := fun eq => fresh (eq ▸ member)
    simp [other]
  · intro b member
    have other : b ≠ new := fun eq => fresh (eq ▸ member)
    simp [other]
  · intro q out
    simp only [mem_append, mem_cons, not_or] at out
    have notLast : xs.getLast? ≠ some q := fun last => out.1 (mem_of_getLast? last)
    have notHead : ys.head? ≠ some q := fun head => out.2.2 (mem_of_head? head)
    simp [notLast, notHead, out.2.1]

theorem insertRegionSorted_spec (h : s.ReadyToInsert xs new ys) :
    Returns (s.insertRegionSorted new) fun t => t.Intact (xs ++ new :: ys) ∧
      Relinked (xs ++ new :: ys) s t := by
  obtain ⟨T, n, shape, balanced, nodes, beside⟩ := h.tree
  have nodup := h.laid.nodup
  have fresh : new ∉ xs ++ ys := (nodup_cons.mp (nodup_middle.mp nodup)).1
  refine .bind (listPlace_spec h.list h.laid) ?_
  rintro _ rfl
  obtain ⟨list, relisted⟩ := linkBetween_spec h.list nodup
  dsimp only
  generalize s.linkBetween new xs.getLast? ys.head? = r at list relisted ⊢
  obtain ⟨same, links⟩ := relisted
  have shape' : r.HasShape T := by
    rw [same]
    exact ⟨shape.root, shape.rep, shape.nodup⟩
  have ascending : r.Ascending T.nodes := by
    rw [same, nodes]
    exact h.laid.remove.ascending
  have place : ∀ path, PlaceOf r new path → before path ++ after path = xs ++ ys →
      before path = xs ∧ after path = ys := by
    intro path place whole
    rw [same] at place
    exact split_eq_of_place ⟨place.before, place.after⟩ whole h.laid
  refine .bind (treeInsert_spec shape' balanced ascending (nodes ▸ fresh) ?_) ?_
  · intro path whole at_
    have := beside path whole (place path at_ (by rw [← nodes, ← whole, nodes_fill]; simp [ColorTree.nodes])).1
    rw [same]
    exact this
  rintro t ⟨T', m, path, tree, balanced', nodes', whole, at_, within⟩
  obtain ⟨rfl, rfl⟩ := place path at_ (whole.symm.trans nodes)
  have sameT := within.same
  refine .pure ⟨⟨⟨?_, ?_, ?_⟩, ⟨T', m, ⟨⟨tree.root, tree.rep, tree.nodup⟩, tree.tops⟩, balanced',
    nodes'⟩, ?_⟩, ?_, ?_, ?_, ?_⟩
  · rw [sameT]
    exact list
  · rw [sameT, same]
    exact h.laid
  · rw [sameT, same]
    exact h.live
  · have count : t.regionCount = s.regionCount := by rw [sameT, same]
    have bound := h.laid.length_lt
    simp only [count, h.count, wrap64]
    simp only [length_append, length_cons] at bound ⊢
    omega
  · rw [sameT, same]
  · rw [sameT, same]
  · rw [sameT, same]
  · intro q out
    obtain ⟨tree, maxEnd⟩ := within.links q (by
      simp only [mem_append, mem_cons, not_or, nodes] at out ⊢
      tauto)
    rw [same] at tree maxEnd
    have next : t.next q = r.next q := by rw [sameT]
    have prev : t.prev q = r.prev q := by rw [sameT]
    exact ⟨tree, maxEnd, next.trans (links q out).1, prev.trans (links q out).2,
      by rw [sameT, same], by rw [sameT, same]⟩

/-! ## Removal -/

theorem unlinkRegion_eq (apart : s.prev z ≠ some z) : s.unlinkRegion z = { s with
      next := fun b => if s.prev z = some b then s.next z else s.next b
      prev := fun b => if s.next z = some b then s.prev z else s.prev b
      regions := if s.prev z = none then s.next z else s.regions } := by
  unfold unlinkRegion
  cases prev : s.prev z with
  | none => cases next : s.next z <;>
      simp [setPrev, update_apply, funext_iff, eq_comm, prev, next]
  | some p =>
    have other : z ≠ p := fun eq => apart (by rw [prev, eq])
    cases next : s.next z <;>
      simp [setNext, setPrev, update_apply, funext_iff, eq_comm, prev, next, other]

theorem unlinkRegion_spec (list : Listed s.next s.prev s.regions (xs ++ z :: ys))
    (nodup : (xs ++ z :: ys).Nodup) :
    Listed (s.unlinkRegion z).next (s.unlinkRegion z).prev (s.unlinkRegion z).regions (xs ++ ys) ∧
      Relisted (xs ++ ys) s (s.unlinkRegion z) := by
  obtain ⟨fresh, nodup⟩ := nodup_cons.mp (nodup_middle.mp nodup)
  have notLast : xs.getLast? ≠ some z := fun last =>
    fresh (mem_append_left _ (mem_of_getLast? last))
  rw [unlinkRegion_eq (list.prev_eq ▸ notLast), list.next_eq, list.prev_eq]
  refine ⟨list.remove nodup ?_ (fun _ _ => rfl) fun _ _ => rfl, rfl, ?_⟩
  · cases xs with
    | nil => rfl
    | cons x xs => simp [getLast?_cons, list.head]
  · intro q out
    simp only [mem_append, not_or] at out
    have notLast : xs.getLast? ≠ some q := fun last => out.1 (mem_of_getLast? last)
    have notHead : ys.head? ≠ some q := fun head => out.2 (mem_of_head? head)
    simp [notLast, notHead]

theorem dropRegion_eq (s : RegionState) (z : RegionPtr) : ∃ count, s.dropRegion z =
    { s.unlinkRegion z with
      live := update (s.unlinkRegion z).live z false
      regionCount := count } ∧
    count = wrap64 ((s.unlinkRegion z).regionCount + 2 ^ 64 - 1) := ⟨_, rfl, rfl⟩

theorem removeRegion_spec (h : s.Intact (xs ++ z :: ys)) :
    Returns (s.removeRegion z) fun t => t.Intact (xs ++ ys) ∧ t.region = s.region ∧
      (t.next z = s.next z ∧ t.prev z = s.prev z) ∧ ∀ q, q ∉ xs ++ z :: ys → SameRecord s t q := by
  obtain ⟨T, n, tree, balanced, nodes⟩ := h.tree
  have nodup := h.laid.nodup
  obtain ⟨alone, -⟩ := nodup_cons.mp (nodup_middle.mp nodup)
  refine .bind (treeRemove_spec tree balanced (by simp [nodes])) ?_
  rintro r ⟨T', m, tree', balanced', ⟨as, bs, whole, rest⟩, within⟩
  obtain ⟨rfl, -, rfl⟩ := (append_cons_inj_of_notMem
    (fun inside => alone (mem_append_left _ inside))
    fun inside => alone (mem_append_right _ inside)).mp (nodes.symm.trans whole)
  have sameR := within.same
  obtain ⟨list, relisted⟩ := unlinkRegion_spec (s := r) (by rw [sameR]; exact h.list) nodup
  obtain ⟨count, dropped, counted⟩ := r.dropRegion_eq z
  rw [dropped]
  generalize r.unlinkRegion z = t at list relisted counted ⊢
  obtain ⟨same, links⟩ := relisted
  have alive : t.live = s.live := by rw [same, sameR]
  have region : t.region = s.region := by rw [same, sameR]
  have counted : count = (xs ++ ys).length := by
    have before : t.regionCount = s.regionCount := by rw [same, sameR]
    have bound := h.laid.length_lt
    rw [counted, before, h.count, wrap64]
    simp only [length_append, length_cons] at bound ⊢
    omega
  refine .pure ⟨⟨⟨list, ?_, ?_⟩, ⟨T', m, ?_, balanced', rest⟩, counted⟩, region, ?_, ?_⟩
  · simp only [region]
    exact h.laid.remove
  · intro p member
    have other : p ≠ z := fun eq => alone (eq ▸ member)
    simp only [update_of_ne other, alive]
    exact h.live p (((sublist_cons_self z ys).append_left xs).subset member)
  · rw [same]
    exact ⟨⟨tree'.root, tree'.rep, tree'.nodup⟩, tree'.tops⟩
  · have nextR : r.next z = s.next z := by rw [sameR]
    have prevR : r.prev z = s.prev z := by rw [sameR]
    obtain ⟨next, prev⟩ := links z alone
    exact ⟨next.trans nextR, prev.trans prevR⟩
  · intro q out
    obtain ⟨tree, maxEnd⟩ := within.links q (nodes ▸ out)
    obtain ⟨next, prev⟩ := links q fun inside =>
      out (((sublist_cons_self z ys).append_left xs).subset inside)
    have other : q ≠ z := by
      rintro rfl
      exact out (by simp)
    have nextR : r.next q = s.next q := by rw [sameR]
    have prevR : r.prev q = s.prev q := by rw [sameR]
    have linksT : t.toTreeLinks = r.toTreeLinks := by rw [same]
    have maxEndT : t.maxEnd = r.maxEnd := by rw [same]
    exact ⟨linksT ▸ tree, maxEndT ▸ maxEnd, next.trans nextR, prev.trans prevR,
      congrFun region q, by simp only [update_of_ne other, alive]⟩

end RegionState

end BharatOS
