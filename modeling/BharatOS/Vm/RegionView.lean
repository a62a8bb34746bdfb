import BharatOS.Vm.RegionIndex
import BharatOS.Vm.RegionTail

/-!
# What unmapping and protecting do to the addresses

An address space maps addresses to places in objects. The end of a range is computed modulo
`2 ^ 64`: a range that reaches beyond the end of memory is taken for one that ends low.
-/

namespace BharatOS

open VmRegion Option List

open Prog

/-- Where an address is mapped to. -/
structure Mapping where
  object : Option Nat
  offset : Nat
  prot : BitVec 32
  deriving DecidableEq

namespace VmRegion

variable {r : VmRegion} {a e va : Nat} {f : VmRegion → List VmRegion}

instance (r : VmRegion) (va : Nat) : Decidable (r.Contains va) :=
  inferInstanceAs (Decidable (_ ∧ _))

def mapping (r : VmRegion) (va : Nat) : Mapping :=
  ⟨r.object, wrap64 (r.objectOffset + (va - r.base)), r.prot⟩

/-- What the regions make of an address. -/
def view (rs : List VmRegion) (va : Nat) : Option Mapping :=
  (rs.find? fun r => r.Contains va).map (·.mapping va)

theorem view_append {rs rs' : List VmRegion} :
    view (rs ++ rs') va = (view rs va).or (view rs' va) := by
  simp only [view, find?_append]
  cases rs.find? fun r => r.Contains va <;> rfl

theorem view_flatMap (rs : List VmRegion) (g : VmRegion → List VmRegion)
    (h : Option Mapping → Option Mapping) (empty : h none = none)
    (first : ∀ x y, (h x).or (h y) = h (x.or y))
    (each : ∀ r ∈ rs, view (g r) va = h (view [r] va)) :
    view (rs.flatMap g) va = h (view rs va) := by
  induction rs with
  | nil => exact empty.symm
  | cons r rest ih =>
    rw [flatMap_cons, view_append, each r mem_cons_self,
      ih fun r' member => each r' (mem_cons_of_mem r member), first, ← view_append]
    rfl

theorem view_singleton : view [r] va = if r.Contains va then some (r.mapping va) else none := by
  by_cases inside : r.Contains va <;> simp [view, inside]

theorem view_left (low : r.base ≤ a) (high : a ≤ r.limit) :
    view [r.left a] va = if va < a then view [r] va else none := by
  have contains : (r.left a).Contains va ↔ va < a ∧ r.Contains va := by
    simp only [Contains, left, limit] at *
    omega
  rw [view_singleton, view_singleton]
  split_ifs with inLeft before inside inside <;> grind [mapping, left]

theorem view_right (low : r.base ≤ a) (high : a ≤ r.limit) :
    view [r.right a] va = if a ≤ va then view [r] va else none := by
  have contains : (r.right a).Contains va ↔ a ≤ va ∧ r.Contains va := by
    simp only [Contains, right, limit] at *
    omega
  have mapping : a ≤ va → (r.right a).mapping va = r.mapping va := by
    intro behind
    simp only [mapping, right, wrap64, Nat.mod_add_mod]
    rw [show r.objectOffset + (a - r.base) + (va - a) = r.objectOffset + (va - r.base) by omega]
  rw [view_singleton, view_singleton]
  split_ifs with inRight behind inside inside <;> grind

theorem view_before (before : va < r.base) : view [r] va = none := by
  rw [view_singleton, if_neg fun inside => Nat.not_lt.mpr inside.1 before]

theorem view_behind (behind : r.limit ≤ va) : view [r] va = none := by
  rw [view_singleton, if_neg fun inside => Nat.not_lt.mpr behind inside.2]

theorem view_within (meets : r.base < e ∧ a < r.limit) (order : a ≤ e) :
    view [r.within a e] va = if a ≤ va ∧ va < e then view [r] va else none := by
  let m := if r.base < a then r.right a else r
  have base : m.base ≤ e := by
    by_cases low : r.base < a
    · simpa [m, low, right] using order
    · simpa [m, low] using Nat.le_of_lt meets.1
  have from_ : view [m] va = if a ≤ va then view [r] va else none := by
    by_cases low : r.base < a
    · simpa only [m, low, if_true] using view_right (Nat.le_of_lt low) (Nat.le_of_lt meets.2)
    simp only [m, low, if_false]
    split_ifs with behind
    · rfl
    · exact view_before (by omega)
  have upTo : view [r.within a e] va = if va < e then view [m] va else none := by
    change view [if e < m.limit then m.left e else m] va = _
    by_cases high : e < m.limit
    · rw [if_pos high]
      exact view_left base (Nat.le_of_lt high)
    split_ifs with before
    · rfl
    · exact view_behind (by omega)
  rw [upTo, from_]
  split_ifs <;> first | rfl | omega

/-- What is done to a region is done to its addresses in the range. -/
theorem view_pieces {g : Option Mapping → Option Mapping} (empty : g none = none)
    (acts : ∀ r va, view (f r) va = g (view [r] va)) (fits : r.base < e ∧ a < r.limit → a ≤ e) :
    view (r.pieces f a e) va = if a ≤ va ∧ va < e then g (view [r] va) else view [r] va := by
  unfold pieces
  by_cases meets : r.base < e ∧ a < r.limit
  swap
  · split_ifs with inside
    · have out : view [r] va = none := by
        by_cases early : va < r.base
        · exact view_before early
        · exact view_behind (by omega)
      rw [out, empty]
    · rfl
  have order := fits meets
  have start : view (if r.base < a then [r.left a] else []) va =
      if va < a then view [r] va else none := by
    by_cases low : r.base < a
    · rw [if_pos low]
      exact view_left (Nat.le_of_lt low) (Nat.le_of_lt meets.2)
    split_ifs with before
    · exact (view_before (by omega)).symm
    · rfl
  have stop : view (if e < r.limit then [r.right e] else []) va =
      if e ≤ va then view [r] va else none := by
    by_cases high : e < r.limit
    · rw [if_pos high]
      exact view_right (Nat.le_of_lt meets.1) (Nat.le_of_lt high)
    split_ifs with behind
    · exact (view_behind (by omega)).symm
    · rfl
  rw [if_pos meets, view_append, view_append, start, stop, acts, view_within meets order]
  rcases Nat.lt_or_ge va a with before | from_
  · simp [before, Nat.not_le.mpr before, empty, Nat.not_le.mpr (Nat.lt_of_lt_of_le before order)]
  rcases Nat.lt_or_ge va e with inside | behind
  · simp [Nat.not_lt.mpr from_, from_, inside, Nat.not_le.mpr inside]
  · simp [Nat.not_lt.mpr from_, Nat.not_lt.mpr behind, behind, empty]

/-- The call returned with success, so that its result is in order. Then where the range is empty no
region was cut. -/
theorem order_of_spaced {rs : List VmRegion}
    (spaced : (rs.flatMap (pieces f a e)).Pairwise fun r r' => r.limit ≤ r'.base)
    (member : r ∈ rs) (meets : r.base < e ∧ a < r.limit) : a ≤ e := by
  by_contra less
  have low : r.base < a := by omega
  have high : e < r.limit := by omega
  have ends : [r.left a, r.right e].Sublist (r.pieces f a e) := by
    rw [pieces, if_pos meets, if_pos low, if_pos high]
    simp
  obtain ⟨before, behind, rfl⟩ := append_of_mem member
  rw [flatMap_append, flatMap_cons] at spaced
  have apart := spaced.sublist ((ends.trans (sublist_append_left _ _)).trans
    (sublist_append_right _ _))
  have := (pairwise_cons.mp apart).1 _ (mem_singleton.mpr rfl)
  rw [left_limit low] at this
  exact less this

end VmRegion

/-- The page of the address has an address of the range. -/
def PageMeets (address length va : Nat) : Prop :=
  ∃ x, address ≤ x ∧ x < address + length ∧ x / pageSize = va / pageSize

/-- The end of the range, rounded up. -/
def rangeEnd (address length : Nat) : Nat := (address + length + pageSize - 1) / pageSize * pageSize

theorem pageMeets_iff {address length va : Nat} (some_ : 0 < length) :
    PageMeets address length va ↔ pageDown address ≤ va ∧ va < rangeEnd address length := by
  unfold PageMeets pageDown rangeEnd pageSize
  constructor
  · omega
  · rintro ⟨low, high⟩
    by_cases first : address / 4096 = va / 4096
    · exact ⟨address, Nat.le_refl _, by omega, first⟩
    · exact ⟨va / 4096 * 4096, by omega, by omega, by omega⟩

namespace RegionState

theorem rangeOf_eq {address length : BitVec 64} : rangeOf address length =
    (pageDown address.toNat, rangeEnd address.toNat length.toNat % 2 ^ 64) := by
  unfold rangeOf pageUp pageDown rangeEnd wrap64 pageSize
  congr 1
  omega

variable {s t : RegionState} {zs zs' : List RegionPtr} {region : RegionPtr → VmRegion}
  {va a e fuel : Nat}

theorem view_of_mem (laid : Laid region zs) {p : RegionPtr} (member : p ∈ zs)
    (inside : (region p).Contains va) :
    VmRegion.view (zs.map region) va = some ((region p).mapping va) := by
  obtain ⟨xs, ys, rfl⟩ := append_of_mem member
  have before : VmRegion.view (xs.map region) va = none := by
    simp only [VmRegion.view, map_eq_none_iff, find?_eq_none, List.mem_map, decide_eq_true_eq]
    rintro _ ⟨q, inXs, rfl⟩ there
    exact Nat.not_lt.mpr (Nat.le_trans (laid.before_le q inXs) inside.1) there.2
  rw [map_append, map_cons, VmRegion.view_append, before]
  simp [VmRegion.view, inside]

theorem view_eq_none (away : ∀ p ∈ zs, ¬ (region p).Contains va) :
    view (zs.map region) va = none := by
  simpa [view] using away

variable {g : Option Mapping → Option Mapping} {address length : BitVec 64}

/-- What a call on a range does to the addresses. -/
theorem view_after {f : VmRegion → List VmRegion}
    (after : zs'.map t.region = (zs.map s.region).flatMap (pieces f a e)) (laid : Laid t.region zs')
    (empty : g none = none) (first : ∀ x y, (g x).or (g y) = g (x.or y))
    (acts : ∀ r va, view (f r) va = g (view [r] va)) (va : Nat) :
    view (zs'.map t.region) va =
      if a ≤ va ∧ va < e then g (view (zs.map s.region) va)
      else view (zs.map s.region) va := by
  have spaced : (zs'.map t.region).Pairwise fun r r' => r.limit ≤ r'.base :=
    pairwise_map.mpr laid.spaced
  rw [after] at spaced ⊢
  have each : ∀ r ∈ zs.map s.region, view (r.pieces f a e) va =
      if a ≤ va ∧ va < e then g (view [r] va) else view [r] va := fun r member =>
    view_pieces empty acts (order_of_spaced spaced member)
  by_cases inside : a ≤ va ∧ va < e
  · simp only [inside, and_self, if_true] at each ⊢
    exact view_flatMap _ _ g empty first each
  · simp only [inside, if_false] at each ⊢
    exact view_flatMap _ _ id rfl (fun _ _ => rfl) each

/-- On the pages that meet the range `new` is `g` of `old`, and elsewhere it is `old`. -/
def ActsOnPages (g : Option Mapping → Option Mapping) (address length : BitVec 64)
    (old new : Nat → Option Mapping) : Prop :=
  ∀ va : BitVec 64,
    (PageMeets address.toNat length.toNat va.toNat → new va.toNat = g (old va.toNat)) ∧
    (¬ PageMeets address.toNat length.toNat va.toNat → new va.toNat = old va.toNat)

/-- The range that is acted on is the right one, or what is wrong does not matter. -/
theorem actsOnPages_iff {old new : Nat → Option Mapping} (some_ : length ≠ 0)
    (after : ∀ va, new va = if (rangeOf address length).1 ≤ va ∧ va < (rangeOf address length).2
      then g (old va) else old va) : ActsOnPages g address length old new ↔
    rangeEnd address.toNat length.toNat < 2 ^ 64 ∨
      ∀ va, va < 2 ^ 64 → (rangeOf address length).1 ≤ va → (rangeOf address length).2 ≤ va →
        g (old va) = old va := by
  have pos : 0 < length.toNat := by
    rw [Nat.pos_iff_ne_zero]
    simpa [BitVec.toNat_eq] using some_
  simp only [ActsOnPages, pageMeets_iff pos, rangeOf_eq] at after ⊢
  generalize rangeEnd address.toNat length.toNat = E at after ⊢
  rcases Nat.lt_or_ge E (2 ^ 64) with small | large
  · rw [Nat.mod_eq_of_lt small] at after
    refine ⟨fun _ => .inl small, fun _ va => ⟨fun inside => ?_, fun outside => ?_⟩⟩
    · rw [after, if_pos inside]
    · rw [after, if_neg outside]
  constructor
  · refine fun right => .inr fun va fits low high => ?_
    have := (right (BitVec.ofNat 64 va)).1
    rw [BitVec.toNat_ofNat, Nat.mod_eq_of_lt fits] at this
    rw [← this ⟨low, Nat.lt_of_lt_of_le fits large⟩, after, if_neg]
    exact fun inside => Nat.not_lt.mpr high inside.2
  · rintro (small | harmless) va
    · exact absurd small (Nat.not_lt.mpr large)
    refine ⟨fun inside => ?_, fun outside => ?_⟩
    · rw [after]
      split_ifs with acted
      · rfl
      refine (harmless va.toNat va.isLt inside.1 ?_).symm
      exact Nat.not_lt.mp fun less => acted ⟨inside.1, less⟩
    · rw [after, if_neg]
      exact fun acted => outside ⟨acted.1, Nat.lt_of_lt_of_le va.isLt large⟩

theorem harmless_iff (laid : Laid region zs) (empty : g none = none) {P : VmRegion → Prop}
    (fixes : ∀ r va, g (some (r.mapping va)) = some (r.mapping va) ↔ P r) :
    (∀ va, va < 2 ^ 64 → a ≤ va → e ≤ va → g (view (zs.map region) va) = view (zs.map region) va) ↔
    ∀ p ∈ zs, (region p).limit ≤ max a e ∨ P (region p) := by
  constructor
  · intro harmless p member
    by_contra wrong
    obtain ⟨beyond, not⟩ := not_or.mp wrong
    have proper := laid.proper p member
    have := proper.base_lt
    have := proper.fits
    have inside : (region p).Contains ((region p).limit - 1) := ⟨by omega, by omega⟩
    have same := harmless ((region p).limit - 1) (by omega) (by omega) (by omega)
    rw [view_of_mem laid member inside] at same
    exact not ((fixes _ _).mp same)
  · intro bounded va _ low high
    by_cases mapped : ∃ p ∈ zs, (region p).Contains va
    · obtain ⟨p, member, inside⟩ := mapped
      rw [view_of_mem laid member inside]
      refine (fixes _ va).mpr ((bounded p member).resolve_left fun below => ?_)
      have := inside.2
      omega
    · rw [view_eq_none fun p member inside => mapped ⟨p, member, inside⟩, empty]

/-- The protection of a page becomes `protection`, if it is mapped. -/
def reprotect (protection : BitVec 32) (m : Option Mapping) : Option Mapping :=
  m.map fun m => { m with prot := protection }

theorem length_ne_of_ok {act : RegionState → RegionPtr → Prog RegionState}
    (result : s.forRange act address length fuel = some (t, .ok)) : length ≠ 0 := by
  rintro rfl
  cases result

theorem vmUnmapRegion_pages (h : s.InOrder zs)
    (result : s.vmUnmapRegion address length fuel = some (t, .ok)) :
    ∃ zs', Listed t.next t.prev t.regions zs' ∧
      (ActsOnPages (fun _ => none) address length (view (zs.map s.region))
        (view (zs'.map t.region)) ↔
      rangeEnd address.toNat length.toNat < 2 ^ 64 ∨ ∀ p ∈ zs, (s.region p).limit ≤
        max (pageDown address.toNat) (rangeEnd address.toNat length.toNat % 2 ^ 64)) := by
  obtain ⟨zs', order, after⟩ := vmUnmapRegion_inOrder h fuel _ result rfl
  have views := view_after after order.laid (g := fun _ => none) rfl (fun _ _ => rfl) fun _ _ => rfl
  have harmless := harmless_iff h.laid (g := fun _ => none) rfl (P := fun _ => False)
    (fun _ _ => by simp) (a := (rangeOf address length).1) (e := (rangeOf address length).2)
  refine ⟨zs', order.list, ((actsOnPages_iff (length_ne_of_ok result) views).trans
    (or_congr_right harmless)).trans ?_⟩
  rw [rangeOf_eq]
  simp only [or_false]

theorem vmProtectRegion_pages (h : s.Intact zs) {protection : BitVec 32}
    (result : s.vmProtectRegion address length protection fuel = some (t, .ok)) :
    ∃ zs', Listed t.next t.prev t.regions zs' ∧
      (ActsOnPages (reprotect protection) address length (view (zs.map s.region))
        (view (zs'.map t.region)) ↔
      rangeEnd address.toNat length.toNat < 2 ^ 64 ∨ ∀ p ∈ zs, (s.region p).limit ≤
        max (pageDown address.toNat) (rangeEnd address.toNat length.toNat % 2 ^ 64) ∨
          (s.region p).prot = protection) := by
  obtain ⟨zs', evolves, after⟩ := (vmProtectRegion_spec h).post result
  have views := view_after (after rfl) evolves.intact.laid (g := reprotect protection) rfl
    (fun x y => by cases x <;> rfl) fun r va => by
      rw [view_singleton, view_singleton]
      change (if r.Contains va then _ else _) = _
      split_ifs <;> rfl
  have harmless := harmless_iff h.laid (g := reprotect protection) rfl (P := (·.prot = protection))
    (fun r va => by simp [reprotect, mapping, eq_comm]) (a := (rangeOf address length).1)
    (e := (rangeOf address length).2)
  refine ⟨zs', evolves.intact.list, ((actsOnPages_iff (length_ne_of_ok result) views).trans
    (or_congr_right harmless)).trans ?_⟩
  rw [rangeOf_eq]

end RegionState

namespace VmSpaces

open RegionState

variable {s : VmSpaces}

/-- In every run without a region freed twice, `vm_unmap_region` and `vm_protect_region` act on
exactly the pages that meet the range, iff the range does not reach the last page of memory or
nothing that they miss is mapped (or has another protection). -/
theorem range_calls_act_on_pages {mem : RegionMem}
    (run : Run Calls (fun s call => ¬ s.FreesTwice call) ⟨mem, fun _ => none⟩ s) {space : Nat}
    {as : AspaceIndex} (found : s.spaces space = some as) (answers : List (Option RegionPtr))
    (address length : BitVec 64) (protection : BitVec 32) (fuel : Nat) :
    ∃ zs, Listed s.mem.next s.mem.prev as.regions zs ∧
      (∀ t, (s.enter as answers).vmUnmapRegion address length fuel = some (t, .ok) →
        ∃ zs', Listed t.next t.prev t.regions zs' ∧
          (ActsOnPages (fun _ => none) address length (VmRegion.view (zs.map s.mem.region))
            (VmRegion.view (zs'.map t.region)) ↔
          rangeEnd address.toNat length.toNat < 2 ^ 64 ∨ ∀ p ∈ zs, (s.mem.region p).limit ≤
            max (pageDown address.toNat) (rangeEnd address.toNat length.toNat % 2 ^ 64))) ∧
      ∀ t, (s.enter as answers).vmProtectRegion address length protection fuel = some (t, .ok) →
        ∃ zs', Listed t.next t.prev t.regions zs' ∧
          (ActsOnPages (reprotect protection) address length (VmRegion.view (zs.map s.mem.region))
            (VmRegion.view (zs'.map t.region)) ↔
          rangeEnd address.toNat length.toNat < 2 ^ 64 ∨ ∀ p ∈ zs, (s.mem.region p).limit ≤
            max (pageDown address.toNat) (rangeEnd address.toNat length.toNat % 2 ^ 64) ∨
              (s.mem.region p).prot = protection) := by
  obtain ⟨lists, sound⟩ := Sound.run run
  have intact := sound.entered found answers
  exact ⟨lists space, intact.list, fun _ result => vmUnmapRegion_pages intact.toInOrder result,
    fun _ result => vmProtectRegion_pages intact result⟩

/-- The middle page of a region of three pages is unmapped. -/
theorem range_calls_act_on_pages_middle : ∃ (s : VmSpaces) (as : AspaceIndex) (t : RegionState),
    Run Calls (fun s call => ¬ s.FreesTwice call) ⟨blankMem, fun _ => none⟩ s ∧
      s.spaces 0 = some as ∧
      (s.enter as [some 1, some 2]).vmUnmapRegion 0x2000 0x1000 4 = some (t, .ok) ∧
      ∃ zs zs', Listed s.mem.next s.mem.prev as.regions zs ∧ Listed t.next t.prev t.regions zs' ∧
        ActsOnPages (fun _ => none) 0x2000 0x1000 (VmRegion.view (zs.map s.mem.region))
          (VmRegion.view (zs'.map t.region)) := by
  have now : outcome 4 [.create 0, .call 0 [some 0] (.reserve 0x1000 0x3000 0 0 .none)]
      (fun s => (vmUnmapRegion { s with kmallocs := [some 1, some 2] } 0x2000 0x1000 4).map (·.2)) =
      some (some .ok) := by decide +kernel
  obtain ⟨s, as, run, found, eq⟩ := exists_run now (fun s call => ¬ s.FreesTwice call)
    (by simp [FreesTwice, RegionState.FreesTwice])
  obtain ⟨⟨t, status⟩, result, rfl⟩ := map_eq_some_iff.mp eq
  obtain ⟨zs, list, unmap, -⟩ :=
    range_calls_act_on_pages run found [some 1, some 2] 0x2000 0x1000 0 4
  obtain ⟨zs', list', iff⟩ := unmap t result
  exact ⟨s, as, t, run, found, result, zs, zs', list, list', iff.mpr (.inl (by decide))⟩

/-- The last but one page of memory is mapped. To unmap it with the last one succeeds, and it stays
mapped. -/
theorem unmap_end_of_memory : ∃ (s : VmSpaces) (as : AspaceIndex) (t : RegionState),
    Run Calls (fun s call => ¬ s.FreesTwice call) ⟨blankMem, fun _ => none⟩ s ∧
      s.spaces 0 = some as ∧
      (s.enter as []).vmUnmapRegion 0xFFFFFFFFFFFFE000 0x2000 4 = some (t, .ok) ∧
      ∃ zs zs', Listed s.mem.next s.mem.prev as.regions zs ∧ Listed t.next t.prev t.regions zs' ∧
        ¬ ActsOnPages (fun _ => none) 0xFFFFFFFFFFFFE000 0x2000
          (VmRegion.view (zs.map s.mem.region)) (VmRegion.view (zs'.map t.region)) := by
  have now : outcome 4 [.create 0, .call 0 [some 0] (.reserve 0xFFFFFFFFFFFFE000 0x1000 0 0 .none)]
      (fun s => (s.vmUnmapRegion 0xFFFFFFFFFFFFE000 0x2000 4).map fun out =>
        (out.2, [s.regions, s.next 0, s.prev 0, out.1.regions, out.1.next 0, out.1.prev 0,
          some (out.1.region 0).base, some (out.1.region 0).length])) =
      some (some (.ok, [some 0, none, none, some 0, none, none, some 0xFFFFFFFFFFFFE000,
        some 0x1000])) := by decide +kernel
  obtain ⟨s, as, run, found, eq⟩ := exists_run now (fun s call => ¬ s.FreesTwice call)
    (by simp [FreesTwice, RegionState.FreesTwice])
  obtain ⟨⟨t, status⟩, result, eq'⟩ := map_eq_some_iff.mp eq
  simp only [Prod.mk.injEq, cons.injEq, and_true, some.injEq] at eq'
  obtain ⟨rfl, head, next, prev, head', next', prev', base, length⟩ := eq'
  refine ⟨s, as, t, run, found, result, [0], [0], listed_singleton head next prev,
    listed_singleton head' next' prev', fun right => ?_⟩
  have gone := (right 0xFFFFFFFFFFFFE000).1 ⟨0xFFFFFFFFFFFFE000, by decide, by decide, rfl⟩
  have there : (t.region 0).Contains 0xFFFFFFFFFFFFE000 := by
    simp [VmRegion.Contains, VmRegion.limit, base, length]
  simp [VmRegion.view, there] at gone

end VmSpaces

end BharatOS
