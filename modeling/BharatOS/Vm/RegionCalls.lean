import BharatOS.Vm.RegionLookup

/-!
# Calls that attach, detach and split regions

Each call takes intact regions to intact regions. A split shortens a region before it puts the rest
in: the greatest ends are then too large at the region and above it, where the insertion computes
them again.
-/

namespace BharatOS

open VmRegion Function List

open ColorTree TreeLinks Prog

namespace VmRegion

/-- The part of a region before `a`. -/
def left (r : VmRegion) (a : Nat) : VmRegion := { r with length := a - r.base }

/-- The part of a region from `a` on. -/
def right (r : VmRegion) (a : Nat) : VmRegion := { r with
  base := a
  length := r.limit - a
  objectOffset := wrap64 (r.objectOffset + (a - r.base)) }

variable {r : VmRegion} {a : Nat}

theorem left_limit (low : r.base < a) : (r.left a).limit = a := by
  simp only [left, limit]
  omega

theorem right_limit (high : a < r.limit) : (r.right a).limit = r.limit := by
  simp only [right, limit] at *
  omega

theorem Proper.left (h : r.Proper) (low : r.base < a) (high : a < r.limit) : (r.left a).Proper where
  pos := Nat.sub_pos_of_lt low
  fits := by
    rw [left_limit low]
    exact Nat.lt_trans high h.fits
  offset := h.offset

theorem Proper.right (h : r.Proper) (high : a < r.limit) : (r.right a).Proper where
  pos := Nat.sub_pos_of_lt high
  fits := by
    rw [right_limit high]
    exact h.fits
  offset := Nat.mod_lt _ (by decide)

end VmRegion

namespace RegionState

variable {s t u : RegionState} {xs ys zs zs' : List RegionPtr} {z new : RegionPtr} {a : Nat}

theorem kmalloc_cases (s : RegionState) :
    (∃ rest, s.kmalloc = ({ s with kmallocs := rest }, none)) ∨
    ∃ rest p, s.live p = false ∧ s.kmalloc =
      ({ s with kmallocs := rest, live := update s.live p true }, some p) := by
  unfold kmalloc
  split
  · split_ifs with taken
    · exact .inl ⟨_, rfl⟩
    · exact .inr ⟨_, _, by simpa using taken, rfl⟩
  · exact .inl ⟨_, rfl⟩
  · exact .inl ⟨_, rfl⟩

/-- The state once a new region has been allocated and filled in. -/
def allocated (s : RegionState) (rest : List (Option RegionPtr)) (p : RegionPtr)
    (region : RegionPtr → VmRegion) : RegionState :=
  { s with kmallocs := rest, live := update s.live p true, region := region }

theorem removeRegion_evolves (h : s.Intact (xs ++ z :: ys)) :
    Returns (s.removeRegion z) fun t => Evolves s (xs ++ z :: ys) t (xs ++ ys) ∧
      t.region = s.region ∧ t.next z = s.next z ∧ t.prev z = s.prev z := by
  refine (removeRegion_spec h).mono ?_
  rintro t ⟨intact, region, links, elsewhere⟩
  refine ⟨⟨intact, fun p member => .inl ?_, fun q out _ => elsewhere q out⟩, region, links⟩
  exact ((sublist_cons_self z ys).append_left xs).subset member

theorem pageDown_le (n : Nat) : pageDown n ≤ n := Nat.div_mul_le_self n pageSize

theorem wrap64_lt (n : Nat) : wrap64 n < 2 ^ 64 := Nat.mod_lt n (by decide)

theorem pageUp_lt (n : Nat) : pageUp n < 2 ^ 64 := Nat.lt_of_le_of_lt (pageDown_le _) (wrap64_lt _)

section

variable (h : s.Intact zs)

include h

theorem Intact.answers (rest : List (Option RegionPtr)) :
    Evolves s zs { s with kmallocs := rest } zs :=
  ⟨⟨⟨h.list, h.laid, h.live⟩, by
    obtain ⟨T, n, tree, rest⟩ := h.tree
    exact ⟨T, n, ⟨⟨tree.root, tree.rep, tree.nodup⟩, tree.tops⟩, rest⟩, h.count⟩,
    fun _ member => .inl member, fun _ _ _ => ⟨⟨fun _ => rfl, rfl, rfl⟩, rfl, rfl, rfl, rfl, rfl⟩⟩

theorem Intact.fresh (free : s.live new = false) : new ∉ zs := by
  intro member
  rw [h.live new member] at free
  cases free

omit h in
/-- The region before the new one may have become shorter. -/
theorem insertNew_spec (h : s.Intact (xs ++ ys)) (free : s.live new = false)
    {region : RegionPtr → VmRegion} (laid : Laid region (xs ++ new :: ys))
    (same : ∀ q, q ≠ new → xs.getLast? ≠ some q → region q = s.region q)
    (rest : List (Option RegionPtr)) :
    Returns ((s.allocated rest new region).insertRegionSorted new) fun t =>
      Evolves s (xs ++ ys) t (xs ++ new :: ys) ∧ t.region = region := by
  obtain ⟨T, n, tree, balanced, nodes⟩ := h.tree
  have fresh := h.fresh free
  have ready : (s.allocated rest new region).ReadyToInsert xs new ys := by
    refine ⟨⟨T, n, ⟨tree.root, tree.rep, tree.nodup⟩, balanced, nodes, ?_⟩, h.list, h.count, laid, ?_⟩
    · rintro path rfl rfl hop member
      have perm : (fill path .nil).nodes.Perm (along path) := nodes_fill_perm path .nil
      obtain ⟨-, tops⟩ := tops_fill.mp tree.tops
      refine (TopsBeside.of_along tops hop member).revalue fun q beside => ?_
      have inTree := perm.mem_iff.mpr (sibling_along member beside)
      have ne : q ≠ new := fun eq => fresh (nodes ▸ eq ▸ inTree)
      have notLast : (before path).getLast? ≠ some q := fun last =>
        last_before_away last (perm.nodup_iff.mp tree.nodup) member beside
      simp only [stopAt, allocated, same q ne notLast]
    · intro p member
      by_cases eq : p = new
      · simp [allocated, eq]
      simp only [allocated, update_of_ne eq]
      exact h.live p (by simpa [eq] using member)
  refine (insertRegionSorted_spec ready).mono ?_
  rintro t ⟨intact, regions, live, -, elsewhere⟩
  refine ⟨⟨intact, fun p member => ?_, fun q out alive => ?_⟩, regions⟩
  · by_cases eq : p = new
    · exact .inr (eq ▸ free)
    · exact .inl (by simpa [eq] using member)
  · have ne : q ≠ new := by
      rintro rfl
      rw [free] at alive
      cases alive
    have notLast : xs.getLast? ≠ some q := fun last =>
      out (mem_append_left _ (mem_of_getLast? last))
    obtain ⟨links, maxEnd, next, prev, data, lives⟩ := elsewhere q (by simpa [ne] using out)
    exact ⟨links, maxEnd, next, prev, data.trans (same q ne notLast),
      lives.trans (update_of_ne ne _ _)⟩

/-! ## Attach and detach -/

/-- Among the regions `zs'` there is a new one, where none of the regions `zs` was. -/
structure Attached (s : RegionState) (zs : List RegionPtr) (t : RegionState)
    (zs' : List RegionPtr) (p : RegionPtr) (base length : Nat) : Prop where
  listed : p ∈ zs'
  fresh : p ∉ zs
  starts : (t.region p).base = base
  spans : (t.region p).length = length
  some_ : length ≠ 0
  apart : ∀ q ∈ zs, ¬ (s.region q).Meets base (base + length)

theorem aspaceRegionAttach_spec (base length : BitVec 64)
    (prot mapFlags : BitVec 32) (inherit : VmInherit) (object : Option Nat)
    (objectOffset : BitVec 64) :
    Returns (s.aspaceRegionAttach base length prot mapFlags inherit object objectOffset) fun out =>
      ∃ zs', Evolves s zs out.1 zs' ∧ (VmStatus.of out.2 = .ok → ∃ p, out.2 = .ok p ∧
        Attached s zs out.1 zs' p (pageDown base.toNat) (pageUp length.toNat)) := by
  unfold aspaceRegionAttach
  split_ifs
  · exact .pure ⟨zs, .refl h, nofun⟩
  · exact .pure ⟨zs, .refl h, nofun⟩
  have small : pageDown base.toNat < 2 ^ 64 := Nat.lt_of_le_of_lt (pageDown_le _) base.isLt
  have short := pageUp_lt length.toNat
  generalize pageDown base.toNat = base at small ⊢
  generalize pageUp length.toNat = length at short ⊢
  dsimp only
  split_ifs with wraps
  · exact .pure ⟨zs, .refl h, nofun⟩
  refine .bind (aspaceCheckOverlap_spec h small short) fun overlap iff => ?_
  split_ifs with taken
  · exact .pure ⟨zs, .refl h, nofun⟩
  rw [iff] at taken
  obtain ⟨pos, fits, apart⟩ : length ≠ 0 ∧ base + length < 2 ^ 64 ∧
      ∀ p ∈ zs, ¬ (s.region p).Meets base (base + length) := by
    simpa only [not_or, not_exists, not_and, Nat.not_le] using taken
  rcases s.kmalloc_cases with ⟨rest, eq⟩ | ⟨rest, new, free, eq⟩
  · rw [eq]
    exact .pure ⟨zs, h.answers rest, nofun⟩
  rw [eq]
  let r : VmRegion := ⟨base, length, prot, mapFlags, 0, inherit, object, objectOffset.toNat⟩
  have proper : r.Proper := ⟨Nat.pos_of_ne_zero pos, fits, objectOffset.isLt⟩
  obtain ⟨xs, ys, rfl, low, high⟩ := h.laid.exists_place (r := r) fun p member => by
    have := apart p member
    simp only [VmRegion.Meets, not_and, Nat.not_lt] at this
    exact (Nat.lt_or_ge (s.region p).base (base + length)).imp this id
  refine .bind (insertNew_spec h free (h.laid.insert (h.fresh free) proper low high)
    (fun q ne _ => update_of_ne ne _ _) rest) ?_
  rintro t ⟨evolves, regions⟩
  have data : t.region new = r := by rw [regions, update_self]
  exact .pure ⟨_, evolves, fun _ => ⟨new, rfl, by simp, h.fresh free, by rw [data], by rw [data],
    pos, apart⟩⟩

theorem findBase_spec (base : Nat) :
    Returns (s.findBase base) fun found => ∀ c, found = some c → c ∈ zs := by
  refine .loop (fun k curr => ∃ done todo, zs = done ++ todo ∧ todo.length = k ∧
    curr = todo.head?) ?_ ⟨[], zs, rfl, rfl, h.list.head⟩
  rintro k _ ⟨done, todo, rfl, rfl, rfl⟩
  cases todo with
  | nil => exact .pure nofun
  | cons c rest =>
    simp only [head?_cons]
    split_ifs
    · refine .pure ?_
      simp
    · exact .pure ⟨rest.length, by simp, done ++ [c], rest, by simp, rfl, h.list.next_eq⟩

theorem aspaceRegionDetach_spec (base : BitVec 64) :
    Returns (s.aspaceRegionDetach base) fun out => ∃ zs', Evolves s zs out.1 zs' := by
  unfold aspaceRegionDetach
  split_ifs
  · exact .pure ⟨zs, .refl h⟩
  refine .bind (findBase_spec h _) fun found member => ?_
  cases found with
  | none => exact .pure ⟨zs, .refl h⟩
  | some c =>
    obtain ⟨xs, ys, rfl⟩ := append_of_mem (member c rfl)
    refine .bind (removeRegion_evolves h) ?_
    rintro t ⟨evolves, -⟩
    exact .pure ⟨_, evolves⟩

theorem vmMapRegion_spec {request : VmMapRequest} {anon : Option Nat} :
    Returns (s.vmMapRegion request anon) fun out => ∃ zs', Evolves s zs out.1 zs' ∧
      (out.2 = .ok → ∃ p, Attached s zs out.1 zs' p (pageDown request.hint.toNat)
        (pageUp request.length.toNat)) := by
  unfold vmMapRegion
  by_cases refused : s.state.refused
  · rw [if_pos refused]
    exact .pure ⟨zs, .refl h, nofun⟩
  dsimp only
  generalize (if request.object = none ∧ request.type = .anon then anon else request.object) = object
  split_ifs
  · exact .pure ⟨zs, .refl h, nofun⟩
  refine .bind (aspaceRegionAttach_spec h ..) ?_
  rintro ⟨t, result⟩ ⟨zs', evolves, attached⟩
  refine .pure ⟨zs', evolves, fun ok => ?_⟩
  obtain ⟨p, -, new⟩ := attached ok
  exact ⟨p, new⟩

end

/-! ## Splits -/

/-- The regions once `z` is cut at `a`. -/
def cutAt (region : RegionPtr → VmRegion) (z new : RegionPtr) (a : Nat) : RegionPtr → VmRegion :=
  update (update region new ((region z).right a)) z ((region z).left a)

section

variable {region : RegionPtr → VmRegion}

theorem cutAt_old : cutAt region z new a z = (region z).left a := update_self ..

theorem cutAt_new (ne : new ≠ z) : cutAt region z new a new = (region z).right a := by
  rw [cutAt, update_of_ne ne, update_self]

theorem cutAt_other {q : RegionPtr} (notOld : q ≠ z) (notNew : q ≠ new) :
    cutAt region z new a q = region q := by
  rw [cutAt, update_of_ne notOld, update_of_ne notNew]

/-- The two parts take the place of the region. -/
theorem laid_cutAt (h : Laid region (xs ++ z :: ys)) (fresh : new ∉ xs ++ z :: ys)
    (low : (region z).base < a) (high : a < (region z).limit) :
    Laid (cutAt region z new a) ((xs ++ [z]) ++ new :: ys) := by
  have ne : z ≠ new := fun eq => fresh (by simp [eq])
  have proper := h.proper z (by simp)
  obtain ⟨alone, -⟩ := nodup_cons.mp (nodup_middle.mp h.nodup)
  have shorter : Laid (update region z ((region z).left a)) ((xs ++ [z]) ++ ys) := by
    have := h.remove.insert alone (proper.left low high) h.before_le fun p member => by
      have := h.le_after p member
      rw [left_limit low]
      omega
    simpa using this
  have other : ∀ p ∈ xs ++ ys, update region z ((region z).left a) p = region p := by
    intro p member
    have away : p ≠ z := fun eq => alone (eq ▸ member)
    exact update_of_ne away _ _
  rw [cutAt, update_comm ne.symm]
  refine shorter.insert (by simpa using fresh) (proper.right high) (fun p member => ?_)
    fun p member => ?_
  · rcases mem_append.mp member with member | member
    · rw [other p (by simp [member])]
      have := h.before_le p member
      simp only [right]
      omega
    · obtain rfl := mem_singleton.mp member
      rw [update_self, left_limit low]
      exact Nat.le_refl a
  · rw [other p (by simp [member]), right_limit high]
    exact h.le_after p member

end

/-- The regions `zs` are as before. -/
def Untouched (zs : List RegionPtr) (s t : RegionState) : Prop := ∀ p ∈ zs, t.region p = s.region p

theorem Untouched.refl : Untouched zs s s := fun _ _ => rfl

theorem Untouched.trans (h : Untouched zs s t) (h' : Untouched zs t u) : Untouched zs s u :=
  fun p member => (h' p member).trans (h p member)

theorem Untouched.mono (h : Untouched zs s t) (sub : zs' ⊆ zs) : Untouched zs' s t :=
  fun p member => h p (sub member)

theorem Untouched.map_eq (h : Untouched zs s t) : zs.map t.region = zs.map s.region :=
  map_congr_left h

theorem untouched_cutAt (nodup : (xs ++ z :: ys).Nodup) (fresh : new ∉ xs ++ z :: ys)
    (region : t.region = cutAt s.region z new a) : Untouched (xs ++ ys) s t := by
  intro p member
  obtain ⟨alone, -⟩ := nodup_cons.mp (nodup_middle.mp nodup)
  have notOld : p ≠ z := fun eq => alone (eq ▸ member)
  have notNew : p ≠ new := fun eq =>
    fresh (((sublist_cons_self z ys).append_left xs).subset (eq ▸ member))
  rw [region, cutAt_other notOld notNew]

theorem aspaceSplitRegion_cases (proper : (s.region z).Proper) (live : s.live z = true) :
    (∃ rest, s.aspaceSplitRegion z a = pure ({ s with kmallocs := rest }, false)) ∨
    (s.region z).base < a ∧ a < (s.region z).limit ∧ ∃ rest new, s.live new = false ∧
      s.aspaceSplitRegion z a = do
        let t ← (s.allocated rest new (cutAt s.region z new a)).insertRegionSorted new
        return (t, true) := by
  unfold aspaceSplitRegion
  dsimp only
  rw [proper.stop_eq]
  split_ifs with outside
  · exact .inl ⟨s.kmallocs, rfl⟩
  obtain ⟨low, high⟩ : (s.region z).base < a ∧ a < (s.region z).limit := by
    simpa only [not_or, Nat.not_le] using outside
  rcases s.kmalloc_cases with ⟨rest, eq⟩ | ⟨rest, new, free, eq⟩
  · rw [eq]
    exact .inl ⟨rest, rfl⟩
  have length : wrap64 ((s.region z).base + (s.region z).length + 2 ^ 64 - a) =
      (s.region z).limit - a := by
    have := proper.fits
    unfold wrap64 limit at *
    omega
  have ne : z ≠ new := by
    rintro rfl
    exact Bool.noConfusion (live.symm.trans free)
  rw [eq]
  simp only [length, setRegion, update_of_ne ne]
  exact .inr ⟨low, high, rest, new, free, rfl⟩

theorem aspaceSplitRegion_spec (h : s.Intact (xs ++ z :: ys)) :
    Returns (s.aspaceSplitRegion z a) fun (t, split) =>
      if split then (s.region z).base < a ∧ a < (s.region z).limit ∧ ∃ new,
        Evolves s (xs ++ z :: ys) t (xs ++ z :: new :: ys) ∧ Untouched (xs ++ ys) s t ∧
        t.region z = (s.region z).left a ∧ t.region new = (s.region z).right a
      else Evolves s (xs ++ z :: ys) t (xs ++ z :: ys) := by
  have member : z ∈ xs ++ z :: ys := by simp
  rcases aspaceSplitRegion_cases (h.laid.proper z member) (h.live z member) with
    ⟨rest, eq⟩ | ⟨low, high, rest, new, free, eq⟩
  · rw [eq]
    exact .pure (h.answers rest)
  have fresh := h.fresh free
  have ne : new ≠ z := fun eq => fresh (by simp [eq])
  have whole : xs ++ z :: ys = (xs ++ [z]) ++ ys := by simp
  rw [eq]
  refine .bind (insertNew_spec (whole ▸ h) free (laid_cutAt h.laid fresh low high)
    (fun q notNew notLast => cutAt_other (by simpa [eq_comm] using notLast) notNew) rest) ?_
  rintro t ⟨evolves, region⟩
  exact .pure ⟨low, high, new, by simpa using evolves, untouched_cutAt h.laid.nodup fresh region,
    by rw [region, cutAt_old], by rw [region, cutAt_new ne]⟩

end RegionState

end BharatOS
