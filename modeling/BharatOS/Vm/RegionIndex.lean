import BharatOS.Vm.RegionRange

/-!
# The regions of all address spaces stay intact

`vm_unmap_region` is the exception: where the range begins inside a region and reaches its end, the
part that is cut off is removed and freed twice.
-/

namespace BharatOS

open Function Option List

open ColorTree TreeLinks Prog

namespace RegionState

variable {s t : RegionState} {zs srcs : List RegionPtr}

/-! ## Cloning -/

/-- The regions that a clone has of the regions `rs`. -/
def inherited (rs : List VmRegion) : List VmRegion := rs.filter (·.inherit ≠ .none)

theorem cloneRegions_spec (h : s.Intact []) {head : Option RegionPtr}
    (list : Listed s.next s.prev head srcs) (laid : Laid s.region srcs)
    (live : ∀ p ∈ srcs, s.live p = true) :
    Returns (s.cloneRegions head) fun (t, enough) => ∃ zs, Evolves s [] t zs ∧
      (enough = true → zs.map t.region = inherited (srcs.map s.region)) := by
  refine .loop (fun k now => ∃ done todo zs, srcs = done ++ todo ∧ now.2 = todo.head? ∧
    Evolves s [] now.1 zs ∧ zs.map now.1.region = inherited (done.map s.region) ∧
    todo.length = k) ?_ ⟨[], srcs, [], rfl, list.head, .refl h, rfl, rfl⟩
  rintro k ⟨t, curr⟩ ⟨done, todo, zs, whole, here, evolves, copied, rfl⟩
  dsimp only at here evolves copied ⊢
  subst whole here
  cases todo with
  | nil => exact .pure ⟨zs, evolves, fun _ => by simpa using copied⟩
  | cons c rest =>
    have source : ∀ {u us}, Evolves s [] u us → SameRecord s u c := fun evolves =>
      evolves.kept c (by simp) (live c (by simp))
    have next : ∀ {u us}, Evolves s [] u us → u.next c = rest.head? := fun evolves =>
      (source evolves).next.trans list.next_eq
    simp only [head?_cons, cloneRound, (source evolves).region]
    split_ifs with skip
    · refine .pure ⟨rest.length, by simp, done ++ [c], rest, zs, by simp, next evolves, evolves, ?_,
        rfl⟩
      simp [copied, inherited, skip]
    rcases t.kmalloc_cases with ⟨answers, eq⟩ | ⟨answers, new, free, eq⟩
    · rw [eq]
      exact .pure ⟨zs, evolves.trans (evolves.intact.answers answers), nofun⟩
    rw [eq]
    have fresh : new ∉ zs ++ [] := by simpa using evolves.intact.fresh free
    have laid' : Laid (update t.region new (s.region c)) (zs ++ [new]) := by
      refine Laid.insert (by simpa using evolves.intact.laid) fresh (laid.proper c (by simp))
        (fun p member => ?_) nofun
      have : t.region p ∈ inherited (done.map s.region) := copied ▸ List.mem_map_of_mem member
      obtain ⟨q, inDone, eq⟩ := List.mem_map.mp (mem_of_mem_filter this)
      exact eq ▸ laid.before_le q inDone
    have intact : t.Intact (zs ++ []) := by simpa using evolves.intact
    simp only [setRegion, (source evolves).region]
    refine .bind (insertNew_spec intact free laid' (fun q ne _ => update_of_ne ne _ _) answers) ?_
    rintro u ⟨evolves', region⟩
    have evolves' := evolves.trans (by simpa using evolves')
    refine .pure ⟨rest.length, by simp, done ++ [c], rest, zs ++ [new], by simp, next evolves',
      evolves', ?_, rfl⟩
    have others : zs.map u.region = zs.map t.region := map_congr_left fun p member => by
      have ne : p ≠ new := fun eq => fresh (by simpa [eq] using member)
      rw [region, update_of_ne ne]
    have last : u.region new = s.region c := by rw [region, update_self]
    rw [map_append, others, copied]
    simp [inherited, last, skip]

theorem freeRegions_spec (h : s.Intact zs) :
    Returns s.freeRegions fun t => ∀ q, q ∉ zs → SameRecord s t q := by
  refine .loop (fun k now => ∃ done todo, zs = done ++ todo ∧ now.2 = todo.head? ∧
    todo.length = k ∧ now.1 = { s with live := now.1.live } ∧
    ∀ q, q ∉ zs → now.1.live q = s.live q) ?_
    ⟨[], zs, rfl, h.list.head, rfl, rfl, fun _ _ => rfl⟩
  rintro k ⟨t, curr⟩ ⟨done, todo, whole, here, rfl, same, live⟩
  dsimp only at here same live ⊢
  subst whole here
  cases todo with
  | nil =>
    refine .pure fun q out => ?_
    rw [same]
    exact ⟨⟨fun _ => rfl, rfl, rfl⟩, rfl, rfl, rfl, rfl, live q out⟩
  | cons c rest =>
    have next : t.next c = rest.head? := by
      rw [same]
      exact h.list.next_eq
    refine .pure ⟨rest.length, by simp, done ++ [c], rest, by simp, next, rfl, ?_, fun q out => ?_⟩
    · rw [kfree, same]
    · have ne : q ≠ c := by
        rintro rfl
        exact out (by simp)
      exact (update_of_ne ne _ _).trans (live q out)

/-! ## Calls on one address space -/

/-- The range begins inside a region of the address space and reaches its end. -/
def FreesTwice (s : RegionState) : AspaceCall → Prop
  | .unmap address length => length ≠ 0 ∧ ¬ s.state.refused ∧ ∃ zs,
      Listed s.next s.prev s.regions zs ∧ ∃ p ∈ zs,
        (s.region p).EndsWithin (rangeOf address length).1 (rangeOf address length).2
  | _ => False

theorem call_spec (h : s.Intact zs) {call : AspaceCall} (safe : ¬ s.FreesTwice call) :
    Returns (s.call call) fun out => ∃ zs', Evolves s zs out.1 zs' := by
  cases call with
  | mark state =>
    obtain ⟨T, n, tree, shape⟩ := h.tree
    exact .pure ⟨zs, ⟨⟨h.list, h.laid, h.live⟩,
      ⟨T, n, ⟨⟨tree.root, tree.rep, tree.nodup⟩, tree.tops⟩, shape⟩, h.count⟩, fun _ member => .inl member,
      fun _ _ _ => ⟨⟨fun _ => rfl, rfl, rfl⟩, rfl, rfl, rfl, rfl, rfl⟩⟩
  | reserve base length prot mapFlags inherit | attach base length prot mapFlags inherit object objectOffset =>
    refine .bind (aspaceRegionAttach_spec h ..) ?_
    exact fun _ ⟨zs', evolves, _⟩ => .pure ⟨zs', evolves⟩
  | detach base => exact aspaceRegionDetach_spec h base
  | map request anon =>
    exact (vmMapRegion_spec h).mono fun _ ⟨zs', evolves, _⟩ => ⟨zs', evolves⟩
  | unmap address length =>
    refine (vmUnmapRegion_spec h fun some_ open_ p member ends => ?_).mono ?_
    · exact safe ⟨some_, open_, zs, h.list, p, member, ends⟩
    · exact fun _ ⟨zs', evolves, _⟩ => ⟨zs', evolves⟩
  | protect address length protection =>
    refine (vmProtectRegion_spec h).mono ?_
    exact fun _ ⟨zs', evolves, _⟩ => ⟨zs', evolves⟩

end RegionState

namespace VmSpaces

open RegionState

variable {s t : VmSpaces} {lists : Nat → List RegionPtr}

/-- The regions of each address space are intact, and no region is in two of them. -/
structure Sound (s : VmSpaces) (lists : Nat → List RegionPtr) : Prop where
  intact : ∀ {space as}, s.spaces space = some as → (s.enter as []).Intact (lists space)
  apart : ∀ {i j as as'}, s.spaces i = some as → s.spaces j = some as' → i ≠ j →
    (lists i).Disjoint (lists j)

variable {as : AspaceIndex} {space fuel : Nat} {r : RegionState} {call : VmCall}

variable {answers : List (Option RegionPtr)}

theorem emptyAspace_intact (s : VmSpaces) (answers : List (Option RegionPtr)) :
    (s.enter emptyAspace answers).Intact [] where
  tree := ⟨.nil, 0, ⟨⟨rfl, trivial, nodup_nil⟩, trivial⟩, .nil, rfl⟩
  list := ⟨rfl, fun xs a ys eq => by simp at eq⟩
  count := rfl
  laid := ⟨nofun, .nil⟩
  live := nofun

/-- The address space of the call is there, and the one it makes is not. -/
def Applies (s : VmSpaces) : VmCall → Prop
  | .create space => s.spaces space = none
  | .call space _ _ => (s.spaces space).isSome
  | .clone space dst _ _ => (s.spaces space).isSome ∧ s.spaces dst = none

def FreesTwice (s : VmSpaces) : VmCall → Prop
  | .call space answers call =>
    ∃ as, s.spaces space = some as ∧ (s.enter as answers).FreesTwice call
  | _ => False

section

variable (h : s.Sound lists)

include h

theorem Sound.entered (found : s.spaces space = some as) (answers : List (Option RegionPtr)) :
    (s.enter as answers).Intact (lists space) := ((h.intact found).answers answers).intact

/-- Regions in use that a call does not know of. -/
theorem Sound.bystander {i : Nat} (found : s.spaces i = some as)
    (same : ∀ q ∈ lists i, SameRecord (s.enter as []) r q) (answers : List (Option RegionPtr)) :
    ({ r with toAspaceIndex := as, kmallocs := answers } : RegionState).Intact (lists i) := by
  refine ((h.intact found).congr (t := { r with toAspaceIndex := as }) (fun q member => ?_) rfl rfl
    rfl).answers answers |>.intact
  obtain ⟨links, maxEnd, next, prev, region, live⟩ := same q member
  exact ⟨links, maxEnd, next, prev, region, live⟩

/-- A call that changes one address space, or makes a new one. -/
theorem Sound.leave {zs zs' : List RegionPtr} (evolves : Evolves (s.enter as answers) zs r zs')
    (mine : ∀ {i as'}, i ≠ space → s.spaces i = some as' → (lists i).Disjoint zs) :
    (s.leave space r).Sound (update lists space zs') := by
  have strange : ∀ {i as'}, i ≠ space → s.spaces i = some as' → ∀ q ∈ lists i, q ∉ zs ∧
      s.mem.live q = true := fun other found q member =>
    ⟨fun inside => mine other found member inside, (h.intact found).live q member⟩
  have fresh : ∀ {i as'}, i ≠ space → s.spaces i = some as' → (lists i).Disjoint zs' := by
    intro i as' other found q member new
    obtain ⟨out, alive⟩ := strange other found q member
    rcases evolves.fresh q new with old | dead
    · exact out old
    · exact Bool.noConfusion (alive.symm.trans dead)
  have old : ∀ {i as'}, i ≠ space → (s.leave space r).spaces i = some as' →
      s.spaces i = some as' := fun other found => (update_of_ne other _ _).symm.trans found
  constructor
  · intro i as' found
    by_cases here : i = space
    · subst here
      obtain rfl : r.toAspaceIndex = as' := by simpa [VmSpaces.leave] using found
      rw [update_self]
      exact (evolves.intact.answers []).intact
    · rw [update_of_ne here]
      refine h.bystander (old here found) (fun q member => ?_) []
      obtain ⟨out, alive⟩ := strange here (old here found) q member
      obtain ⟨links, maxEnd, next, prev, region, live⟩ := evolves.kept q out alive
      exact ⟨links, maxEnd, next, prev, region, live⟩
  · intro i j as₁ as₂ found₁ found₂ ne
    by_cases here : i = space
    · subst here
      rw [update_self, update_of_ne ne.symm]
      exact fun q new member => fresh ne.symm (old ne.symm found₂) member new
    rw [update_of_ne here]
    by_cases there : j = space
    · subst there
      rw [update_self]
      exact fresh here (old here found₁)
    · rw [update_of_ne there]
      exact h.apart (old here found₁) (old there found₂) ne

theorem aspaceClone_spec {dst : Nat} {src : AspaceIndex}
    (found : s.spaces space = some src) {created : Bool} :
    Returns (s.aspaceClone space dst created answers) fun (t, _) => ∃ lists', t.Sound lists' := by
  refine .bind (.deref (Q := (src = ·)) found rfl) ?_
  rintro _ rfl
  by_cases refused : src.state.refused
  · rw [if_pos refused]
    exact .pure ⟨lists, h⟩
  rw [if_neg refused]
  cases created with
  | false => exact .pure ⟨lists, h⟩
  | true =>
    have source := h.intact found
    refine .bind (cloneRegions_spec (s.emptyAspace_intact answers) source.list source.laid
      source.live) ?_
    rintro ⟨r, enough⟩ ⟨zs, evolves, -⟩
    cases enough with
    | true => exact .pure ⟨_, h.leave evolves fun _ _ => disjoint_nil_right _⟩
    | false =>
      refine .bind (freeRegions_spec evolves.intact) fun u same => .pure ⟨lists, ?_, h.apart⟩
      intro i as there
      refine h.bystander there (fun q member => ?_) []
      have alive := (h.intact there).live q member
      have new : q ∉ zs := fun new => (evolves.fresh q new).elim nofun fun dead =>
        Bool.noConfusion (alive.symm.trans dead)
      have kept := (evolves.kept q (by simp) alive).trans (same q new)
      exact ⟨kept.links, kept.maxEnd, kept.next, kept.prev, kept.region, kept.live⟩

/-- Every call returns, and then the regions are intact. -/
theorem step_returns (safe : ¬ s.FreesTwice call) (applies : s.Applies call) :
    Returns (s.step call) fun (t, _) => ∃ lists', t.Sound lists' := by
  cases call with
  | create space =>
    have free : s.spaces space = none := applies
    simp only [step, free, isSome_none, Bool.false_eq_true, if_false]
    exact .pure ⟨_, h.leave (.refl (s.emptyAspace_intact s.mem.kmallocs)) fun _ _ =>
      disjoint_nil_right _⟩
  | call space answers call =>
    obtain ⟨as, found⟩ := isSome_iff_exists.mp applies
    refine .bind (.deref (Q := (as = ·)) found rfl) ?_
    rintro _ rfl
    refine .bind (call_spec (h.entered found answers) fun twice => safe ⟨as, found, twice⟩) ?_
    rintro ⟨r, status⟩ ⟨zs', evolves⟩
    exact .pure ⟨_, h.leave evolves fun other there => h.apart there found other⟩
  | clone space dst created answers =>
    obtain ⟨⟨src, found⟩, free⟩ := applies.imp_left isSome_iff_exists.mp
    simp only [step, free, isSome_none, Bool.false_eq_true, if_false]
    exact aspaceClone_spec h found

end

theorem applies_of_step {out : VmSpaces × VmStatus} (result : s.step call fuel = some out) :
    s.Applies call := by
  cases call with
  | create space =>
    by_contra taken
    rw [step, if_pos (isSome_iff_ne_none.mpr taken)] at result
    cases result
  | call space answers call =>
    obtain ⟨as, found, -⟩ := bind_eq_some_iff.mp result
    exact isSome_iff_exists.mpr ⟨as, found⟩
  | clone space dst created answers =>
    rw [step] at result
    split_ifs at result with taken
    · cases result
    obtain ⟨as, found, -⟩ := bind_eq_some_iff.mp result
    exact ⟨isSome_iff_exists.mpr ⟨as, found⟩, by simpa using taken⟩

/-- `call` takes `s` to `t`. -/
def Calls (s : VmSpaces) (call : VmCall) (t : VmSpaces) : Prop :=
  ∃ fuel status, s.step call fuel = some (t, status)

theorem Sound.run {mem : RegionMem}
    (run : Run Calls (fun s call => ¬ s.FreesTwice call) ⟨mem, fun _ => none⟩ s) :
    ∃ lists, s.Sound lists := by
  refine run.invariant (fun s => ∃ lists, s.Sound lists) ⟨fun _ => [], nofun, nofun⟩ ?_
  rintro s call t ⟨lists, sound⟩ safe ⟨fuel, status, result⟩
  exact (step_returns sound safe (applies_of_step result)).post result

theorem meets_iff {r : VmRegion} (h : r.Proper) {base length : Nat} (some_ : length ≠ 0) :
    r.Meets base (base + length) ↔ ∃ va, base ≤ va ∧ va < base + length ∧ r.Contains va := by
  have := h.base_lt
  constructor
  · rintro ⟨before, behind⟩
    exact ⟨max base r.base, by omega, by omega, by omega, by omega⟩
  · rintro ⟨va, low, high, inside⟩
    exact ⟨Nat.lt_of_le_of_lt inside.1 high, Nat.lt_of_le_of_lt low inside.2⟩

/-- In every run without a region freed twice, the list of each address space is sorted, its regions
are apart and counted, and the tree has the same regions in the same order, with the right links,
colours and greatest ends. Lookups find the region of an address, and the overlap check tells
whether a range meets a region; an empty range, or one beyond the end of memory, counts as taken. -/
theorem region_index_intact {mem : RegionMem}
    (run : Run Calls (fun s call => ¬ s.FreesTwice call) ⟨mem, fun _ => none⟩ s) {space : Nat}
    {as : AspaceIndex} (found : s.spaces space = some as) :
    ∃ zs, Listed s.mem.next s.mem.prev as.regions zs ∧
      (zs.Pairwise fun p q => (s.mem.region p).base < (s.mem.region q).base ∧
        ∀ va, ¬ ((s.mem.region p).Contains va ∧ (s.mem.region q).Contains va)) ∧
      as.regionCount = zs.length ∧
      (∃ T n, (s.enter as []).HasTree T ∧ T.Balanced .black n ∧ T.nodes = zs) ∧
      (∀ va : BitVec 64, Returns ((s.enter as []).aspaceLookupRegion va.toNat) fun found =>
        ∀ p, found = some p ↔ p ∈ zs ∧ (s.mem.region p).Contains va.toNat) ∧
      ∀ base length : BitVec 64,
        Returns ((s.enter as []).aspaceCheckOverlap base.toNat length.toNat) fun found =>
          (found = true ↔ length = 0 ∨ 2 ^ 64 ≤ base.toNat + length.toNat ∨
            ∃ p ∈ zs, ∃ va, base.toNat ≤ va ∧ va < base.toNat + length.toNat ∧
              (s.mem.region p).Contains va) := by
  obtain ⟨lists, sound⟩ := Sound.run run
  have intact := sound.intact found
  refine ⟨lists space, intact.list, ?_, intact.count, intact.tree,
    fun va => aspaceLookupRegion_spec intact, fun base length => ?_⟩
  · refine (intact.laid.ascending.and intact.laid.spaced).imp fun ⟨less, apart⟩ => ⟨less, ?_⟩
    exact fun va ⟨inP, inQ⟩ => Nat.not_lt.mpr (Nat.le_trans apart inQ.1) inP.2
  · refine (aspaceCheckOverlap_spec intact base.isLt length.isLt).mono fun found iff => iff.trans ?_
    rw [show length = 0 ↔ length.toNat = 0 by simp [BitVec.toNat_eq]]
    by_cases empty : length.toNat = 0
    · simp [empty]
    refine or_congr .rfl (or_congr .rfl (exists_congr fun p => and_congr_right fun member => ?_))
    exact meets_iff (intact.laid.proper p member) empty

/-- No memory is in use. -/
def blankMem : RegionMem :=
  ⟨⟨fun _ _ => none, fun _ => none, fun _ => .black⟩, fun _ => 0, fun _ => none, fun _ => none,
    fun _ => ⟨0, 0, 0, 0, 0, .none, none, 0⟩, fun _ => false, []⟩

/-- What the calls come to in the first address space. -/
def outcome (fuel : Nat) (calls : List VmCall) {α : Type} (f : RegionState → α) : Option α :=
  (exec (fun (s : VmSpaces) call => (s.step call fuel).map (·.1)) ⟨blankMem, fun _ => none⟩
    calls).bind fun s => (s.spaces 0).map fun as => f (s.enter as [])

theorem exists_run {calls : List VmCall} {α : Type} {f : RegionState → α} {a : α}
    (h : outcome fuel calls f = some a) (ok : VmSpaces → VmCall → Prop)
    (allowed : ∀ call ∈ calls, ∀ s, ok s call) :
    ∃ s as, Run Calls ok ⟨blankMem, fun _ => none⟩ s ∧ s.spaces 0 = some as ∧
      f (s.enter as []) = a := by
  obtain ⟨s, result, found⟩ := bind_eq_some_iff.mp h
  obtain ⟨as, found, eq⟩ := map_eq_some_iff.mp found
  refine ⟨s, as, (exec_run allowed result).lift id fun s call t allowed now => ⟨allowed, fuel, ?_⟩,
    found, eq⟩
  obtain ⟨⟨u, status⟩, result, rfl⟩ := map_eq_some_iff.mp now
  exact ⟨status, result⟩

/-- The middle of a region of three pages is protected. -/
theorem region_index_intact_protect : ∃ (s : VmSpaces) (as : AspaceIndex),
    Run Calls (fun s call => ¬ s.FreesTwice call) ⟨blankMem, fun _ => none⟩ s ∧
      s.spaces 0 = some as ∧ ∃ zs, Listed s.mem.next s.mem.prev as.regions zs ∧ zs.length = 3 := by
  have now : outcome 4 [.create 0, .call 0 [some 0] (.reserve 0x1000 0x3000 0 0 .none),
      .call 0 [some 1, some 2] (.protect 0x2000 0x1000 1)] (·.regionCount) = some 3 := by
    decide +kernel
  obtain ⟨s, as, run, found, count⟩ := exists_run now (fun s call => ¬ s.FreesTwice call)
    (by simp [FreesTwice, RegionState.FreesTwice])
  obtain ⟨zs, list, -, counted, -⟩ := region_index_intact run found
  exact ⟨s, as, run, found, zs, list, counted.symm.trans count⟩

/-- A query for no addresses is answered with yes where nothing is mapped. And where the tail of a
region is unmapped, the region that is left is not counted. -/
theorem unmap_tail_counts_twice :
    (∃ (s : VmSpaces) (as : AspaceIndex), Run Calls (fun _ _ => True) ⟨blankMem, fun _ => none⟩ s ∧
      s.spaces 0 = some as ∧ Listed s.mem.next s.mem.prev as.regions [] ∧
      (s.enter as []).aspaceCheckOverlap 0 0 0 = some true) ∧
    ∃ (s : VmSpaces) (as : AspaceIndex), Run Calls (fun _ _ => True) ⟨blankMem, fun _ => none⟩ s ∧
      s.spaces 0 = some as ∧ Listed s.mem.next s.mem.prev as.regions [0] ∧ as.regionCount = 0 := by
  constructor
  · have now : outcome 4 [.create 0] (fun s => (s.regions, s.aspaceCheckOverlap 0 0 0)) =
        some (none, some true) := by decide +kernel
    obtain ⟨s, as, run, found, eq⟩ := exists_run now (fun _ _ => True) fun _ _ _ => trivial
    obtain ⟨head, query⟩ := Prod.mk.inj eq
    exact ⟨s, as, run, found, ⟨head, fun xs a ys eq => by simp at eq⟩, query⟩
  · have now : outcome 4 [.create 0, .call 0 [some 0] (.reserve 0x1000 0x3000 0 0 .none),
        .call 0 [some 1] (.unmap 0x2000 0x2000)]
        (fun s => (s.regions, s.next 0, s.prev 0, s.regionCount)) =
        some (some 0, none, none, 0) := by decide +kernel
    obtain ⟨s, as, run, found, eq⟩ := exists_run now (fun _ _ => True) fun _ _ _ => trivial
    simp only [Prod.mk.injEq] at eq
    obtain ⟨head, next, prev, count⟩ := eq
    exact ⟨s, as, run, found, listed_singleton head next prev, count⟩

end VmSpaces

namespace RegionState

variable {s t : RegionState} {zs zs' : List RegionPtr}

/-! ## What a new region covers -/

/-- The region is new and meets no region that was there. All of the range lies in it iff the
rounding of the length makes up for the rounding of the base. -/
def AddsRegion (s : RegionState) (zs : List RegionPtr) (t : RegionState) (p : RegionPtr)
    (base length : Nat) : Prop :=
  (∃ zs', t.Intact zs' ∧ p ∈ zs') ∧ p ∉ zs ∧
    (∀ q ∈ zs, ¬ (s.region q).Meets (t.region p).base (t.region p).limit) ∧
    ((∀ va, base ≤ va → va < base + length → (t.region p).base ≤ va ∧ va < (t.region p).limit) ↔
      base % pageSize + length ≤ pageUp length)

theorem Attached.adds (evolves : Evolves s zs t zs') {p : RegionPtr} {base length : Nat}
    (h : Attached s zs t zs' p (pageDown base) (pageUp length)) :
    s.AddsRegion zs t p base length := by
  have down : pageDown base + base % pageSize = base := Nat.div_add_mod' base pageSize
  have some_ : length ≠ 0 := fun none => h.some_ (by rw [none]; rfl)
  refine ⟨⟨zs', evolves.intact, h.listed⟩, h.fresh, ?_, fun covers => ?_, fun fits va low high => ?_⟩
  · rw [VmRegion.limit, h.starts, h.spans]
    exact h.apart
  · have := (covers (base + length - 1) (by omega) (by omega)).2
    rw [VmRegion.limit, h.starts, h.spans] at this
    omega
  · rw [VmRegion.limit, h.starts, h.spans]
    omega

theorem mapping_covers_iff (intact : s.Intact zs) :
    (∀ (base length : BitVec 64) (prot mapFlags : BitVec 32) (inherit : VmInherit)
      (object : Option Nat) (objectOffset : BitVec 64),
      Returns (s.aspaceRegionAttach base length prot mapFlags inherit object objectOffset)
        fun (t, result) => VmStatus.of result = .ok → ∃ p, result = .ok p ∧
          s.AddsRegion zs t p base.toNat length.toNat) ∧
    ∀ (request : VmMapRequest) (anon : Option Nat),
      Returns (s.vmMapRegion request anon) fun (t, result) => result = .ok → ∃ p,
        s.AddsRegion zs t p request.hint.toNat request.length.toNat := by
  constructor
  · intros
    refine (aspaceRegionAttach_spec intact ..).mono ?_
    rintro ⟨t, result⟩ ⟨zs', evolves, attached⟩ ok
    obtain ⟨p, eq, new⟩ := attached ok
    exact ⟨p, eq, new.adds evolves⟩
  · intro request anon
    refine (vmMapRegion_spec intact).mono ?_
    rintro ⟨t, result⟩ ⟨zs', evolves, attached⟩ ok
    obtain ⟨p, new⟩ := attached ok
    exact ⟨p, new.adds evolves⟩

/-- An address space without regions. -/
def blankAspace : RegionState :=
  (VmSpaces.mk VmSpaces.blankMem fun _ => none).enter VmSpaces.emptyAspace [some 0]

theorem mapping_covers_page : blankAspace.Intact [] ∧
    Returns (blankAspace.aspaceRegionAttach 0x1000 0x1000 0 0 .none none 0) fun (t, result) =>
      VmStatus.of result = .ok → ∃ p, result = .ok p ∧
        blankAspace.AddsRegion [] t p 0x1000 0x1000 :=
  have intact : blankAspace.Intact [] := VmSpaces.emptyAspace_intact _ _
  ⟨intact, (mapping_covers_iff intact).1 0x1000 0x1000 0 0 .none none 0⟩

/-- A page that is asked for from the last byte of another page on gets that other page. -/
theorem mapping_misses_page :
    (blankAspace.aspaceRegionAttach 0xFFF 0x1000 0 0 .none none 0 4).map (fun (t, result) =>
      (VmStatus.of result, (t.region 0).base, (t.region 0).limit)) = some (.ok, 0, 0x1000) := by
  decide +kernel

end RegionState

end BharatOS
