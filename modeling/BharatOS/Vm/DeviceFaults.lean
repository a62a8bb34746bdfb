import BharatOS.Vm.RegionView

/-!
# Device memory: the fault handlers and `vm_realize_on_core`

The handlers (`vm_object.c`) look neither at the offset of the region in its object nor at the size
of the object.
-/

namespace BharatOS

open List

open Prog

/-- The kinds of objects. -/
inductive VmObjectKind where
  | anon | shared | file | device | dma
  deriving DecidableEq, Repr

/-- A `vm_object_t`. The functions that create objects see to it that device and DMA memory does not
reach beyond the end of memory. -/
structure VmObject where
  kind : VmObjectKind
  physBase : Nat
  size : Nat
  fits : physBase + size < 2 ^ 64

/-- What `prot_domain_map_region` is asked to map. -/
structure MapRequest where
  base : Nat
  pa : Nat
  length : Nat
  prot : BitVec 32

/-- The memory of a region begins at a place in its object. -/
def VmObject.isPhysical (o : VmObject) : Bool := o.kind = .device ∨ o.kind = .dma

/-- What `device_fault` and `dma_fault` do with the address of their memory. -/
def physFault (physBase : Nat) (r : VmRegion) (va : Nat) : Nat := wrap64 (physBase + (va - r.base))

def deviceFault (o : VmObject) (r : VmRegion) (va : Nat) : Nat := physFault o.physBase r va

def dmaFault (o : VmObject) (r : VmRegion) (va : Nat) : Nat := physFault o.physBase r va

/-- The page that the fault handler of the object gives; those of other kinds of objects take a page
of memory. -/
def VmObject.fault (o : VmObject) (r : VmRegion) (va : Nat) : Option Nat :=
  match o.kind with
  | .device => some (deviceFault o r va)
  | .dma => some (dmaFault o r va)
  | .anon | .shared | .file => none

theorem VmObject.fault_eq {o : VmObject} (physical : o.isPhysical) (r : VmRegion) (va : Nat) :
    o.fault r va = some (wrap64 (o.physBase + (va - r.base))) := by
  unfold VmObject.isPhysical at physical
  cases kind : o.kind <;> simp_all [VmObject.fault, deviceFault, dmaFault, physFault]

def MapRequest.frame? (q : MapRequest) (va : Nat) : Option Nat :=
  if q.base ≤ va ∧ va < q.base + q.length then some (wrap64 (q.pa + (va - q.base))) else none

namespace RegionState

variable {s : RegionState} {zs : List RegionPtr}

/-- What `vm_realize_on_core` asks for a region. -/
def realizeRegion (objects : Nat → VmObject) (r : VmRegion) : MapRequest :=
  let pa := match r.object with
    | some o => if (objects o).isPhysical then wrap64 ((objects o).physBase + r.objectOffset) else 0
    | none => 0
  ⟨r.base, pa, r.length, r.prot⟩

/-- The loop of `vm_realize_on_core`. -/
def vmRealizeOnCore (objects : Nat → VmObject) (s : RegionState) : Prog (List MapRequest) :=
  loop (fun (requests, curr) =>
    match curr with
    | none => pure (.inr requests)
    | some c => pure (.inl (requests ++ [realizeRegion objects (s.region c)], s.next c)))
    (([] : List MapRequest), s.regions)

/-- The frame that an address gets. -/
def frameOf (requests : List MapRequest) (va : Nat) : Option Nat := requests.findSome? (·.frame? va)

variable {objects : Nat → VmObject} {p : RegionPtr}

theorem vmRealizeOnCore_spec (h : s.InOrder zs) :
    Returns (s.vmRealizeOnCore objects)
      (· = zs.map fun p => realizeRegion objects (s.region p)) := by
  refine .loop (fun k now => ∃ done todo, zs = done ++ todo ∧ todo.length = k ∧
    now = (done.map fun p => realizeRegion objects (s.region p), todo.head?)) ?_
    ⟨[], zs, rfl, rfl, by rw [h.list.head]; rfl⟩
  rintro k _ ⟨done, todo, rfl, rfl, rfl⟩
  cases todo with
  | nil => exact .pure (by simp)
  | cons c rest =>
    exact .pure ⟨rest.length, by simp, done ++ [c], rest, by simp, rfl, by simp [h.list.next_eq]⟩

theorem frameOf_region (laid : Laid s.region zs) (member : p ∈ zs) {va : Nat}
    (inside : (s.region p).Contains va) :
    frameOf (zs.map fun p => realizeRegion objects (s.region p)) va =
      some (wrap64 ((realizeRegion objects (s.region p)).pa + (va - (s.region p).base))) := by
  obtain ⟨xs, ys, rfl⟩ := append_of_mem member
  have before : (xs.map fun p => realizeRegion objects (s.region p)).findSome? (·.frame? va) =
      none := by
    simp only [findSome?_eq_none_iff, List.mem_map, MapRequest.frame?]
    rintro _ ⟨q, inXs, rfl⟩
    rw [if_neg]
    exact fun there => Nat.not_lt.mpr (Nat.le_trans (laid.before_le q inXs) inside.1) there.2
  have here : (realizeRegion objects (s.region p)).frame? va =
      some (wrap64 ((realizeRegion objects (s.region p)).pa + (va - (s.region p).base))) :=
    if_pos inside
  rw [frameOf, map_append, map_cons, findSome?_append, before,
    findSome?_cons_of_isSome (by rw [here]; rfl), here]
  rfl

/-- Both ways an address of the region gets the frame that is at its place in the object. -/
def SameFrames (requests : List MapRequest) (o : VmObject) (r : VmRegion) : Prop :=
  ∀ va, r.Contains va → o.fault r va = frameOf requests va ∧
    frameOf requests va = some (o.physBase + r.objectOffset + (va - r.base)) ∧
    r.objectOffset + (va - r.base) < o.size

theorem sameFrames_iff (laid : Laid s.region zs) (member : p ∈ zs) {o : Nat}
    (object : (s.region p).object = some o) (physical : (objects o).isPhysical) :
    SameFrames (zs.map fun p => realizeRegion objects (s.region p)) (objects o) (s.region p) ↔
      (s.region p).objectOffset = 0 ∧ (s.region p).length ≤ (objects o).size := by
  have proper := laid.proper p member
  have fits := (objects o).fits
  have pa : (realizeRegion objects (s.region p)).pa =
      wrap64 ((objects o).physBase + (s.region p).objectOffset) := by
    simp [realizeRegion, object, physical]
  constructor
  · intro same
    have := proper.pos
    -- the first address tells the offset, the last one the length
    have first : (s.region p).Contains (s.region p).base := ⟨Nat.le_refl _, proper.base_lt⟩
    have last : (s.region p).Contains ((s.region p).limit - 1) := by
      simp only [VmRegion.Contains, VmRegion.limit]
      omega
    obtain ⟨agree, -, -⟩ := same _ first
    obtain ⟨-, -, inside⟩ := same _ last
    rw [frameOf_region laid member first, VmObject.fault_eq physical, pa] at agree
    have agree := Option.some.inj agree
    have offset : (s.region p).objectOffset = 0 := by
      simp only [Nat.sub_self, Nat.add_zero, wrap64] at agree
      omega
    simp only [VmRegion.limit] at inside
    exact ⟨offset, by omega⟩
  · rintro ⟨offset, short⟩ va inside
    have within : va - (s.region p).base < (s.region p).length := by
      have := inside.1
      have := inside.2
      simp only [VmRegion.limit] at this
      omega
    have small : wrap64 ((objects o).physBase + (va - (s.region p).base)) =
        (objects o).physBase + (va - (s.region p).base) := Nat.mod_eq_of_lt (by omega)
    have base : wrap64 (objects o).physBase = (objects o).physBase := Nat.mod_eq_of_lt (by omega)
    rw [frameOf_region laid member inside, VmObject.fault_eq physical, pa, offset,
      Nat.add_zero, base, small]
    exact ⟨rfl, rfl, by omega⟩

end RegionState

namespace VmSpaces

open RegionState

variable {s : VmSpaces}

/-- In every run without a region freed twice, the fault handler of device or DMA memory gives the
frames of `vm_realize_on_core` for all addresses of a region, iff the region begins at the start of
its object and is no longer than it. -/
theorem faults_agree_with_realize {mem : RegionMem}
    (run : Run Calls (fun s call => ¬ s.FreesTwice call) ⟨mem, fun _ => none⟩ s) {space : Nat}
    {as : AspaceIndex} (found : s.spaces space = some as) (objects : Nat → VmObject) :
    ∃ zs requests, Listed s.mem.next s.mem.prev as.regions zs ∧
      Returns ((s.enter as []).vmRealizeOnCore objects) (· = requests) ∧
      ∀ p ∈ zs, ∀ o, (s.mem.region p).object = some o → (objects o).isPhysical →
        (SameFrames requests (objects o) (s.mem.region p) ↔
          (s.mem.region p).objectOffset = 0 ∧ (s.mem.region p).length ≤ (objects o).size) := by
  obtain ⟨lists, sound⟩ := Sound.run run
  have intact := sound.intact found
  exact ⟨lists space, _, intact.list, vmRealizeOnCore_spec intact.toInOrder,
    fun p member o object physical => sameFrames_iff intact.laid member object physical⟩

/-- Three pages of a device. -/
def threePages : VmObject := ⟨.device, 0x80000000, 0x3000, by decide⟩

theorem faults_agree_with_realize_whole : ∃ (s : VmSpaces) (as : AspaceIndex),
    Run Calls (fun s call => ¬ s.FreesTwice call) ⟨blankMem, fun _ => none⟩ s ∧
      s.spaces 0 = some as ∧ ∃ requests,
        Returns ((s.enter as []).vmRealizeOnCore fun _ => threePages) (· = requests) ∧
        SameFrames requests threePages (s.mem.region 0) := by
  have now : outcome 4 [.create 0, .call 0 [some 0] (.attach 0x1000 0x3000 0 0 .none (some 0) 0)]
      (fun s => ([s.regions, s.next 0, s.prev 0, (s.region 0).object,
        some (s.region 0).objectOffset, some (s.region 0).length])) =
      some [some 0, none, none, some 0, some 0, some 0x3000] := by decide +kernel
  obtain ⟨s, as, run, found, eq⟩ := exists_run now (fun s call => ¬ s.FreesTwice call)
    (by simp [FreesTwice, RegionState.FreesTwice])
  simp only [cons.injEq, Option.some.injEq, and_true] at eq
  obtain ⟨head, next, prev, object, offset, length⟩ := eq
  obtain ⟨zs, requests, list, realize, iff⟩ :=
    faults_agree_with_realize run found fun _ => threePages
  have member : 0 ∈ zs := mem_of_head? (list.head.symm.trans head)
  exact ⟨s, as, run, found, requests, realize,
    (iff 0 member 0 object rfl).mpr ⟨offset, length.symm ▸ by decide⟩⟩

/-- The middle page of the three is protected. A fault there gives the first page of the device. -/
theorem fault_after_split : ∃ (s : VmSpaces) (as : AspaceIndex),
    Run Calls (fun s call => ¬ s.FreesTwice call) ⟨blankMem, fun _ => none⟩ s ∧
      s.spaces 0 = some as ∧ ∃ zs requests, Listed s.mem.next s.mem.prev as.regions zs ∧ 1 ∈ zs ∧
        Returns ((s.enter as []).vmRealizeOnCore fun _ => threePages) (· = requests) ∧
        (s.mem.region 1).object = some 0 ∧ (s.mem.region 1).Contains 0x2000 ∧
        threePages.fault (s.mem.region 1) 0x2000 = some 0x80000000 ∧
        frameOf requests 0x2000 = some 0x80001000 := by
  have now : outcome 4 [.create 0, .call 0 [some 0] (.attach 0x1000 0x3000 0 0 .none (some 0) 0),
      .call 0 [some 1, some 2] (.protect 0x2000 0x1000 1)]
      (fun s => ([s.regions, s.next 0, (s.region 1).object, some (s.region 1).base,
        some (s.region 1).length, some (s.region 1).objectOffset])) =
      some [some 0, some 1, some 0, some 0x2000, some 0x1000, some 0x1000] := by decide +kernel
  obtain ⟨s, as, run, found, eq⟩ := exists_run now (fun s call => ¬ s.FreesTwice call)
    (by simp [FreesTwice, RegionState.FreesTwice])
  simp only [cons.injEq, Option.some.injEq, and_true] at eq
  obtain ⟨head, next, object, base, length, offset⟩ := eq
  obtain ⟨lists, sound⟩ := Sound.run run
  have intact := sound.intact found
  have member : 1 ∈ lists 0 := by
    obtain ⟨rest, whole⟩ := head?_eq_some_iff.mp (intact.list.head.symm.trans head)
    have : rest.head? = some 1 := (intact.list.links [] 0 rest whole).1.symm.trans next
    rw [whole]
    exact mem_cons_of_mem 0 (mem_of_head? this)
  have base : (s.mem.region 1).base = 0x2000 := base
  have length : (s.mem.region 1).length = 0x1000 := length
  have offset : (s.mem.region 1).objectOffset = 0x1000 := offset
  have inside : (s.mem.region 1).Contains 0x2000 := by
    simp [VmRegion.Contains, VmRegion.limit, base, length]
  refine ⟨s, as, run, found, lists 0, _, intact.list, member,
    vmRealizeOnCore_spec intact.toInOrder, object, inside, ?_, ?_⟩
  · rw [VmObject.fault_eq rfl, base]
    rfl
  · rw [frameOf_region intact.laid member inside]
    have object : (s.mem.region 1).object = some 0 := object
    simp [realizeRegion, VmSpaces.enter, object, offset, base, threePages, VmObject.isPhysical,
      wrap64]

end VmSpaces

end BharatOS
