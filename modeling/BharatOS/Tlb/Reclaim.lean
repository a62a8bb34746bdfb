import BharatOS.Mm.Conservation
import BharatOS.Tlb.Shootdown

/-!
# Unmapping a page (`distributed/vmm.c`)

The legacy calls change one page of a page table, and the page that was mapped goes back to
the physical allocator. Other cores may have its translation until a shootdown is complete.
-/

namespace BharatOS

open Option List

/-- `hal_pt_ops_t`: what the architecture does to a page table. Both calls can fail. -/
structure HalPt (π : Type) where
  mapPage : π → Nat → Nat → BitVec 32 → Option π
  unmapPage : π → Nat → Option (π × Nat)

inductive VmmEvent where
  | unmapped (va pa : Nat)
  | returned (va pa : Nat)
  | shootdown (va : Nat) (status : TlbStatus)
  deriving DecidableEq, Repr

structure VmmSystem (π : Type) where
  rootPt : π
  pmm : Pmm
  events : List VmmEvent

/-- `remote` is the result of `vmm_send_tlb_invalidate_ex`, and `flushed` whether
`tlb_invalidate_local` returned 0. -/
structure Invalidation where
  remote : TlbStatus
  flushed : Bool

/-- `tlb_invalidate_all_ex` -/
def Invalidation.status (inv : Invalidation) : TlbStatus :=
  if inv.remote ≠ .ok then inv.remote else if inv.flushed then .ok else .invalidArg

/-- `region` is whether the address space has a region at the address; `elsewhere` is what the
rest of the kernel does to the allocator. -/
inductive VmmAction where
  | map (va pa : Nat) (flags : BitVec 32) (region : Bool) (inv : Invalidation)
  | unmap (core va : Nat) (inv : Invalidation)
  | elsewhere (pmm : Pmm)

/-- The `HAL_PT_FLAG` bits of a legacy mapping. The rights to write and to execute are bits 32
and 33, which flags of 32 bits do not have. -/
def legacyPtFlags (flags : BitVec 32) (region : Bool) : BitVec 32 :=
  let wide := flags.setWidth 64
  let has (mask : BitVec 64) (flag : BitVec 32) : BitVec 32 := if wide &&& mask ≠ 0 then flag else 0
  1 ||| has (1#64 <<< 32) 2 ||| (if region then has (1#64 <<< 33) 4 else 0) ||| has 0x200 8 |||
    has (0x40 ||| 0x80) 64

/-- Whether `mm_free_page` drops the last reference to the page. -/
def Pmm.goesBack (s : Pmm) (pa : Nat) : Bool :=
  match s.physToPage pa with
  | none => false
  | some page => (s.pages page).state ≠ .free ∧ (s.pages page).refCount ≤ 1

namespace VmmSystem

variable {π : Type} (hal : HalPt π)

/-- `mm_vmm_map_page`. Nobody looks at the result of the shootdown. -/
def mmVmmMapPage (s : VmmSystem π) (va pa : Nat) (flags : BitVec 32) (region : Bool)
    (inv : Invalidation) : VmmSystem π :=
  match hal.mapPage s.rootPt va pa (legacyPtFlags flags region) with
  | none => s
  | some rootPt =>
    { s with rootPt, events := s.events ++ if region then [.shootdown va inv.status] else [] }

/-- `mm_vmm_unmap_page`; `none` if `mm_free_page` panics. -/
def mmVmmUnmapPage (s : VmmSystem π) (core va : Nat) (inv : Invalidation) : Option (VmmSystem π) :=
  match hal.unmapPage s.rootPt va with
  | none => some s
  | some (rootPt, pa) =>
    if pa = 0 then some { s with rootPt, events := s.events ++ [.unmapped va pa] }
    else (s.pmm.mmFreePage core pa).map fun pmm =>
      { rootPt, pmm
        events := s.events ++ [.unmapped va pa] ++
          (if s.pmm.goesBack pa then [.returned va pa] else []) ++ [.shootdown va inv.status] }

def step (s : VmmSystem π) : VmmAction → Option (VmmSystem π)
  | .map va pa flags region inv => some (s.mmVmmMapPage hal va pa flags region inv)
  | .unmap core va inv => s.mmVmmUnmapPage hal core va inv
  | .elsewhere pmm => some { s with pmm }

/-- A page goes back only after the shootdown of its address, begun when it was unmapped, is
complete on every core. -/
def NoPrematureReclaim (events : List VmmEvent) : Prop :=
  ∀ i va pa : Nat, events[i]? = some (.returned va pa) →
    ∃ u j : Nat, u < j ∧ j < i ∧ events[u]? = some (.unmapped va pa) ∧
      (∀ k pa' : Nat, u < k → k < i → events[k]? ≠ some (.unmapped va pa')) ∧
      events[j]? = some (.shootdown va .ok)

/-- The action is not an unmapping that gives a page back. -/
def keepsPage (s : VmmSystem π) : VmmAction → Bool
  | .unmap _ va _ =>
    match hal.unmapPage s.rootPt va with
    | none => true
    | some (_, pa) => pa = 0 ∨ s.pmm.goesBack pa = false
  | _ => true

/-- No action of the run gives a page back. -/
def keepsPages : VmmSystem π → List VmmAction → Bool
  | _, [] => true
  | s, a :: rest => s.keepsPage hal a &&
      match s.step hal a with
      | none => true
      | some t => keepsPages t rest

/-- A page goes back at once when it is unmapped. -/
def Immediate (events : List VmmEvent) : Prop :=
  ∀ i va pa : Nat, events[i]? = some (.returned va pa) →
    ∃ k : Nat, i = k + 1 ∧ events[k]? = some (.unmapped va pa)

variable {events : List VmmEvent}

theorem Immediate.append {more : List VmmEvent} (h : Immediate events) (h' : Immediate more) :
    Immediate (events ++ more) := by
  intro i va pa found
  rcases Nat.lt_or_ge i events.length with old | new
  · rw [getElem?_append_left old] at found
    obtain ⟨k, rfl, before⟩ := h i va pa found
    exact ⟨k, rfl, by rw [getElem?_append_left (by omega)]; exact before⟩
  rw [getElem?_append_right new] at found
  obtain ⟨k, same, before⟩ := h' _ va pa found
  refine ⟨events.length + k, by omega, ?_⟩
  rw [getElem?_append_right (by omega), Nat.add_sub_cancel_left]
  exact before

theorem immediate_of_none (h : ∀ va pa, .returned va pa ∉ events) : Immediate events :=
  fun _ va pa found => absurd (mem_of_getElem? found) (h va pa)

/-- Between the unmapping and the return of the page there is no room for a shootdown. -/
theorem noPrematureReclaim_iff (h : Immediate events) :
    NoPrematureReclaim events ↔ ∀ va pa, .returned va pa ∉ events := by
  constructor
  · intro safe va pa member
    obtain ⟨i, inside, found⟩ := getElem_of_mem member
    have found' : events[i]? = some (.returned va pa) := by
      rw [getElem?_eq_getElem inside, found]
    obtain ⟨u, j, late, early, -, last, -⟩ := safe i va pa found'
    obtain ⟨k, rfl, before⟩ := h i va pa found'
    exact last k pa (by omega) (by omega) before
  · intro kept i va pa found
    exact absurd (mem_of_getElem? found) (kept va pa)

variable {hal} {s t : VmmSystem π} {a : VmmAction}

/-- What one call adds to the events. -/
theorem step_events (h : s.step hal a = some t) : ∃ more, t.events = s.events ++ more ∧
    Immediate more ∧ (s.keepsPage hal a = true ↔ ∀ va pa, .returned va pa ∉ more) := by
  cases a with
  | map va pa flags region inv =>
    cases h
    unfold mmVmmMapPage
    split
    · exact ⟨[], by simp, immediate_of_none (by simp), by simp [keepsPage]⟩
    · refine ⟨_, rfl, immediate_of_none ?_, ?_⟩ <;> cases region <;> simp [keepsPage]
  | elsewhere pmm =>
    cases h
    exact ⟨[], by simp, immediate_of_none (by simp), by simp [keepsPage]⟩
  | unmap core va inv =>
    simp only [step, mmVmmUnmapPage] at h
    split at h
    · rename_i failed
      cases h
      exact ⟨[], by simp, immediate_of_none (by simp), by simp [keepsPage, failed]⟩
    rename_i rootPt pa unmapped
    split at h
    · rename_i nowhere
      cases h
      exact ⟨[.unmapped va pa], rfl, immediate_of_none (by simp),
        by simp [keepsPage, unmapped, nowhere]⟩
    rename_i somewhere
    obtain ⟨pmm, -, rfl⟩ := map_eq_some_iff.mp h
    cases back : s.pmm.goesBack pa with
    | false =>
      refine ⟨[.unmapped va pa, .shootdown va inv.status], by simp,
        immediate_of_none (by simp), by simp [keepsPage, unmapped, back]⟩
    | true =>
      refine ⟨[.unmapped va pa, .returned va pa, .shootdown va inv.status], by simp,
        ?_, by simp [keepsPage, unmapped, back, somewhere]⟩
      intro i va' pa' found
      match i, found with
      | 1, found =>
        cases found
        exact ⟨0, rfl, rfl⟩
      | 2, found => cases found

theorem run_events {actions : List VmmAction} (h : exec (step hal) s actions = some t) :
    ∃ more, t.events = s.events ++ more ∧ Immediate more ∧
      (keepsPages hal s actions = true ↔ ∀ va pa, .returned va pa ∉ more) := by
  induction actions generalizing s with
  | nil =>
    cases h
    exact ⟨[], by simp, immediate_of_none (by simp), by simp [keepsPages]⟩
  | cons a rest ih =>
    obtain ⟨s', now, later⟩ := bind_eq_some_iff.mp h
    obtain ⟨first, begins, immediate, keeps⟩ := step_events now
    obtain ⟨more, ends, immediate', keeps'⟩ := ih later
    refine ⟨first ++ more, by rw [ends, begins, append_assoc], immediate.append immediate', ?_⟩
    simp only [keepsPages, now, Bool.and_eq_true, keeps, keeps', mem_append, not_or]
    exact ⟨fun both va pa => ⟨both.1 va pa, both.2 va pa⟩,
      fun all => ⟨fun va pa => (all va pa).1, fun va pa => (all va pa).2⟩⟩

/-- A run reclaims no page before the shootdown is complete if and only if it reclaims none: the
page is given back before the shootdown begins, whatever its outcome. -/
theorem reclaim_needs_shootdown {actions : List VmmAction} (fresh : s.events = [])
    (h : exec (step hal) s actions = some t) :
    NoPrematureReclaim t.events ↔ keepsPages hal s actions = true := by
  obtain ⟨more, all, immediate, keeps⟩ := run_events h
  rw [fresh, nil_append] at all
  rw [all, keeps]
  exact noPrematureReclaim_iff immediate

/-- Page tables as lists of mappings. -/
def listPt : HalPt (List (Nat × Nat)) where
  mapPage table va pa _ := some ((va, pa) :: table)
  unmapPage table va := (table.lookup va).map fun pa => (table.filter (·.1 ≠ va), pa)

/-- A page that is allocated and mapped. -/
def onePage : List PmmAction :=
  PmmSystem.eightPages ++ [.alloc 0 0 0 0 none .any true false]

theorem reclaim_needs_shootdown_shared : ∃ p t,
    Run PmmSystem.Steps (fun _ _ => True) (PmmSystem.boot 2) p ∧
    exec (step listPt) ⟨[], p.pmm, []⟩ [.map 0x4000 0x100000 0x200 true ⟨.ok, true⟩,
      .unmap 0 0x4000 ⟨.timeout, true⟩] = some t ∧ t.rootPt = [] ∧ NoPrematureReclaim t.events := by
  -- the page has a second reference, which is not dropped
  obtain ⟨p, allocated, keeps, t, went, empty⟩ :
      ∃ p, exec PmmSystem.step (PmmSystem.boot 2) (onePage ++ [.refGet 0x100000]) = some p ∧
        keepsPages listPt ⟨[], p.pmm, []⟩
          [.map 0x4000 0x100000 0x200 true ⟨.ok, true⟩, .unmap 0 0x4000 ⟨.timeout, true⟩] = true ∧
      ∃ t, exec (step listPt) ⟨[], p.pmm, []⟩ [.map 0x4000 0x100000 0x200 true ⟨.ok, true⟩,
          .unmap 0 0x4000 ⟨.timeout, true⟩] = some t ∧ t.rootPt = [] := by decide +kernel
  exact ⟨p, t, run_of_exec allocated, went, empty, (reclaim_needs_shootdown rfl went).mpr keeps⟩

/-- The shootdown of a page that is unmapped times out, and the page was given back. -/
theorem page_returned_without_shootdown : ∃ p t,
    Run PmmSystem.Steps (fun _ _ => True) (PmmSystem.boot 2) p ∧
    exec (step listPt) ⟨[], p.pmm, []⟩ [.map 0x4000 0x100000 0x200 true ⟨.ok, true⟩,
      .unmap 0 0x4000 ⟨.timeout, true⟩] = some t ∧
    t.events = [.shootdown 0x4000 .ok, .unmapped 0x4000 0x100000, .returned 0x4000 0x100000,
      .shootdown 0x4000 .timeout] ∧ t.pmm.nodeCaches (0, 0) = [0x100000] := by
  simp only [exists_and_left]
  exact found_run onePage (by decide +kernel)

end VmmSystem

end BharatOS
