import BharatOS.Cap.Heap

/-!
# The forest between calls on one core

`Tidy`: a parent link leads to the parent or to a CSpace that is gone for good, and a capability
without a parent has no sibling to stray to.
-/

namespace BharatOS

open CapabilityEntry

namespace Registry

/-- The locator names a CSpace that is gone and whose id is never given out again
(a null locator names none). -/
def Gone (R : Registry) (l : BhCapLocator) : Prop :=
  ∀ ref generation, generation ≤ bhCapCspaceGenerationMax →
    l.cspaceId = capCspaceIdMake ref.core ref.cspace generation →
    generation ≤ (R.slots ref).generation ∧ R.cspaceId ref ≠ some l.cspaceId

variable {R R' : Registry} {l : BhCapLocator} {c d : CapRef}

theorem gone_null (null : capLocatorIsNull l = true) : R.Gone l := by
  intro ref generation bound e
  have zero : l.cspaceId = 0 := by simpa [capLocatorIsNull] using null
  exact absurd (e.symm.trans zero) (capCspaceIdMake_pos ref bound)

variable {out : Option TableRef} {cap : NewCap} {i : Slot} {ref : TableRef}

section

variable (h : R.Gone l)

include h

theorem Gone.table : R.capLocatorResolveTable l = none := by
  cases found : R.capLocatorResolveTable l with
  | none => rfl
  | some ref =>
    have id := (resolveTable_eq_some.mp found).1
    exact absurd id (h ref _ (R.bounded _) (cspaceId_eq_some.mp id).2).2

theorem Gone.locate : R.locate l = none := by
  simp [Registry.locate, h.table]

theorem Gone.sameSpaces (same : SameSpaces R R') : R'.Gone l := by
  intro ref generation bound e
  rw [same.generation, same.cspaceId]
  exact h ref generation bound e

theorem Gone.created (made : Created R R' out) : R'.Gone l := by
  intro ref generation bound e
  obtain ⟨old, absent⟩ := h ref generation bound e
  refine ⟨old.trans (made.generation ref), fun now => ?_⟩
  rcases made.cspaceId ref with same | ⟨-, newer⟩
  · exact absent (same ▸ now)
  have := (capCspaceIdMake_inj bound (R'.bounded ref) (e.symm.trans (cspaceId_eq_some.mp now).2)).2
  omega

theorem Gone.destroyed (ref : TableRef) : (R.destroy ref).Gone l := by
  intro r generation bound e
  obtain ⟨old, absent⟩ := h r generation bound e
  rw [destroy_generation, destroy_cspaceId]
  refine ⟨old, fun now => ?_⟩
  by_cases hr : r = ref
  · subst hr; simp at now
  rw [Function.update_of_ne hr] at now
  exact absent now

end

/-- With its table, every locator into it goes for good. -/
theorem gone_of_destroyed (h : R.locate l = some c) : (R.destroy c.table).Gone l := by
  have id := (locate_eq_some.mp h).1
  intro ref generation bound e
  obtain ⟨rfl, rfl⟩ := capCspaceIdMake_inj bound (R.bounded _)
    (e.symm.trans (cspaceId_eq_some.mp id).2)
  rw [destroy_generation, destroy_cspaceId]
  exact ⟨le_rfl, by simp⟩

structure Tidy (R : Registry) : Prop where
  forest : R.heap.Forested fun _ => False
  parents : ∀ c, (R.entry c).inUse = true → R.heap.parentOf c = none → R.Gone (R.entry c).parent
  tops : ∀ c, (R.entry c).inUse = true → R.heap.parentOf c = none →
    R.Gone (R.entry c).nextSibling
  unpinned : ∀ c, (R.entry c).inUse = true → (R.entry c).activePins = 0

theorem tidy_empty : Tidy .empty := by
  have free : ∀ c, (empty.entry c) = zero := fun _ => rfl
  have orphan : ∀ c, empty.heap.parentOf c = none := by
    intro c
    rw [parentOf_eq, free]
    exact resolve_null rfl
  refine ⟨⟨fun n => ⟨[], .nil (by simp [free, zero]), fun c => ?_⟩,
    fun _ => 0, 0, fun c p h => ?_⟩, ?_, ?_, ?_⟩
  · simp [orphan c]
  · rw [orphan c] at h; cases h
  all_goals intro c used; rw [free] at used; cases used

theorem Tidy.created (h : Tidy R) (made : Created R R' out) : Tidy R' := by
  refine ⟨made.heap ▸ h.forest, ?_, ?_, ?_⟩ <;> rw [made.entry]
  · rw [made.heap]
    exact fun c used top => (h.parents c used top).created made
  · rw [made.heap]
    exact fun c used top => (h.tops c used top).created made
  · exact h.unpinned

/-- No parent link of an entry in use leads into a slot that is not in use. -/
theorem Tidy.parent_inUse (h : Tidy R) {n : CapRef} (place : R.locate (R.entry n).parent = some c) :
    (R.entry c).inUse = true := by
  cases used : (R.entry n).inUse with
  | false =>
    rw [(cleared_of_free used).1, locate_null capLocatorNull_isNull] at place
    cases place
  | true =>
    cases parent : R.heap.parentOf n with
    | none => rw [(h.parents n used parent).locate] at place; cases place
    | some p =>
      obtain ⟨there, live, -⟩ := resolve_eq_some.mp parent
      obtain rfl : p = c := Option.some.inj (there.symm.trans place)
      exact live

/-! ## New capabilities -/

/-- A free slot was filled with a childless capability; elsewhere at most a child
link changed. -/
structure Fills (R R' : Registry) (d : CapRef) : Prop where
  spaces : SameSpaces R R'
  vacant : (R.entry d).inUse = false
  other : ∀ n, n ≠ d → R'.entry n = { R.entry n with firstChild := (R'.entry n).firstChild }
  leaf : (R'.entry d).firstChild = capLocatorNull
  unpinned : (R'.entry d).activePins = 0

theorem Fills.resolve (h : Fills R R' d) {a : CapRef} (ne : a ≠ d) :
    R'.resolve l = some a ↔ R.resolve l = some a := by
  rw [resolve_eq_some, resolve_eq_some, locate_congr h.spaces.cspaceId, h.other a ne]

theorem Tidy.adds (tidy : Tidy R) (h : Fills R R' d) : LinkHeap.Adds R.heap R'.heap d where
  null := fun _ => rfl
  target := fun _ _ ne => h.resolve ne
  absent := fun l target => by
    have used := resolve_inUse target
    rw [h.vacant] at used
    cases used
  unborn := by
    cases parent : R.heap.parentOf d with
    | none => rfl
    | some p =>
      have used := parentOf_inUse parent
      rw [h.vacant] at used
      cases used
  stale := fun n ne target => by
    have place := (resolve_eq_some.mp target).1
    rw [locate_congr h.spaces.cspaceId, heap_parent, h.other n ne] at place
    have used := tidy.parent_inUse place
    rw [h.vacant] at used
    cases used
  parent := fun n ne => by simp only [heap_parent]; rw [h.other n ne]
  next := fun n ne => by simp only [heap_next]; rw [h.other n ne]
  leaf := by simp [h.leaf]

theorem Tidy.fills (tidy : Tidy R) (h : Fills R R' d) (forest : R'.heap.Forested fun _ => False)
    (root : R'.heap.parentOf d = none →
      R'.Gone (R'.entry d).parent ∧ R'.Gone (R'.entry d).nextSibling) : Tidy R' := by
  have old : ∀ n, n ≠ d → R'.heap.parentOf n = none → R.heap.parentOf n = none := by
    intro n ne top
    cases parent : R.heap.parentOf n with
    | none => rfl
    | some p => rw [((tidy.adds h).parentOf_iff ne).mpr parent] at top; cases top
  refine ⟨forest, fun n used top => ?_, fun n used top => ?_, fun n used => ?_⟩
  · by_cases ne : n = d
    · exact ne ▸ (root (ne ▸ top)).1
    rw [h.other n ne] at used ⊢
    exact (tidy.parents n used (old n ne top)).sameSpaces h.spaces
  · by_cases ne : n = d
    · exact ne ▸ (root (ne ▸ top)).2
    rw [h.other n ne] at used ⊢
    exact (tidy.tops n used (old n ne top)).sameSpaces h.spaces
  · by_cases ne : n = d
    · exact ne ▸ h.unpinned
    rw [h.other n ne] at used ⊢
    exact tidy.unpinned n used

theorem fills_install (h : R.install ref cap = some (i, R')) : Fills R R' ⟨ref, i⟩ := by
  obtain ⟨-, vacant, spaces, -⟩ := install_some h
  refine ⟨spaces, vacant, fun n ne => by rw [install_entry_other h ne], ?_, ?_⟩ <;>
    rw [install_entry_self h] <;> rfl

theorem Fills.setFirst (h : Fills R R' d) (ne : c ≠ d) (l : BhCapLocator) :
    Fills R (R'.edit c (.firstChild l)) d := by
  have self : (R'.edit c (.firstChild l)).entry d = R'.entry d := edit_entry_other (Ne.symm ne)
  refine ⟨h.spaces.trans (edit_sameSpaces _ _ _), h.vacant, fun n hn => ?_, ?_, ?_⟩
  · rcases edit_entry_cases with e | e <;> rw [e]
    · exact h.other n hn
    rw [h.other n hn]
    simp only [EntryEdit.apply]
    split <;> rfl
  · rw [self, h.leaf]
  · rw [self, h.unpinned]

/-- A capability without a parent is a new tree. -/
theorem Tidy.installRoot (tidy : Tidy R) (h : R.install ref cap = some (i, R'))
    (orphan : cap.parent = capLocatorNull) (alone : cap.nextSibling = capLocatorNull) :
    Tidy R' := by
  have fills := fills_install h
  have self := install_entry_self h
  have parent : (R'.entry ⟨ref, i⟩).parent = capLocatorNull := by rw [self]; exact orphan
  have top : R'.heap.parentOf ⟨ref, i⟩ = none := by
    rw [parentOf_eq, parent]
    exact resolve_null rfl
  refine tidy.fills fills (tidy.forest.addRoot (tidy.adds fills) top fun n ne => ?_) fun _ => ⟨?_, ?_⟩
  · simp only [heap_first]
    rw [install_entry_other h ne]
  · rw [parent]; exact gone_null rfl
  · rw [self]
    exact gone_null (by rw [show (cap.written _ i).nextSibling = _ from alone]; rfl)

/-- A child made from a live capability joins the front of its parent's list. -/
theorem Tidy.installChild {dst : TableRef} {rights : CapRightsMask} {j : Slot} {epoch : BitVec 32}
    (tidy : Tidy R) (used : (R.entry c).inUse = true)
    (h : R.install dst (R.childOf c rights) = some (j, R')) : Tidy (R'.edit c (.firstChild
      (R'.locatorMake dst j (R'.entry ⟨dst, j⟩).generation epoch))) := by
  obtain ⟨-, vacant, spaces, -⟩ := install_some h
  have apart : c ≠ ⟨dst, j⟩ := fun e => by rw [e, vacant] at used; cases used
  have self := install_entry_self h
  generalize hl : R'.locatorMake dst j (R'.entry ⟨dst, j⟩).generation epoch = link
  have fills := (fills_install h).setFirst apart link
  have used' : (R'.entry c).inUse = true := by rw [install_entry_other h apart]; exact used
  have newUsed : (R'.entry ⟨dst, j⟩).inUse = true := by rw [self]; rfl
  have first := setFirst_first used' link
  have parentLink : (R'.edit c (.firstChild link)).heap.parentOf ⟨dst, j⟩ = some c := by
    rw [parentOf_eq, edit_entry_other (Ne.symm apart), self, edit_resolve, install_resolve h apart]
    exact resolve_locatorMake used
  have childLink : (R'.edit c (.firstChild link)).resolve link = some ⟨dst, j⟩ := by
    rw [edit_resolve, ← hl]
    exact resolve_locatorMake newUsed
  refine tidy.fills fills ?_ fun top => by rw [parentLink] at top; cases top
  refine tidy.forest.addChild (tidy.adds fills) apart parentLink ?_ ?_ id fun n ne nc => ?_
  · simp only [heap_target, heap_first, first c, if_true]
    exact childLink
  · simp only [heap_next, heap_first]
    rw [edit_entry_other (Ne.symm apart), self]
    rfl
  · simp only [heap_first, first n, if_neg nc]
    rw [install_entry_other h ne]

/-! ## Tables that go -/

/-- Nothing outside the table hangs on it: no capability in it was delegated from
another table, and a capability that was delegated from it to another table has
no sibling after it outside the table. -/
structure Detachable (R : Registry) (ref : TableRef) : Prop where
  inward : ∀ c p, c.table = ref → R.heap.parentOf c = some p → p.table = ref
  outward : ∀ c p y, c.table ≠ ref → R.heap.parentOf c = some p → p.table = ref →
    R.resolve (R.entry c).nextSibling = some y → y.table = ref

theorem Tidy.destroyed (tidy : Tidy R) (detachable : R.Detachable ref) : Tidy (R.destroy ref) := by
  have kept : ∀ n, n.table ≠ ref → (R.destroy ref).entry n = R.entry n := fun n hn => by
    rw [destroy_entry, if_neg hn]
  have inside : ∀ n, ((R.destroy ref).entry n).inUse = true → n.table ≠ ref := by
    intro n used e
    rw [destroy_entry, if_pos e] at used
    cases used
  have up : ∀ n p, n.table ≠ ref → ((R.destroy ref).heap.parentOf n = some p ↔
      R.heap.parentOf n = some p ∧ p.table ≠ ref) := by
    intro n p hn
    rw [parentOf_eq, kept n hn, destroy_resolve]
    rfl
  -- a capability left without a parent had none, or had it in the table
  have orphan : ∀ n, n.table ≠ ref → (R.destroy ref).heap.parentOf n = none →
      R.heap.parentOf n = none ∨ ∃ p, R.heap.parentOf n = some p ∧ p.table = ref := by
    intro n hn top
    cases parent : R.heap.parentOf n with
    | none => exact .inl rfl
    | some p =>
      refine .inr ⟨p, rfl, ?_⟩
      by_contra hp
      rw [(up n p hn).mpr ⟨parent, hp⟩] at top
      cases top
  refine ⟨?_, fun n used top => ?_, fun n used top => ?_, fun n used => ?_⟩
  · refine tidy.forest.erase (fun c => c.table = ref) (fun _ h => h.elim)
      (fun c p hc _ parent => detachable.inward c p hc parent) (fun _ h => h)
      (fun _ _ => destroy_resolve) (fun n hn => ?_) (fun n hn => ?_)
    · simp [destroy_entry, hn, zero]
    · simp [kept n hn]
  · have out := inside n used
    rw [kept n out] at used ⊢
    rcases orphan n out top with none | ⟨p, parent, hp⟩
    · exact (tidy.parents n used none).destroyed ref
    subst hp
    exact gone_of_destroyed (resolve_eq_some.mp parent).1
  · have out := inside n used
    rw [kept n out] at used ⊢
    rcases orphan n out top with none | ⟨p, parent, hp⟩
    · exact (tidy.tops n used none).destroyed ref
    obtain ⟨F, rep, -⟩ := tidy.forest.rep_next parent id
    cases rep with
    | nil null => exact gone_null null
    | cons next =>
      have := detachable.outward n p _ out parent hp next
      subst this
      exact gone_of_destroyed (resolve_eq_some.mp next).1
  · have out := inside n used
    rw [kept n out] at used ⊢
    exact tidy.unpinned n used

end Registry

end BharatOS
