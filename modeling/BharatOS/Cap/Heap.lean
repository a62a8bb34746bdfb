import BharatOS.Cap.CSpace
import BharatOS.Lib.LinkHeap

/-!
# The delegation forest of a registry

The entries of all registered tables, with their parent, child and sibling locators, are a
`LinkHeap`.
-/

namespace BharatOS

open CapabilityEntry Function Option EntryEdit

namespace Registry

def heap (R : Registry) : LinkHeap CapRef BhCapLocator where
  isNull := capLocatorIsNull
  target := R.resolve
  parent := fun c => (R.entry c).parent
  first := fun c => (R.entry c).firstChild
  next := fun c => (R.entry c).nextSibling
  target_null := fun _ null => resolve_null null

section

variable (R : Registry)

@[simp] theorem heap_isNull : R.heap.isNull = capLocatorIsNull := rfl
@[simp] theorem heap_target : R.heap.target = R.resolve := rfl
@[simp] theorem heap_parent (c : CapRef) : R.heap.parent c = (R.entry c).parent := rfl
@[simp] theorem heap_first (c : CapRef) : R.heap.first c = (R.entry c).firstChild := rfl
@[simp] theorem heap_next (c : CapRef) : R.heap.next c = (R.entry c).nextSibling := rfl

theorem parentOf_eq (c : CapRef) : R.heap.parentOf c = R.resolve (R.entry c).parent := rfl
end

variable {R R' : Registry} {c d : CapRef} {l : BhCapLocator} {ref : TableRef}

/-- An entry that is not in use has no parent and no child. -/
theorem cleared_of_free (free : (R.entry c).inUse = false) :
    (R.entry c).parent = capLocatorNull ∧ (R.entry c).firstChild = capLocatorNull := by
  cases h : R.table c.table with
  | none => simp [entry, h, zero]
  | some t =>
    rw [entry_of_table h] at free ⊢
    exact t.cleared c.slot free

theorem id_of_inUse (used : (R.entry c).inUse = true) : (R.entry c).id = slotId c.slot := by
  cases h : R.table c.table with
  | none => simp [entry, h, zero] at used
  | some t =>
    rw [entry_of_table h] at used ⊢
    exact t.numbered c.slot used

theorem parentOf_inUse {p : CapRef} (h : R.heap.parentOf c = some p) :
    (R.entry c).inUse = true := by
  cases used : (R.entry c).inUse with
  | true => rfl
  | false =>
    have null := (cleared_of_free used).1
    rw [parentOf_eq, null, resolve_null capLocatorNull_isNull] at h
    cases h

theorem resolve_inUse (h : R.resolve l = some c) : (R.entry c).inUse = true :=
  (resolve_eq_some.mp h).2.1

/-! ## Locators made from entries -/

theorem locatorMake_of_cspaceId {id : BitVec 32} (h : R.cspaceId c.table = some id)
    (generation epoch : BitVec 32) : R.locatorMake c.table c.slot generation epoch =
      ⟨id, c.table.core, c.slot, generation, epoch⟩ := by
  unfold cspaceId at h
  cases found : R.table c.table with
  | none => simp [found] at h
  | some t =>
    rw [found, map_some, some.injEq] at h
    unfold locatorMake
    rw [found]
    simp only
    rw [if_pos c.slot.isLt, h, (named_of_table found).2.1]

theorem cspaceId_of_inUse (h : (R.entry c).inUse = true) : ∃ id, R.cspaceId c.table = some id := by
  obtain ⟨t, ht⟩ := isSome_iff_exists.mp (registered_of_inUse h)
  exact ⟨t.cspaceId, by rw [cspaceId, ht]; rfl⟩

/-- A locator made from an entry in use leads back to the entry. -/
theorem resolve_locatorMake (used : (R.entry c).inUse = true) {epoch : BitVec 32} :
    R.resolve (R.locatorMake c.table c.slot (R.entry c).generation epoch) = some c := by
  obtain ⟨id, h⟩ := cspaceId_of_inUse used
  rw [locatorMake_of_cspaceId h]
  exact resolve_eq_some.mpr ⟨locate_eq_some.mpr ⟨h, rfl, rfl⟩, used, rfl⟩

/-! ## What the operations do to locators -/

theorem resolve_congr (ids : R'.cspaceId = R.cspaceId)
    (used : ∀ c, (R'.entry c).inUse = (R.entry c).inUse)
    (generation : ∀ c, (R'.entry c).generation = (R.entry c).generation) :
    R'.resolve = R.resolve := by
  funext l
  apply ext
  intro c
  rw [resolve_eq_some, resolve_eq_some, locate_congr ids, used, generation]

variable {ed : EntryEdit} {cap : NewCap} {i : Slot} {out : Option TableRef}

theorem edit_entry_other (h : d ≠ c) : (R.edit c ed).entry d = R.entry d := by
  cases found : (R.table c.table).isSome with
  | true => rw [edit_entry ed found, update_of_ne h]
  | false =>
    unfold edit
    split
    · rfl
    · rename_i found'; simp [found'] at found

theorem edit_entry_cases :
    (R.edit c ed).entry d = R.entry d ∨ (R.edit c ed).entry d = ed.apply (R.entry d) := by
  by_cases h : d = c
  · subst h
    cases found : (R.table d.table).isSome with
    | true => right; rw [edit_entry ed found, update_self]
    | false =>
      left
      unfold edit
      split
      · rfl
      · rename_i found'; simp [found'] at found
  · exact .inl (edit_entry_other h)

theorem edit_inUse (R : Registry) (c : CapRef) (ed : EntryEdit) (d : CapRef) :
    ((R.edit c ed).entry d).inUse = (R.entry d).inUse := by
  rcases edit_entry_cases with h | h <;> rw [h]
  exact apply_inUse ed _

theorem edit_generation (R : Registry) (c : CapRef) (ed : EntryEdit) (d : CapRef) :
    ((R.edit c ed).entry d).generation = (R.entry d).generation := by
  rcases edit_entry_cases with h | h <;> rw [h]
  exact apply_generation ed _

theorem edit_parent : ((R.edit c ed).entry d).parent = (R.entry d).parent := by
  rcases edit_entry_cases with h | h <;> rw [h]
  exact apply_parent ed _

theorem edit_resolve : (R.edit c ed).resolve = R.resolve :=
  resolve_congr (edit_sameSpaces R c ed).cspaceId (edit_inUse R c ed) (edit_generation R c ed)

theorem setFirst_first (used : (R.entry c).inUse = true) (l : BhCapLocator) (d : CapRef) :
    ((R.edit c (.firstChild l)).entry d).firstChild =
      if d = c then l else (R.entry d).firstChild := by
  by_cases h : d = c
  · subst h
    rw [edit_entry _ (registered_of_inUse used), update_self]
    simp [apply, used]
  · rw [edit_entry_other h, if_neg h]

theorem setFirst_next :
    ((R.edit c (.firstChild l)).entry d).nextSibling = (R.entry d).nextSibling := by
  rcases edit_entry_cases with h | h <;> rw [h]
  simp only [apply]
  split <;> rfl

theorem setNext_next (used : (R.entry c).inUse = true) (l : BhCapLocator) (d : CapRef) :
    ((R.edit c (.nextSibling l)).entry d).nextSibling =
      if d = c then l else (R.entry d).nextSibling := by
  by_cases h : d = c
  · subst h
    rw [edit_entry _ (registered_of_inUse used), update_self, if_pos rfl]
    rfl
  · rw [edit_entry_other h, if_neg h]

theorem setNext_first :
    ((R.edit c (.nextSibling l)).entry d).firstChild = (R.entry d).firstChild := by
  rcases edit_entry_cases with h | h <;> rw [h]
  rfl

/-- Edits that write no link leave the forest as it is. -/
theorem edit_heap (first : ∀ e, (ed.apply e).firstChild = e.firstChild)
    (next : ∀ e, (ed.apply e).nextSibling = e.nextSibling) : (R.edit c ed).heap = R.heap := by
  have same : ∀ d, ((R.edit c ed).entry d).firstChild = (R.entry d).firstChild ∧
      ((R.edit c ed).entry d).nextSibling = (R.entry d).nextSibling := by
    intro d
    rcases edit_entry_cases with h | h <;> rw [h]
    · exact ⟨rfl, rfl⟩
    · exact ⟨first _, next _⟩
  unfold heap
  congr 1
  · exact edit_resolve
  · funext d; exact edit_parent
  · funext d; exact (same d).1
  · funext d; exact (same d).2

theorem release_entry_other (h : d ≠ c) : (R.release c).entry d = R.entry d := by
  cases found : (R.table c.table).isSome with
  | false =>
    unfold release
    split
    · rfl
    · rename_i found'; simp [found'] at found
  | true => rw [release_entry found, update_of_ne h]

theorem release_inUse_self : ((R.release c).entry c).inUse = false := by
  cases found : (R.table c.table).isSome with
  | false =>
    unfold release
    split
    · rename_i none; simp [entry, none, zero]
    · rename_i found'; simp [found'] at found
  | true => rw [release_entry found]; simp [freed]

section

variable (h : R.install ref cap = some (i, R'))

include h

theorem install_entry_other (other : d ≠ ⟨ref, i⟩) : R'.entry d = R.entry d := by
  rw [(install_some h).2.2.2, update_of_ne other]

theorem install_entry_self : R'.entry ⟨ref, i⟩ = cap.written (R.entry ⟨ref, i⟩) i := by
  rw [(install_some h).2.2.2, update_self]

theorem install_resolve (other : d ≠ ⟨ref, i⟩) : R'.resolve l = some d ↔ R.resolve l = some d := by
  rw [resolve_eq_some, resolve_eq_some, locate_congr (install_some h).2.2.1.cspaceId,
    install_entry_other h other]

end

theorem destroy_resolve :
    (R.destroy ref).resolve l = some d ↔ R.resolve l = some d ∧ d.table ≠ ref := by
  rw [resolve_eq_some, resolve_eq_some, locate_eq_some, locate_eq_some, destroy_cspaceId,
    destroy_entry]
  by_cases h : d.table = ref
  · simp [h, zero]
  · simp [h]

theorem Created.resolve (h : Created R R' out) : R'.resolve = R.resolve := by
  funext l
  apply ext
  intro c
  rw [resolve_eq_some, resolve_eq_some, locate_eq_some, locate_eq_some, h.entry]
  rcases h.cspaceId c.table with same | ⟨vacant, -⟩
  · rw [same]
  -- an entry in use was registered before
  constructor <;> rintro ⟨-, used, -⟩ <;>
    · obtain ⟨id, hid⟩ := cspaceId_of_inUse used
      rw [vacant] at hid
      cases hid

theorem Created.heap (h : Created R R' out) : R'.heap = R.heap := by
  unfold Registry.heap
  simp only [h.resolve, h.entry]

end Registry

end BharatOS
