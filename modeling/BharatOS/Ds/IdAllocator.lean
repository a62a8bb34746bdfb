import Mathlib.Data.Fintype.Card
import Mathlib.Data.List.FinRange

/-!
# The id allocator

`bh_id_allocator`: a bitmap over a fixed number of ids with a rotating hint. The
bitmap is kept as one flag per id, and the structure carries the fact that the
count field is the number of flags that are set.
-/

namespace BharatOS

open Function List

structure BhIdAllocator (capacity : Nat) where
  nextHint : Nat
  allocatedCount : Nat
  bitmap : Fin capacity → Bool
  counted : allocatedCount = (Finset.univ.filter fun id => bitmap id = true).card

namespace BhIdAllocator

variable {capacity : Nat}

def init : BhIdAllocator capacity where
  nextHint := 0
  allocatedCount := 0
  bitmap := fun _ => false
  counted := by simp

/-- The first free id at or after the hint, in the order the loop tries them. -/
def scan (a : BhIdAllocator capacity) : Option (Fin capacity) :=
  ((finRange capacity).map fun i : Fin capacity =>
    (⟨(a.nextHint + i.val) % capacity, Nat.mod_lt _ i.pos⟩ : Fin capacity)).find?
      fun id => !a.bitmap id

variable {a : BhIdAllocator capacity} {id : Fin capacity}

theorem scan_free (h : a.scan = some id) : a.bitmap id = false := by
  simpa using find?_some h

def take (a : BhIdAllocator capacity) (id : Fin capacity) (free : a.bitmap id = false) :
    BhIdAllocator capacity where
  nextHint := (id + 1) % capacity
  allocatedCount := a.allocatedCount + 1
  bitmap := update a.bitmap id true
  counted := by
    have grown : (Finset.univ.filter fun x => update a.bitmap id true x = true) =
        insert id (Finset.univ.filter fun x => a.bitmap x = true) := by
      ext x
      by_cases hx : x = id
      · subst hx; simp
      · simp [hx]
    rw [grown, Finset.card_insert_of_notMem (by simp [free]), ← a.counted]

def alloc (a : BhIdAllocator capacity) : Option (Fin capacity × BhIdAllocator capacity) :=
  if a.allocatedCount ≥ capacity then none
  else
    match h : a.scan with
    | none => none
    | some id => some (id, a.take id (scan_free h))

/-- Freeing an id that is not allocated changes nothing. -/
def free (a : BhIdAllocator capacity) (id : Fin capacity) : BhIdAllocator capacity :=
  if h : a.bitmap id = true then
    { nextHint := a.nextHint
      allocatedCount := a.allocatedCount - 1
      bitmap := update a.bitmap id false
      counted := by
        have shrunk : (Finset.univ.filter fun x => update a.bitmap id false x = true) =
            (Finset.univ.filter fun x => a.bitmap x = true).erase id := by
          ext x
          by_cases hx : x = id
          · subst hx; simp
          · simp [hx]
        rw [shrunk, Finset.card_erase_of_mem (by simp [h]), ← a.counted] }
  else a

theorem alloc_some {a' : BhIdAllocator capacity} (h : a.alloc = some (id, a')) :
    a.bitmap id = false ∧ a'.bitmap = update a.bitmap id true := by
  unfold alloc at h
  split at h
  · cases h
  split at h
  · cases h
  rename_i found
  obtain ⟨rfl, rfl⟩ := h
  exact ⟨scan_free found, rfl⟩

theorem not_full (h : a.bitmap id = false) : a.allocatedCount < capacity := by
  have proper : (Finset.univ.filter fun x => a.bitmap x = true) ⊂ Finset.univ := by
    refine Finset.filter_ssubset.mpr ⟨id, Finset.mem_univ id, ?_⟩
    simp [h]
  simpa [a.counted] using Finset.card_lt_card proper

theorem scan_of_hint (hint : a.nextHint % capacity = id) (h : a.bitmap id = false) :
    a.scan = some id := by
  obtain ⟨n, rfl⟩ : ∃ n, capacity = n + 1 := Nat.exists_eq_add_one.mpr id.pos
  have first : (⟨(a.nextHint + (0 : Fin (n + 1)).val) % (n + 1), Nat.mod_lt _ id.pos⟩ : Fin (n + 1)) =
      id := Fin.ext (by simpa using hint)
  rw [scan, finRange_succ, map_cons, find?_cons, first, h]
  rfl

/-- An id that the hint points at and that is free is the one handed out. -/
theorem alloc_of_hint (hint : a.nextHint % capacity = id) (h : a.bitmap id = false) :
    a.alloc = some (id, a.take id h) := by
  unfold alloc
  rw [if_neg (Nat.not_le.mpr (not_full h))]
  have found := scan_of_hint hint h
  split
  · rename_i none; rw [none] at found; cases found
  rename_i other he
  obtain rfl : other = id := Option.some.inj (he.symm.trans found)
  rfl

@[simp] theorem free_bitmap : (a.free id).bitmap = update a.bitmap id false := by
  unfold free
  split
  · rfl
  rename_i h
  funext x
  by_cases hx : x = id
  · subst hx; simpa using h
  · simp [hx]

@[simp] theorem free_nextHint : (a.free id).nextHint = a.nextHint := by
  unfold free
  split <;> rfl

end BhIdAllocator

end BharatOS
