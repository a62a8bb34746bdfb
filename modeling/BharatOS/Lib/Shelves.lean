import Mathlib

/-!
# Sums over shelves

A family of lists, one shelf for each key of a finite set, and a weight for every item on it.
-/

namespace BharatOS

open List

variable {ι α : Type} {keys : Finset ι} {shelf : ι → List α} {k : ι} {a : α}

def shelfSum (keys : Finset ι) (shelf : ι → List α) (weight : ι → α → Nat) : Nat :=
  ∑ k ∈ keys, ((shelf k).map (weight k)).sum

variable {weight : ι → α → Nat}

theorem shelfSum_congr {weight' : ι → α → Nat}
    (same : ∀ k ∈ keys, ∀ a ∈ shelf k, weight k a = weight' k a) :
    shelfSum keys shelf weight = shelfSum keys shelf weight' :=
  Finset.sum_congr rfl fun k listed => congrArg sum (map_congr_left (same k listed))

theorem le_shelfSum (weight : ι → α → Nat) (listed : k ∈ keys) (there : a ∈ shelf k) :
    weight k a ≤ shelfSum keys shelf weight :=
  calc weight k a ≤ ((shelf k).map (weight k)).sum :=
        single_le_sum (fun _ _ => Nat.zero_le _) _ (List.mem_map_of_mem there)
    _ ≤ shelfSum keys shelf weight :=
        Finset.single_le_sum (f := fun k => ((shelf k).map (weight k)).sum)
          (fun _ _ => Nat.zero_le _) listed

theorem shelfSum_zero (light : ∀ k ∈ keys, ∀ a ∈ shelf k, weight k a = 0) :
    shelfSum keys shelf weight = 0 := by
  refine Finset.sum_eq_zero fun k listed => sum_eq_zero fun w there => ?_
  obtain ⟨a, on, rfl⟩ := List.mem_map.mp there
  exact light k listed a on

theorem exists_of_shelfSum_pos (some' : 0 < shelfSum keys shelf weight) :
    ∃ k ∈ keys, ∃ a ∈ shelf k, 0 < weight k a := by
  by_contra none'
  refine Nat.ne_of_gt some' (shelfSum_zero fun k listed a there => ?_)
  by_contra heavy
  exact none' ⟨k, listed, a, there, Nat.pos_of_ne_zero heavy⟩

variable [DecidableEq ι]

/-- One shelf is filled anew. -/
theorem shelfSum_update (shelf : ι → List α) (weight : ι → α → Nat) (listed : k ∈ keys)
    (items : List α) :
    shelfSum keys (Function.update shelf k items) weight + ((shelf k).map (weight k)).sum =
      shelfSum keys shelf weight + (items.map (weight k)).sum := by
  have others : ∑ i ∈ keys.erase k, ((Function.update shelf k items i).map (weight i)).sum =
      ∑ i ∈ keys.erase k, ((shelf i).map (weight i)).sum :=
    Finset.sum_congr rfl fun i hi => by rw [Function.update_of_ne (Finset.ne_of_mem_erase hi)]
  have before := Finset.add_sum_erase keys (fun i => ((shelf i).map (weight i)).sum) listed
  have after := Finset.add_sum_erase keys
    (fun i => ((Function.update shelf k items i).map (weight i)).sum) listed
  simp only [Function.update_self] at after
  unfold shelfSum
  omega

section

variable (weight : ι → α → Nat) (listed : k ∈ keys) {items : List α}

include listed

theorem shelfSum_put (more : items ~ a :: shelf k) :
    shelfSum keys (Function.update shelf k items) weight =
      shelfSum keys shelf weight + weight k a := by
  have changed := shelfSum_update shelf weight listed items
  have with' := (more.map (weight k)).sum_eq
  rw [map_cons, sum_cons] at with'
  omega

theorem shelfSum_take (less : shelf k ~ a :: items) :
    shelfSum keys (Function.update shelf k items) weight + weight k a =
      shelfSum keys shelf weight := by
  have changed := shelfSum_update shelf weight listed items
  have without := (less.map (weight k)).sum_eq
  rw [map_cons, sum_cons] at without
  omega

end

variable {items : List α} {j : ι} {x : α} (there : x ∈ Function.update shelf k items j)

include there

theorem mem_of_put (more : items ~ a :: shelf k) : x ∈ shelf j ∨ j = k ∧ x = a := by
  by_cases same : j = k
  · subst same
    rw [Function.update_self, more.mem_iff, mem_cons] at there
    exact there.symm.imp_right fun new => ⟨rfl, new⟩
  · rw [Function.update_of_ne same] at there
    exact .inl there

theorem mem_of_take (less : shelf k ~ a :: items) : x ∈ shelf j := by
  by_cases same : j = k
  · subst same
    rw [Function.update_self] at there
    exact less.mem_iff.mpr (mem_cons_of_mem a there)
  · rwa [Function.update_of_ne same] at there

end BharatOS
