import Mathlib.Algebra.Order.BigOperators.Group.Finset
import Mathlib.Data.Fintype.BigOperators

/-!
# Counting the members of a family

`tally p f` is the number of members of the finite family `f` that have the property `p`.
-/

namespace BharatOS

open Finset Function Option

variable {ι α : Type} [Fintype ι] {p : α → Bool} {f g : ι → α}

def tally (p : α → Bool) (f : ι → α) : Nat := ∑ i, (p (f i)).toNat

theorem tally_congr (same : ∀ i, p (g i) = p (f i)) : tally p g = tally p f :=
  sum_congr rfl fun i _ => by rw [same]

theorem tally_le_card (p : α → Bool) (f : ι → α) : tally p f ≤ Fintype.card ι := by
  have each : ∀ i ∈ univ, (p (f i)).toNat ≤ 1 := fun i _ => Bool.toNat_le _
  simpa [tally] using sum_le_card_nsmul univ _ 1 each

theorem tally_eq_zero : tally p f = 0 ↔ ∀ i, p (f i) = false := by
  simp [tally]

theorem tally_or {q : α → Bool} (apart : ∀ a, p a = true → q a = false) :
    tally (fun a => p a || q a) f = tally p f + tally q f := by
  unfold tally
  rw [← sum_add_distrib]
  refine sum_congr rfl fun i _ => ?_
  cases holds : p (f i) with
  | false => simp [holds]
  | true => simp [holds, apart _ holds]

/-- Numbers below `n` that no two members share: those that are named and those that are
not are `n` in all. -/
theorem tally_isSome_add {f : ι → Option Nat} {n : Nat}
    [DecidablePred fun t : Nat => ∀ i, f i ≠ some t] (below : ∀ i t, f i = some t → t < n)
    (apart : ∀ i j t, f i = some t → f j = some t → i = j) :
    tally isSome f + ((List.range n).filter fun t => ∀ i, f i ≠ some t).length = n := by
  have named : tally isSome f = ((range n).filter fun t => ¬ ∀ i, f i ≠ some t).card := by
    have counted : tally isSome f = (univ.filter fun i => (f i).isSome).card := by
      simp only [tally, card_filter, Bool.toNat, Bool.cond_eq_ite]
    rw [counted]
    refine card_nbij (fun i => (f i).getD 0) ?_ ?_ ?_
    · intro i hi
      obtain ⟨t, is⟩ := isSome_iff_exists.mp (mem_filter.mp hi).2
      simpa [is] using ⟨below i t is, i, is⟩
    · intro i hi j hj same
      obtain ⟨t, is⟩ := isSome_iff_exists.mp (mem_filter.mp hi).2
      obtain ⟨u, is'⟩ := isSome_iff_exists.mp (mem_filter.mp hj).2
      simp only [is, is', getD_some] at same
      exact apart i j t is (same ▸ is')
    · intro t ht
      obtain ⟨i, is⟩ : ∃ i, f i = some t := by simpa using (mem_filter.mp ht).2
      exact ⟨i, by simp [is], by simp [is]⟩
  have total := card_filter_add_card_filter_not (s := range n) fun t => ∀ i, f i ≠ some t
  rw [card_range] at total
  rw [named, Nat.add_comm]
  exact total

variable [DecidableEq ι]

/-- One member changes. -/
theorem tally_update (p : α → Bool) (f : ι → α) (i : ι) (a : α) :
    tally p (update f i a) + (p (f i)).toNat = tally p f + (p a).toNat := by
  have others : ∑ j ∈ univ.erase i, (p (update f i a j)).toNat =
      ∑ j ∈ univ.erase i, (p (f j)).toNat :=
    sum_congr rfl fun j hj => by rw [update_of_ne (ne_of_mem_erase hj)]
  have before := add_sum_erase univ (fun j => (p (f j)).toNat) (mem_univ i)
  have after := add_sum_erase univ (fun j => (p (update f i a j)).toNat) (mem_univ i)
  simp only [update_self] at after
  unfold tally
  omega

/-- Two members that have the property. -/
theorem two_le_tally {i j : ι} (ne : i ≠ j) (hi : p (f i) = true) (hj : p (f j) = true) :
    2 ≤ tally p f := by
  have first := add_sum_erase univ (fun j => (p (f j)).toNat) (mem_univ i)
  have second := single_le_sum (fun k _ => Nat.zero_le (p (f k)).toNat)
    (mem_erase.mpr ⟨ne.symm, mem_univ j⟩)
  simp only [hi, hj, Bool.toNat_true] at first second
  unfold tally
  omega

end BharatOS
