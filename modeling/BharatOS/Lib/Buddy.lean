import Mathlib.Algebra.Order.Ring.Nat
import Mathlib.Data.Nat.Bitwise
import Mathlib.Tactic.Ring

/-!
# Blocks of a buddy system

A block is a run of `2 ^ order` pages whose index is a multiple of its length; a block of the next
order is two buddies, whose indices differ in one bit. A weight that agrees with this (`Splits`)
does not see how pages are cut into blocks.
-/

namespace BharatOS

structure Block where
  node : Nat
  order : Nat
  index : Nat
  deriving DecidableEq, Repr

namespace Block

/-- Whether the page belongs to the block. -/
def Has (b : Block) (node page : Nat) : Prop :=
  b.node = node ∧ b.index ≤ page ∧ page < b.index + 2 ^ b.order

instance (b : Block) (node page : Nat) : Decidable (b.Has node page) :=
  inferInstanceAs (Decidable (_ ∧ _ ∧ _))

/-- How often the block holds the page. -/
def hold (node page : Nat) (b : Block) : Nat := if b.Has node page then 1 else 0

/-- How many pages of the node the block has. -/
def pagesOf (node : Nat) (b : Block) : Nat := if b.node = node then 2 ^ b.order else 0

/-- A weight of pages: a block weighs as much as its two halves. -/
def Splits (weight : Block → Nat) : Prop :=
  ∀ node order index, weight ⟨node, order + 1, index⟩ =
    weight ⟨node, order, index⟩ + weight ⟨node, order, index + 2 ^ order⟩

variable (node page : Nat) (b : Block)

theorem hold_eq : b.hold node page =
    if b.node = node ∧ b.index ≤ page ∧ page < b.index + 2 ^ b.order then 1 else 0 := rfl

theorem hold_splits : Splits (hold node page) := by
  intro n order index
  have double : 2 ^ (order + 1) = 2 ^ order + 2 ^ order := by ring
  simp only [hold_eq, double]
  split_ifs <;> omega

theorem pagesOf_splits : Splits (pagesOf node) := by
  intro n order index
  have double : 2 ^ (order + 1) = 2 ^ order + 2 ^ order := by ring
  simp only [pagesOf, double]
  split_ifs <;> omega

theorem hold_self : b.hold b.node b.index = 1 :=
  if_pos ⟨rfl, Nat.le_refl _, Nat.lt_add_of_pos_right (Nat.two_pow_pos _)⟩

end Block

/-- The bit of a number that a power of two names. -/
theorem xor_one_cases (q : Nat) : q % 2 = 0 ∧ q ^^^ 1 = q + 1 ∨ q % 2 = 1 ∧ q = (q ^^^ 1) + 1 := by
  have half : (q ^^^ 1) / 2 = q / 2 := by
    rw [Nat.xor_div_two]
    exact Nat.xor_zero _
  have parity : (q ^^^ 1) % 2 = (q + 1) % 2 := by
    rw [Nat.xor_mod_two_eq]
  omega

/-- The buddy of a block lies behind it, or it lies behind its buddy; the first of the two
begins where the block of the next order does. -/
theorem buddy_cases {index order : Nat} (aligned : 2 ^ order ∣ index) :
    2 ^ (order + 1) ∣ index ∧ index ^^^ 2 ^ order = index + 2 ^ order ∨
    2 ^ (order + 1) ∣ index ^^^ 2 ^ order ∧ index = (index ^^^ 2 ^ order) + 2 ^ order := by
  obtain ⟨q, rfl⟩ := aligned
  have swap : 2 ^ order * q ^^^ 2 ^ order = 2 ^ order * (q ^^^ 1) := by
    have shifted : (q ^^^ 1) <<< order = q <<< order ^^^ 1 <<< order := Nat.shiftLeft_xor_distrib
    simpa [Nat.shiftLeft_eq, Nat.mul_comm] using shifted.symm
  rw [swap, pow_succ]
  rcases xor_one_cases q with ⟨even, next⟩ | ⟨odd, next⟩
  · refine .inl ⟨Nat.mul_dvd_mul_left _ (Nat.dvd_of_mod_eq_zero even), ?_⟩
    rw [next]
    ring
  refine .inr ⟨Nat.mul_dvd_mul_left _ ?_, ?_⟩
  · omega
  · conv_lhs => rw [next]
    ring

/-- The first of a block and its buddy, as the block of the next order that they make up. -/
theorem buddy_lower {index order lower : Nat} (aligned : 2 ^ order ∣ index)
    (first : (if index ^^^ 2 ^ order < index then index ^^^ 2 ^ order else index) = lower) :
    2 ^ (order + 1) ∣ lower ∧ (index = lower ∧ index ^^^ 2 ^ order = lower + 2 ^ order ∨
        index ^^^ 2 ^ order = lower ∧ index = lower + 2 ^ order) := by
  rcases buddy_cases aligned with ⟨whole, behind⟩ | ⟨whole, behind⟩
  · rw [if_neg (by omega)] at first
    subst first
    exact ⟨whole, .inl ⟨rfl, behind⟩⟩
  rw [if_pos (by omega)] at first
  subst first
  exact ⟨whole, .inr ⟨rfl, behind⟩⟩

end BharatOS
