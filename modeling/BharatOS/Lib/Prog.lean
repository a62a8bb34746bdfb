import Mathlib.Order.Basic

/-!
# Programs with loops

A `Prog` runs with some fuel, the number of times that each of its loops may go round.
`Returns x Q`: with enough fuel `x` has a result, the same for any such fuel, and `Q` holds of it.
-/

namespace BharatOS

open Option

def Prog (α : Type) : Type := Nat → Option α

namespace Prog

variable {α β σ : Type}

instance : Monad Prog where
  pure a := fun _ => some a
  bind x f := fun fuel => (x fuel).bind fun a => f a fuel

/-- The pointer must not be null. -/
def deref (p : Option α) : Prog α := fun _ => p

def iter (body : σ → Prog (σ ⊕ α)) : Nat → σ → Prog α
  | 0, _ => fun _ => none
  | k + 1, s => do
    match ← body s with
    | .inl next => iter body k next
    | .inr result => pure result

/-- Go round until the body gives a result. -/
def loop (body : σ → Prog (σ ⊕ α)) (s : σ) : Prog α := fun fuel => iter body fuel s fuel

def Returns (x : Prog α) (Q : α → Prop) : Prop :=
  ∃ a, Q a ∧ (∃ enough, ∀ fuel, enough ≤ fuel → x fuel = some a) ∧
    ∀ fuel b, x fuel = some b → b = a

namespace Returns

variable {Q Q' : α → Prop} {R : β → Prop} {x : Prog α} {a : α}

theorem post (h : Returns x Q) {fuel : Nat} {b : α} (result : x fuel = some b) : Q b := by
  obtain ⟨a, holds, -, only⟩ := h
  exact only fuel b result ▸ holds

theorem mono (h : Returns x Q) (weaker : ∀ a, Q a → Q' a) : Returns x Q' := by
  obtain ⟨a, holds, rest⟩ := h
  exact ⟨a, weaker a holds, rest⟩

theorem pure (holds : Q a) : Returns (Pure.pure a) Q :=
  ⟨a, holds, ⟨0, fun _ _ => rfl⟩, fun _ _ result => (some.inj result).symm⟩

theorem deref {p : Option α} (found : p = some a) (holds : Q a) : Returns (Prog.deref p) Q := by
  subst found
  exact pure holds

theorem bind {f : α → Prog β} (first : Returns x Q) (later : ∀ a, Q a → Returns (f a) R) :
    Returns (x >>= f) R := by
  obtain ⟨a, holds, ⟨m, some_a⟩, only_a⟩ := first
  obtain ⟨b, holds', ⟨n, some_b⟩, only_b⟩ := later a holds
  refine ⟨b, holds', ⟨max m n, fun fuel enough => ?_⟩, fun fuel c result => ?_⟩
  · change (x fuel).bind _ = some b
    rw [some_a fuel (Nat.le_trans (Nat.le_max_left m n) enough), bind_some]
    exact some_b fuel (Nat.le_trans (Nat.le_max_right m n) enough)
  · obtain ⟨a', now, then_⟩ := bind_eq_some_iff.mp result
    obtain rfl := only_a fuel a' now
    exact only_b fuel c then_

/-- What the body keeps, with a bound that gets smaller every time round. -/
theorem loop {body : σ → Prog (σ ⊕ α)} (I : Nat → σ → Prop)
    (step : ∀ k s, I k s → Returns (body s) fun
      | .inl next => ∃ j, j < k ∧ I j next
      | .inr result => Q result)
    {k : Nat} {s : σ} (start : I k s) : Returns (Prog.loop body s) Q := by
  suffices all : ∃ a, Q a ∧ (∃ enough, ∀ n fuel, enough ≤ n → enough ≤ fuel →
      iter body n s fuel = some a) ∧ ∀ n fuel b, iter body n s fuel = some b → b = a by
    obtain ⟨a, holds, ⟨enough, gives⟩, only⟩ := all
    exact ⟨a, holds, ⟨enough, fun fuel h => gives fuel fuel h h⟩, fun fuel b => only fuel fuel b⟩
  induction k using Nat.strongRecOn generalizing s with
  | ind k ih =>
    obtain ⟨r, holds, ⟨m, some_r⟩, only_r⟩ := step k s start
    cases r with
    | inl next =>
      obtain ⟨j, less, inv⟩ := holds
      obtain ⟨a, holds, ⟨enough, gives⟩, only⟩ := ih j less inv
      refine ⟨a, holds, ⟨max m enough + 1, fun n fuel atLeast have_ => ?_⟩,
        fun n fuel b result => ?_⟩
      · obtain _ | n := n
        · omega
        change (body s fuel).bind _ = some a
        rw [some_r fuel (by omega), bind_some]
        exact gives n fuel (by omega) (by omega)
      · cases n with
        | zero => cases result
        | succ n =>
          obtain ⟨r', now, later⟩ := bind_eq_some_iff.mp result
          obtain rfl := only_r fuel r' now
          exact only n fuel b later
    | inr a =>
      refine ⟨a, holds, ⟨m + 1, fun n fuel atLeast have_ => ?_⟩, fun n fuel b result => ?_⟩
      · obtain _ | n := n
        · omega
        change (body s fuel).bind _ = some a
        rw [some_r fuel (by omega)]
        rfl
      · cases n with
        | zero => cases result
        | succ n =>
          obtain ⟨r', now, later⟩ := bind_eq_some_iff.mp result
          obtain rfl := only_r fuel r' now
          exact (some.inj later).symm

end Returns

/-- `Q` holds of a result, if there is one. -/
def Yields (x : Prog α) (Q : α → Prop) : Prop := ∀ fuel a, x fuel = some a → Q a

namespace Yields

variable {Q Q' : α → Prop} {R : β → Prop} {x : Prog α}

theorem of_returns (h : Returns x Q) : Yields x Q := fun _ _ result => h.post result

theorem mono (h : Yields x Q) (weaker : ∀ a, Q a → Q' a) : Yields x Q' :=
  fun fuel a result => weaker a (h fuel a result)

theorem pure {a : α} (holds : Q a) : Yields (Pure.pure a) Q :=
  fun _ _ result => some.inj result ▸ holds

theorem deref (p : Option α) : Yields (Prog.deref p) (p = some ·) := fun _ _ result => result

theorem bind {f : α → Prog β} (first : Yields x Q) (later : ∀ a, Q a → Yields (f a) R) :
    Yields (x >>= f) R := by
  intro fuel b result
  obtain ⟨a, now, then_⟩ := bind_eq_some_iff.mp result
  exact later a (first fuel a now) fuel b then_

theorem loop {body : σ → Prog (σ ⊕ α)} (I : σ → Prop) (step : ∀ s, I s → Yields (body s) fun
      | .inl next => I next
      | .inr result => Q result)
    {s : σ} (start : I s) : Yields (Prog.loop body s) Q := by
  intro fuel a
  suffices all : ∀ n s, I s → iter body n s fuel = some a → Q a from all fuel s start
  intro n
  induction n with
  | zero => exact fun _ _ => nofun
  | succ n ih =>
    intro s inv result
    obtain ⟨r, now, later⟩ := bind_eq_some_iff.mp result
    have kept := step s inv fuel r now
    cases r with
    | inl next => exact ih next kept later
    | inr b => exact some.inj later ▸ kept

end Yields

end Prog

end BharatOS
