import Mathlib.Logic.Relation

/-!
# Calls that run as atomic sections

A section of a call works on a shared state `σ` and a private frame `φ`, and ends with the frame to
go on with or with the value the call returns.
-/

namespace BharatOS

abbrev Sections (σ φ ρ : Type) := σ → φ → σ × (φ ⊕ ρ)

namespace Sections

variable {σ φ ρ : Type} (m : Sections σ φ ρ)

/-- Run a call alone for at most the given number of sections. -/
def run : Nat → σ → φ → Option (σ × ρ)
  | 0, _, _ => none
  | n + 1, s, f =>
    match m s f with
    | (s', .inl f') => run n s' f'
    | (s', .inr r) => some (s', r)

/-- The call, run alone from `s` and `f`, finishes in `s'` with value `r`. -/
def Returns (s : σ) (f : φ) (s' : σ) (r : ρ) : Prop := ∃ n, run m n s f = some (s', r)

/-- The same for a call whose first section has already run. -/
def Finishes (start : σ × (φ ⊕ ρ)) (s' : σ) (r : ρ) : Prop :=
  match start with
  | (s, .inl f) => Returns m s f s' r
  | (s, .inr r') => s' = s ∧ r = r'

/-- The call, run alone, gets from one state and frame to another. -/
inductive Reaches : σ → φ → σ → φ → Prop
  | refl (s : σ) (f : φ) : Reaches s f s f
  | step {s s₁ s₂ : σ} {f f₁ f₂ : φ} (now : m s f = (s₁, .inl f₁))
      (later : Reaches s₁ f₁ s₂ f₂) : Reaches s f s₂ f₂

variable {m} {s₁ s₂ s s' : σ} {f₁ f : φ} {r r₁ r₂ : ρ}

theorem Reaches.trans {s₃ : σ} {f₂ f₃ : φ} (h : Reaches m s₁ f₁ s₂ f₂) (h' : Reaches m s₂ f₂ s₃ f₃)
    : Reaches m s₁ f₁ s₃ f₃ := by
  induction h with
  | refl => exact h'
  | step now _ ih => exact .step now (ih h')

theorem Reaches.single {f' : φ} (now : m s f = (s', .inl f')) : Reaches m s f s' f' :=
  .step now (.refl s' f')

theorem returns_iff : Returns m s f s' r ↔ m s f = (s', .inr r) ∨
      ∃ s₁ f₁, m s f = (s₁, .inl f₁) ∧ Returns m s₁ f₁ s' r := by
  constructor
  · rintro ⟨n, hn⟩
    cases n with
    | zero => simp [run] at hn
    | succ n =>
      simp only [run] at hn
      cases step : m s f with
      | mk s₁ out =>
        rw [step] at hn
        cases out with
        | inl f₁ => exact .inr ⟨s₁, f₁, rfl, n, hn⟩
        | inr r₁ =>
          obtain ⟨rfl, rfl⟩ := hn
          exact .inl rfl
  · rintro (now | ⟨s₁, f₁, now, n, later⟩)
    · exact ⟨1, by simp [run, now]⟩
    · exact ⟨n + 1, by simpa [run, now] using later⟩

theorem Returns.last (now : m s f = (s', .inr r)) : Returns m s f s' r :=
  returns_iff.mpr (.inl now)

theorem Reaches.returns (h : Reaches m s f s₁ f₁) (done : Returns m s₁ f₁ s₂ r) :
    Returns m s f s₂ r := by
  induction h with
  | refl => exact done
  | step now _ ih => exact returns_iff.mpr (.inr ⟨_, _, now, ih done⟩)

theorem Returns.unique (h₁ : Returns m s f s₁ r₁) (h₂ : Returns m s f s₂ r₂) :
    s₁ = s₂ ∧ r₁ = r₂ := by
  obtain ⟨n, hn⟩ := h₁
  induction n generalizing s f with
  | zero => simp [run] at hn
  | succ n ih =>
    simp only [run] at hn
    rcases returns_iff.mp h₂ with now | ⟨s', f', now, later⟩ <;> rw [now] at hn
    · simp only [Option.some.injEq, Prod.mk.injEq] at hn
      exact ⟨hn.1.symm, hn.2.symm⟩
    · exact ih later hn

theorem Finishes.unique {start : σ × (φ ⊕ ρ)} (h₁ : Finishes m start s₁ r₁)
    (h₂ : Finishes m start s₂ r₂) : s₁ = s₂ ∧ r₁ = r₂ := by
  obtain ⟨s, f | r⟩ := start
  · exact Returns.unique h₁ h₂
  · exact ⟨h₁.1.trans h₂.1.symm, h₁.2.trans h₂.2.symm⟩

/-- The invariant rule: what every section keeps holds when the call returns. -/
theorem Returns.invariant (I : σ → φ → Prop) (Q : σ → ρ → Prop)
    (goOn : ∀ s f s' f', I s f → m s f = (s', .inl f') → I s' f')
    (finish : ∀ s f s' r, I s f → m s f = (s', .inr r) → Q s' r) (h : Returns m s f s' r)
    (start : I s f) : Q s' r := by
  obtain ⟨n, hn⟩ := h
  induction n generalizing s f with
  | zero => simp [run] at hn
  | succ n ih =>
    simp only [run] at hn
    cases step : m s f with
    | mk s₁ out =>
      rw [step] at hn
      cases out with
      | inl f₁ => exact ih (goOn s f s₁ f₁ start step) hn
      | inr r₁ =>
        simp only [Option.some.injEq, Prod.mk.injEq] at hn
        obtain ⟨rfl, rfl⟩ := hn
        exact finish s f s₁ r₁ start step

end Sections

end BharatOS
