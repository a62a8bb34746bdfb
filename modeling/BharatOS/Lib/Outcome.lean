import Mathlib.Order.Defs.Unbundled
import Mathlib.Tactic.SplitIfs

/-!
# Calls that may not return

`Ends R state s call`: if the call returns, `R` holds between the state `s` before it and the state
in its result.
-/

namespace BharatOS

variable {σ β γ : Type} {R R' : σ → σ → Prop} {state : β → σ} {state' : γ → σ} {s m : σ}

def Ends (R : σ → σ → Prop) (state : β → σ) (s : σ) (call : Option β) : Prop :=
  ∀ ⦃b⦄, call = some b → R s (state b)

namespace Ends

variable {call : Option β} {b : β}

theorem of (h : R s (state b)) : Ends R state s (some b) := by
  rintro _ ⟨⟩
  exact h

theorem pair {t : σ} {c : γ} (h : R s t) : Ends R (·.1) s (some (t, c)) := of h

theorem never : Ends R state s none := nofun

theorem ite {p : Prop} [Decidable p] {other : Option β} (yes : Ends R state s call)
    (no : Ends R state s other) : Ends R state s (if p then call else other) := by
  split_ifs <;> assumption

theorem mono (h : Ends R state s call) (sub : ∀ {t}, R s t → R' s t) : Ends R' state s call :=
  fun _ result => sub (h result)

variable [IsPreorder σ R]

theorem same : Ends R state (state b) (some b) := of (refl_of R _)

theorem after (first : R s m) (rest : Ends R state m call) : Ends R state s call :=
  fun _ result => trans_of R first (rest result)

theorem bind {f : β → Option γ} (first : Ends R state s call)
    (rest : ∀ b, Ends R state' (state b) (f b)) : Ends R state' s (call.bind f) := by
  intro c result
  obtain ⟨b, done, result⟩ := Option.bind_eq_some_iff.mp result
  exact trans_of R (first done) (rest b result)

theorem map {f : β → γ} (first : Ends R state s call) (rest : ∀ b, R (state b) (state' (f b))) :
    Ends R state' s (call.map f) := by
  intro c result
  obtain ⟨b, done, rfl⟩ := Option.map_eq_some_iff.mp result
  exact trans_of R (first done) (rest b)

end Ends

end BharatOS
