/-!
# Runs of a step relation

`Run step ok s t`: from `s` the system gets to `t` by steps that all meet the
condition `ok` in the state they start from. What such steps keep, runs keep.
-/

namespace BharatOS

inductive Run {σ α : Type} (step : σ → α → σ → Prop) (ok : σ → α → Prop) (s : σ) : σ → Prop
  | refl : Run step ok s s
  | tail {t u : σ} {a : α} (before : Run step ok s t) (allowed : ok t a) (last : step t a u) :
      Run step ok s u

namespace Run

variable {σ α : Type} {step : σ → α → σ → Prop} {ok : σ → α → Prop} {s t : σ}

theorem invariant (run : Run step ok s t) (I : σ → Prop) (start : I s)
    (keeps : ∀ t a u, I t → ok t a → step t a u → I u) : I t := by
  induction run with
  | refl => exact start
  | tail _ allowed last ih => exact keeps _ _ _ ih allowed last

theorem trans {u : σ} (run : Run step ok s t) (later : Run step ok t u) : Run step ok s u := by
  induction later with
  | refl => exact run
  | tail _ allowed last ih => exact .tail ih allowed last

/-- A run of one system is a run of another that can take its steps. -/
theorem lift {β : Type} {step' : σ → β → σ → Prop} {ok' : σ → β → Prop} (f : α → β)
    (simulates : ∀ s a t, ok s a → step s a t → ok' s (f a) ∧ step' s (f a) t)
    (run : Run step ok s t) : Run step' ok' s t := by
  induction run with
  | refl => exact .refl
  | tail _ allowed last ih =>
    obtain ⟨allowed', last'⟩ := simulates _ _ _ allowed last
    exact .tail ih allowed' last'

end Run

/-- Take the actions one after the other. -/
def exec {σ α : Type} (step : σ → α → Option σ) : σ → List α → Option σ
  | s, [] => some s
  | s, a :: rest => (step s a).bind fun t => exec step t rest

/-- Whether a computation succeeds, with a result of which `p` holds. -/
instance existsSome {σ : Type} {p : σ → Prop} [∀ t, Decidable (p t)] :
    (last? : Option σ) → Decidable (∃ t, last? = some t ∧ p t)
  | none => isFalse (by simp)
  | some t => decidable_of_iff (p t) (by simp)

instance existsSomeWith {σ α : Type} {p : σ → Prop} [∀ t, Decidable (p t)] [DecidableEq α] {a : α} :
    (last? : Option (σ × α)) → Decidable (∃ t, last? = some (t, a) ∧ p t)
  | none => isFalse (by simp)
  | some (t, b) => decidable_of_iff (b = a ∧ p t) (by simp [and_assoc])

instance existsResult {σ : Type} (last? : Option σ) : Decidable (∃ t, last? = some t) :=
  decidable_of_iff _ Option.isSome_iff_exists

variable {α σ : Type} {actions : List α} {ok : σ → α → Prop} {s t : σ} {step : σ → α → Option σ}

theorem exec_run (allowed : ∀ a ∈ actions, ∀ s, ok s a) (h : exec step s actions = some t) :
    Run (fun s a t => step s a = some t) ok s t := by
  induction actions generalizing s with
  | nil => cases h; exact .refl
  | cons a rest ih =>
    obtain ⟨s₁, now, later⟩ := Option.bind_eq_some_iff.mp h
    exact .trans (.tail .refl (allowed a List.mem_cons_self s) now)
      (ih (fun b hb => allowed b (List.mem_cons_of_mem _ hb)) later)

theorem run_of_exec (h : exec step s actions = some t) :
    Run (fun s a t => step s a = some t) (fun _ _ => True) s t :=
  exec_run (fun _ _ _ => trivial) h

/-- Take only steps that meet the condition. -/
def guarded {σ α : Type} (step : σ → α → Option σ) (ok : σ → α → Prop)
    [∀ s a, Decidable (ok s a)] (s : σ) (a : α) : Option σ :=
  if ok s a then step s a else none

theorem guarded_run [∀ s a, Decidable (ok s a)] (h : exec (guarded step ok) s actions = some t) :
    Run (fun s a t => step s a = some t) ok s t := by
  refine (run_of_exec h).lift id fun s a t _ now => ?_
  unfold guarded at now
  split at now
  · exact ⟨‹_›, now⟩
  · cases now

section Found

variable {σ α : Type} {step : σ → α → Option σ} {ok : σ → α → Prop} [∀ s a, Decidable (ok s a)]
  {s : σ} {p q : σ → Prop} (actions : List α)
  (found : ∃ t, exec (guarded step ok) s actions = some t ∧ p t)

include found

/-- A run that is found by taking some actions. -/
theorem found_run : ∃ t, Run (fun s a t => step s a = some t) ok s t ∧ p t :=
  found.imp fun _ => .imp_left guarded_run

theorem found_run_then (holds : ∀ t, Run (fun s a t => step s a = some t) ok s t → p t → q t) :
    ∃ t, Run (fun s a t => step s a = some t) ok s t ∧ p t ∧ q t := by
  obtain ⟨t, run, h⟩ := found_run actions found
  exact ⟨t, run, h, holds t run h⟩

omit found in
theorem found_run_then_both {p' : σ → Prop}
    (found : ∃ t, exec (guarded step ok) s actions = some t ∧ p t ∧ p' t)
    (holds : ∀ t, Run (fun s a t => step s a = some t) ok s t → p t → p' t → q t) :
    ∃ t, Run (fun s a t => step s a = some t) ok s t ∧ p t ∧ p' t ∧ q t := by
  obtain ⟨t, run, h, h'⟩ := found_run actions found
  exact ⟨t, run, h, h', holds t run h h'⟩

end Found

end BharatOS
