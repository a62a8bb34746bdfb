import BharatOS.Lib.CpuMask
import BharatOS.Lib.Runs
import Mathlib.Logic.Function.Basic

/-!
# Which cores run an address space (`aspace_switch.c`, `aspace.c`)

A switch clears the core's bit in the mask of the old address space, writes the core's pointer, and
sets the bit in the new one, if that one may still be activated.
-/

namespace BharatOS

open List

inductive AspaceState where
  | created | active | dying | poisoned | destroyed
  deriving DecidableEq, Repr

/-- Whether the calls that use an address space refuse it with `K_ERR_BAD_STATE`. -/
def AspaceState.refused : AspaceState → Bool
  | .dying | .poisoned | .destroyed => true
  | .created | .active => false

/-- `MAX_CPUS` of `cpu_local.h`. -/
def maxCpus : Nat := 32

def AspaceState.validForTlb (state : AspaceState) : Bool := state = .active ∨ state = .created

/-- `BHARAT_MAX_CPUS` of `hal_boot.h`. -/
def bharatMaxCpus : Nat := 256

/-- The part of an address space that tracks its cores. -/
structure AspaceTrack where
  state : AspaceState
  activeMask : BitVec 64
  deriving DecidableEq, Repr

namespace AspaceTrack

/-- `aspace_create`. -/
def fresh : AspaceTrack := ⟨.created, 0⟩

/-- `aspace_activate_on_cpu`; `none` if it returns an error. -/
def activateOnCpu (as : AspaceTrack) (cpu : Nat) : Option AspaceTrack :=
  if bharatMaxCpus ≤ cpu ∨ as.state.refused then none
  else some ⟨.active, setCpu as.activeMask cpu⟩

def deactivateOnCpu (as : AspaceTrack) (cpu : Nat) : AspaceTrack :=
  if bharatMaxCpus ≤ cpu then as else { as with activeMask := clearCpu as.activeMask cpu }

end AspaceTrack

/-- `currentAs` is the pointer of each core, `g_cpu_locals[core].current_as`. Address spaces
have numbers in the order in which they are created. -/
structure ActiveCores where
  currentAs : Nat → Option Nat
  aspaces : List AspaceTrack

inductive SwitchAction where
  | create
  | markPoisoned (as : Nat)
  | switch (core : Nat) (next : Option Nat) (domain : Option Bool)

namespace ActiveCores

def boot : ActiveCores := ⟨fun _ => none, []⟩

def modifyAspace (s : ActiveCores) (as : Nat) (change : AspaceTrack → AspaceTrack) : ActiveCores :=
  { s with aspaces := s.aspaces.modify as change }

def setCurrent (s : ActiveCores) (core : Nat) (as : Option Nat) : ActiveCores :=
  { s with currentAs := Function.update s.currentAs core as }

/-- The first half of a switch: the address space that `core` leaves forgets it. -/
def leave (s : ActiveCores) (core : Nat) : Option Nat → ActiveCores
  | some as => s.modifyAspace as (·.deactivateOnCpu core)
  | none => s

/-- The second half. The answer of `aspace_activate_on_cpu` is not looked at. -/
def enter (s : ActiveCores) (core : Nat) : Option Nat → ActiveCores
  | some as => (s.setCurrent core (some as)).modifyAspace as fun track =>
      (track.activateOnCpu core).getD track
  | none => s.setCurrent core none

/-- `mm_switch_active_aspace`; `none` if it panics. `domain` is the answer of
`prot_domain_activate`, if the new address space has a protection domain. -/
def mmSwitchActiveAspace (s : ActiveCores) (core : Nat) (prev next : Option Nat)
    (domain : Option Bool) : Option ActiveCores :=
  if maxCpus ≤ core then some s
  else if prev = next then some (s.setCurrent core next)
  else if next.isSome ∧ domain = some false then none
  else some ((s.leave core prev).enter core next)

/-- Each core passes the address space that it runs, and the one it goes to, if any, is one
that there is. -/
def step (s : ActiveCores) : SwitchAction → Option ActiveCores
  | .create => some { s with aspaces := s.aspaces ++ [.fresh] }
  | .markPoisoned as => some (s.modifyAspace as fun track => { track with state := .poisoned })
  | .switch core next domain =>
    if ∀ as ∈ next, as < s.aspaces.length then
      s.mmSwitchActiveAspace core (s.currentAs core) next domain
    else none

def Steps (s : ActiveCores) (a : SwitchAction) (s' : ActiveCores) : Prop := s.step a = some s'

/-- The pointers and the masks say the same. -/
def Truthful (s : ActiveCores) : Prop :=
  ∀ core as track, s.aspaces[as]? = some track →
    (s.currentAs core = some as ↔ track.activeMask.getLsbD core = true)

/-- A switch to another address space is to one that may be activated. -/
def TargetAlive (s : ActiveCores) : SwitchAction → Prop
  | .switch core (some as) _ => core < maxCpus → s.currentAs core ≠ some as →
      ∀ track ∈ s.aspaces[as]?, track.state.refused = false
  | _ => True

instance (s : ActiveCores) : (a : SwitchAction) → Decidable (s.TargetAlive a)
  | .switch core (some as) _ => inferInstanceAs (Decidable (core < maxCpus →
      s.currentAs core ≠ some as → ∀ track ∈ s.aspaces[as]?, track.state.refused = false))
  | .switch _ none _ | .create | .markPoisoned _ => .isTrue trivial

/-- No core has an address space that there is not. -/
def Known (s : ActiveCores) : Prop := ∀ core as, s.currentAs core = some as → as < s.aspaces.length

/-- Between the halves of a switch the masks leave `core` out. -/
def Vacated (s : ActiveCores) (core : Nat) : Prop :=
  ∀ other as track, s.aspaces[as]? = some track →
    (track.activeMask.getLsbD other = true ↔ other ≠ core ∧ s.currentAs other = some as)

variable {s : ActiveCores} {core : Nat} {change : AspaceTrack → AspaceTrack} {next : Option Nat}
  {as : Nat} {track : AspaceTrack} {prev : Option Nat} {t : ActiveCores}

theorem modifyAspace_lookup {other : Nat}
    (h : (s.modifyAspace as change).aspaces[other]? = some track) :
    (as = other ∧ ∃ old, s.aspaces[other]? = some old ∧ track = change old) ∨
      (as ≠ other ∧ s.aspaces[other]? = some track) := by
  rw [modifyAspace, getElem?_modify] at h
  obtain ⟨old, found, rfl⟩ := Option.map_eq_some_iff.mp h
  by_cases same : as = other
  · exact .inl ⟨same, old, found, if_pos same⟩
  · exact .inr ⟨same, by rw [if_neg same]; exact found⟩

theorem modifyAspace_length : (s.modifyAspace as change).aspaces.length = s.aspaces.length := by
  simp [modifyAspace]

/-- A change that keeps the mask of an address space keeps the masks truthful. -/
theorem Truthful.modify (h : s.Truthful)
    (same : ∀ track, (change track).activeMask = track.activeMask) :
    (s.modifyAspace as change).Truthful := by
  intro other as' track found
  rcases modifyAspace_lookup found with ⟨-, old, there, rfl⟩ | ⟨-, there⟩
  · rw [same]
    exact h other as' old there
  · exact h other as' track there

theorem Truthful.leave (h : s.Truthful) (small : core < maxCpus) :
    (s.leave core (s.currentAs core)).Vacated core := by
  have inRange : ¬ bharatMaxCpus ≤ core := by simp only [bharatMaxCpus, maxCpus] at *; omega
  intro other as track found
  cases current : s.currentAs core with
  | none =>
    rw [current] at found
    have truth := h other as track found
    refine ⟨fun set => ⟨?_, truth.mpr set⟩, fun ⟨_, runs⟩ => truth.mp runs⟩
    rintro rfl
    simp [current] at truth
    simp [truth] at set
  | some prev =>
    rw [current] at found
    rcases modifyAspace_lookup found with ⟨rfl, old, there, rfl⟩ | ⟨different, there⟩
    · have truth := h other prev old there
      rw [AspaceTrack.deactivateOnCpu, if_neg inRange, getLsbD_clearCpu]
      simp only [Bool.and_eq_true, Bool.not_eq_true', decide_eq_false_iff_not, ← truth]
      exact and_comm
    · have truth := h other as track there
      refine ⟨fun set => ⟨?_, truth.mpr set⟩, fun ⟨_, runs⟩ => truth.mp runs⟩
      rintro rfl
      exact different (Option.some.inj (current.symm.trans (truth.mpr set)))

theorem leave_state (found : (s.leave core prev).aspaces[as]? = some track) :
    ∃ old, s.aspaces[as]? = some old ∧ track.state = old.state := by
  cases prev with
  | none => exact ⟨track, found, rfl⟩
  | some p =>
    rcases modifyAspace_lookup found with ⟨rfl, old, there, rfl⟩ | ⟨-, there⟩
    · refine ⟨old, there, ?_⟩
      unfold AspaceTrack.deactivateOnCpu
      split <;> rfl
    · exact ⟨track, there, rfl⟩

theorem Vacated.enter (h : s.Vacated core) (small : core < maxCpus)
    (alive : ∀ as ∈ next, ∀ track, s.aspaces[as]? = some track → track.state.refused = false) :
    (s.enter core next).Truthful := by
  have inRange : ¬ bharatMaxCpus ≤ core := by simp only [bharatMaxCpus, maxCpus] at *; omega
  have wide : core < 64 := by simp only [maxCpus] at small; omega
  intro other as track found
  cases next with
  | none =>
    rw [h other as track found, ActiveCores.enter, setCurrent]
    by_cases own : other = core
    · simp [own]
    · simp [own]
  | some target =>
    rcases modifyAspace_lookup found with ⟨rfl, old, there, rfl⟩ | ⟨different, there⟩
    · have accepted := alive target rfl old there
      have mask := h other target old there
      simp only [AspaceTrack.activateOnCpu, inRange, accepted, ActiveCores.enter, modifyAspace,
        setCurrent, Bool.false_eq_true, or_self, if_false, Option.getD_some, getLsbD_setCpu _ wide,
        Bool.or_eq_true, mask, decide_eq_true_eq]
      by_cases own : other = core
      · simp [own]
      · simp [own]
    · have mask := h other as track there
      simp only [ActiveCores.enter, modifyAspace, setCurrent, mask]
      by_cases own : other = core
      · simp [own, different]
      · simp [own]

theorem Known.setCurrent (h : s.Known) (there : ∀ as ∈ next, as < s.aspaces.length) :
    (s.setCurrent core next).Known := by
  intro other as runs
  by_cases own : other = core
  · subst own
    exact there as (by simpa [ActiveCores.setCurrent] using runs)
  · exact h other as (by simpa [ActiveCores.setCurrent, Function.update_of_ne own] using runs)

theorem Known.modify (h : s.Known) : (s.modifyAspace as change).Known :=
  fun other as' runs => Nat.lt_of_lt_of_eq (h other as' runs) modifyAspace_length.symm

theorem Known.switched (h : s.Known) (there : ∀ as ∈ next, as < s.aspaces.length) :
    ((s.leave core prev).enter core next).Known := by
  have left : (s.leave core prev).Known ∧
      (s.leave core prev).aspaces.length = s.aspaces.length := by
    cases prev with
    | none => exact ⟨h, rfl⟩
    | some p => exact ⟨h.modify, modifyAspace_length⟩
  have there' := left.2 ▸ there
  cases next with
  | none => exact left.1.setCurrent there'
  | some as => exact (left.1.setCurrent there').modify

theorem setCurrent_own : s.setCurrent core (s.currentAs core) = s := by
  simp [setCurrent]

/-- What a switch does to the state. -/
theorem switch_cases {domain : Option Bool}
    (h : s.mmSwitchActiveAspace core (s.currentAs core) next domain = some t) :
    t = s ∨ (core < maxCpus ∧ s.currentAs core ≠ next ∧
      t = (s.leave core (s.currentAs core)).enter core next) := by
  unfold mmSwitchActiveAspace at h
  split at h
  · exact .inl (Option.some.inj h).symm
  split at h
  · rename_i same
    rw [← same, setCurrent_own] at h
    exact .inl (Option.some.inj h).symm
  rename_i small different
  split at h
  · cases h
  · exact .inr ⟨Nat.lt_of_not_le small, different, (Option.some.inj h).symm⟩

theorem step_keeps {a : SwitchAction} (h : s.Truthful ∧ s.Known) (alive : s.TargetAlive a)
    (next : s.Steps a t) : t.Truthful ∧ t.Known := by
  obtain ⟨truth, known⟩ := h
  cases a with
  | create =>
    cases next
    refine ⟨fun other as track found => ?_, fun other as runs => ?_⟩
    · rcases Nat.lt_or_ge as s.aspaces.length with old | new
      · rw [getElem?_append_left old] at found
        exact truth other as track found
      -- the new address space is active nowhere, and no pointer was ahead of it
      rw [getElem?_append_right new, getElem?_singleton] at found
      split at found
      · cases found
        have nowhere : s.currentAs other ≠ some as :=
          fun runs => Nat.not_lt.mpr new (known other as runs)
        simp [nowhere, AspaceTrack.fresh]
      · cases found
    · have before := known other as runs
      simp only [length_append, length_singleton]
      omega
  | markPoisoned as =>
    cases next
    exact ⟨truth.modify fun _ => rfl, known.modify⟩
  | switch core target domain =>
    simp only [Steps, step] at next
    split at next
    · rename_i there
      rcases switch_cases next with rfl | ⟨small, different, rfl⟩
      · exact ⟨truth, known⟩
      refine ⟨(truth.leave small).enter small ?_, known.switched there⟩
      rintro as isTarget track found
      cases isTarget
      obtain ⟨old, before, same⟩ := leave_state found
      rw [same]
      exact alive small different old before
    · cases next

/-- In every run in which no core switches to an address space that is being torn down or was
poisoned, the masks are the truth about what the cores run. -/
theorem active_mask_truthful {s : ActiveCores} (run : Run Steps TargetAlive boot s) :
    ∀ core as track, s.aspaces[as]? = some track →
      (s.currentAs core = some as ↔ track.activeMask.getLsbD core = true) := by
  have start : boot.Truthful ∧ boot.Known :=
    ⟨fun _ _ _ found => by simp [boot] at found, fun _ _ runs => by simp [boot] at runs⟩
  exact (run.invariant (fun t => t.Truthful ∧ t.Known) start fun _ _ _ h alive next =>
    step_keeps h alive next).1

/-- Two cores come to one address space, it is poisoned, and one of them leaves it. -/
def leavesPoisoned : List SwitchAction :=
  [.create, .create, .switch 0 (some 0) none, .switch 1 (some 0) (some true), .markPoisoned 0,
    .switch 0 (some 1) none]

theorem active_mask_truthful_poisoned : ∃ s, Run Steps TargetAlive boot s ∧
    s.aspaces[0]? = some ⟨.poisoned, 2⟩ ∧ ∀ core,
      (s.currentAs core = some 0 ↔ (2 : BitVec 64).getLsbD core = true) := by
  exact found_run_then leavesPoisoned (by decide +kernel) fun s run found core =>
    active_mask_truthful run core 0 _ found

/-- A core that switches to a poisoned address space runs it, and the mask does not say so. -/
theorem switch_to_poisoned_untracked : ∃ s track, Run Steps (fun _ _ => True) boot s ∧
    s.currentAs 0 = some 0 ∧ s.aspaces[0]? = some track ∧ track.activeMask.getLsbD 0 = false := by
  simp only [exists_and_left]
  exact found_run [.create, .markPoisoned 0, .switch 0 (some 0) none] (by decide +kernel)

end ActiveCores

end BharatOS
