import BharatOS.Lib.Prog
import Mathlib.Data.List.Perm.Subperm
import Mathlib.Logic.Function.Basic

/-!
# Priority inheritance (`sched_pi.c`)

Whoever waits for a mutex lends its priority to the owner, to whoever the owner waits for, and so
on.
-/

namespace BharatOS

open Function List Prog

/-- `mutex_owner_entry_t`; `M` are mutexes, and `T` are threads. -/
structure MutexOwnerEntry (M T : Type) where
  mutex : Option M
  owner : Option T

/-- What `sched_on_mutex_wait` reads. It writes the priorities. -/
structure PiState (M T : Type) where
  priority : T → Nat
  waitingOnLock : T → Option M
  mutexOwners : List (MutexOwnerEntry M T)

namespace PiState

variable {M T : Type} [DecidableEq M] (s : PiState M T)

def schedFindMutexOwner (mutex : M) : Option T :=
  (s.mutexOwners.find? (·.mutex = some mutex)).bind (·.owner)

/-- The owners in the table. -/
def owners : List T := s.mutexOwners.filterMap (·.owner)

theorem find_mem {mutex : M} {owner : T} (found : s.schedFindMutexOwner mutex = some owner) :
    owner ∈ s.owners := by
  obtain ⟨e, found, is⟩ := Option.bind_eq_some_iff.mp found
  exact mem_filterMap.mpr ⟨e, mem_of_find?_eq_some found, is⟩

variable [DecidableEq T]

def schedInheritPriority (priority : T → Nat) (thread : T) (newPriority : Nat) : T → Nat :=
  if priority thread < newPriority then update priority thread newPriority else priority

/-- The body of the loop of `sched_on_mutex_wait`. The threads that it has raised are noted. -/
def boostRound (waiter : T) : (T → Nat) × List T × Option T →
    Prog ((T → Nat) × List T × Option T ⊕ (T → Nat) × List T)
  | (priority, raised, none) => pure (.inr (priority, raised))
  | (priority, raised, some owner) =>
    if owner ≠ waiter ∧ priority owner < priority waiter then
      let priority := schedInheritPriority priority owner (priority waiter)
      match s.waitingOnLock owner with
      | none => pure (.inr (priority, owner :: raised))
      | some lock => pure (.inl (priority, owner :: raised, s.schedFindMutexOwner lock))
    else pure (.inr (priority, raised))

def schedOnMutexWait (waiter : T) (mutex : M) : Prog ((T → Nat) × List T) :=
  let s := { s with waitingOnLock := update s.waitingOnLock waiter (some mutex) }
  loop (s.boostRound waiter) (s.priority, [], s.schedFindMutexOwner mutex)

/-- The walk has raised some owners to the priority of the waiter. -/
structure Raised (waiter : T) (priority : T → Nat) (raised : List T) : Prop where
  once : raised.Nodup
  owners : raised ⊆ s.owners
  lower : ∀ x ∈ raised, x ≠ waiter ∧ s.priority x < s.priority waiter
  now : ∀ x, priority x = if x ∈ raised then s.priority waiter else s.priority x

variable {s} {waiter owner : T} {priority : T → Nat} {raised : List T}

omit [DecidableEq M] in
theorem Raised.next (h : s.Raised waiter priority raised) (other : owner ≠ waiter)
    (low : priority owner < priority waiter) (owns : owner ∈ s.owners) :
    s.Raised waiter (schedInheritPriority priority owner (priority waiter)) (owner :: raised) := by
  have waits : priority waiter = s.priority waiter := by
    rw [h.now, if_neg fun member => (h.lower waiter member).1 rfl]
  have fresh : owner ∉ raised := by
    intro member
    rw [h.now owner, if_pos member, waits] at low
    exact Nat.lt_irrefl _ low
  have before : priority owner = s.priority owner := by rw [h.now, if_neg fresh]
  rw [schedInheritPriority, if_pos low]
  refine ⟨nodup_cons.mpr ⟨fresh, h.once⟩, cons_subset.mpr ⟨owns, h.owners⟩, ?_, fun x => ?_⟩
  · exact forall_mem_cons.mpr ⟨⟨other, by rwa [← before, ← waits]⟩, h.lower⟩
  · by_cases here : x = owner
    · simp [here, waits]
    · simp [here, h.now]

/-- Whatever the owners and whoever waits for whom: the walk ends, it raises each thread at most
once, and it lowers none. -/
theorem boosting_ends {mutex : M} :
    Returns (s.schedOnMutexWait waiter mutex) fun (priority, raised) => raised.Nodup ∧
      (∀ x, x ∉ raised → priority x = s.priority x) ∧ ∀ x, s.priority x ≤ priority x := by
  have walk : Returns (s.schedOnMutexWait waiter mutex) fun out => s.Raised waiter out.1 out.2 := by
    -- every round but the last raises one more owner
    refine .loop (fun k now => s.Raised waiter now.1 now.2.1 ∧
      (∀ o, now.2.2 = some o → o ∈ s.owners) ∧ k + now.2.1.length = s.owners.length + 1) ?_
      ⟨⟨nodup_nil, nil_subset _, nofun, fun x => by simp⟩, fun o => s.find_mem, rfl⟩
    rintro k ⟨priority, raised, owner⟩ ⟨h, owns, bound⟩
    cases owner with
    | none => exact .pure h
    | some owner =>
      simp only [boostRound]
      split_ifs with low
      · have next := h.next low.1 low.2 (owns owner rfl)
        have := (next.once.subperm next.owners).length_le
        split
        · exact .pure next
        · refine .pure ⟨k - 1, ?_, next, fun o => s.find_mem, ?_⟩
          · grind
          · grind
      · exact .pure h
  refine walk.mono fun out h => ⟨h.once, fun x same => by rw [h.now, if_neg same], fun x => ?_⟩
  rw [h.now]
  split_ifs with inside
  · exact Nat.le_of_lt (h.lower x inside).2
  · exact Nat.le_refl _

end PiState

end BharatOS
