import BharatOS.Ipc.IpcSystem
import Mathlib.Data.List.Nodup

/-!
# The links of a wait queue (`sched_wait.c`, `endpoint_ipc.c`, `sched_core.c`)

A timer tick clears the links of the threads whose time is over, wherever in the queue they are.
-/

namespace BharatOS

open Function List

/-- `wait_queue_t`, and the `next_waiter` of all threads. -/
structure WaitQueue where
  head : Option Nat := none
  tail : Option Nat := none
  nextWaiter : Nat → Option Nat := fun _ => none

namespace WaitQueue

def setNext (q : WaitQueue) (t : Nat) (next : Option Nat) : WaitQueue :=
  { q with nextWaiter := update q.nextWaiter t next }

def schedWaitQueueEnqueue (q : WaitQueue) (t : Nat) : WaitQueue :=
  let q := q.setNext t none
  match q.tail with
  | none => { q with head := some t, tail := some t }
  | some last => { q.setNext last (some t) with tail := some t }

/-- `curr` leaves the queue, whose thread before it is `prev`. -/
def unlink (q : WaitQueue) (prev : Option Nat) (curr : Nat) : WaitQueue :=
  let next := q.nextWaiter curr
  let q := match prev with
    | some p => q.setNext p next
    | none => { q with head := next }
  { q with tail := if q.tail = some curr then prev else q.tail }.setNext curr none

def removeLoop (q : WaitQueue) (target : Nat) : Nat → Option Nat → Option Nat → WaitQueue × Bool
  | fuel + 1, prev, some curr =>
    if curr = target then (q.unlink prev curr, true)
    else q.removeLoop target fuel (some curr) (q.nextWaiter curr)
  | _, _, _ => (q, false)

def ipcWaitQueueRemove (fuel : Nat) (q : WaitQueue) (target : Nat) : WaitQueue × Bool :=
  q.removeLoop target fuel none q.head

/-- The sweep of the blocked threads in `sched_on_timer_tick`. -/
def schedOnTimerTick (q : WaitQueue) (timedOut : List Nat) : WaitQueue :=
  { q with nextWaiter := fun t => if t ∈ timedOut then none else q.nextWaiter t }

/-- The threads that were woken take themselves out, one after the other. -/
def cleanUp (fuel : Nat) (woken : List Nat) (q : WaitQueue) : WaitQueue :=
  woken.foldl (fun q t => (q.ipcWaitQueueRemove fuel t).1) q

/-- From the head, the links lead through the threads and end. -/
def Leads (next : Nat → Option Nat) : Option Nat → List Nat → Prop
  | head, [] => head = none
  | head, t :: rest => head = some t ∧ Leads next (next t) rest

/-- The queue holds these threads, in this order. -/
structure Holds (q : WaitQueue) (waiters : List Nat) : Prop where
  leads : Leads q.nextWaiter q.head waiters
  tail : q.tail = waiters.getLast?

variable {next next' : Nat → Option Nat} {head : Option Nat} {xs ys zs waiters timedOut : List Nat}
  {q : WaitQueue} {t fuel : Nat}

namespace Leads

theorem congr (h : Leads next head xs) (same : ∀ x ∈ xs, next' x = next x) :
    Leads next' head xs := by
  induction xs generalizing head with
  | nil => exact h
  | cons x xs ih =>
    refine ⟨h.1, ?_⟩
    rw [same x mem_cons_self]
    exact ih h.2 fun y member => same y (mem_cons_of_mem _ member)

theorem unique (h : Leads next head xs) (h' : Leads next head ys) : xs = ys := by
  induction xs generalizing head ys with
  | nil => cases ys with
    | nil => rfl
    | cons y ys => cases h.symm.trans h'.1
  | cons x xs ih => cases ys with
    | nil => cases h'.symm.trans h.1
    | cons y ys =>
      obtain rfl := Option.some.inj (h.1.symm.trans h'.1)
      rw [ih h.2 h'.2]

/-- The way behind a thread is changed. -/
theorem behind (h : Leads next head (xs ++ t :: ys)) (same : ∀ x ∈ xs, next' x = next x)
    (rest : Leads next' (next' t) zs) : Leads next' head (xs ++ t :: zs) := by
  induction xs generalizing head with
  | nil => exact ⟨h.1, rest⟩
  | cons x xs ih =>
    refine ⟨h.1, ?_⟩
    rw [same x mem_cons_self]
    exact ih h.2 fun y member => same y (mem_cons_of_mem _ member)

theorem drop (h : Leads next head (xs ++ t :: ys)) : Leads next (next t) ys := by
  induction xs generalizing head with
  | nil => exact h.2
  | cons x xs ih => exact ih h.2

end Leads

/-! ## What the calls do to a queue -/

theorem Holds.enqueue (h : q.Holds waiters) (once : waiters.Nodup) (new : t ∉ waiters) :
    (q.schedWaitQueueEnqueue t).Holds (waiters ++ [t]) := by
  have last := h.tail
  unfold schedWaitQueueEnqueue
  rcases waiters.eq_nil_or_concat' with rfl | ⟨xs, p, rfl⟩
  · simp only [setNext, last, getLast?_nil]
    exact ⟨⟨rfl, update_self ..⟩, rfl⟩
  rw [getLast?_concat] at last
  simp only [setNext, last]
  refine ⟨?_, by simp⟩
  rw [append_assoc]
  refine h.leads.behind (fun x member => ?_) ?_
  · have others : x ≠ p ∧ x ≠ t := by grind
    simp [others]
  · have ne : t ≠ p := by grind
    simp [Leads, ne]

theorem removeLoop_absent {prev : Option Nat} (h : Leads q.nextWaiter head xs) (out : t ∉ xs) :
    q.removeLoop t fuel prev head = (q, false) := by
  induction xs generalizing fuel prev head with
  | nil => rw [show head = none from h]; cases fuel <;> rfl
  | cons x xs ih =>
    obtain ⟨ne, out⟩ := not_or.mp (mem_cons.not.mp out)
    rw [h.1]
    cases fuel with
    | zero => rfl
    | succ fuel =>
      rw [removeLoop, if_neg (Ne.symm ne)]
      exact ih h.2 out

theorem removeLoop_present {prev : Option Nat} (h : Leads q.nextWaiter head (xs ++ t :: ys))
    (first : t ∉ xs) (enough : xs.length < fuel) :
    q.removeLoop t fuel prev head = (q.unlink (xs.getLast?.or prev) t, true) := by
  induction xs generalizing fuel prev head with
  | nil =>
    obtain ⟨fuel, rfl⟩ := Nat.exists_eq_succ_of_ne_zero (Nat.ne_of_gt enough)
    rw [h.1, removeLoop, if_pos rfl]
    rfl
  | cons x xs ih =>
    obtain ⟨ne, first⟩ := not_or.mp (mem_cons.not.mp first)
    obtain ⟨fuel, rfl⟩ := Nat.exists_eq_succ_of_ne_zero (Nat.ne_of_gt (Nat.zero_lt_of_lt enough))
    rw [h.1, removeLoop, if_neg (Ne.symm ne), ih h.2 first (Nat.lt_of_succ_lt_succ enough),
      getLast?_cons]
    cases xs.getLast? <;> rfl

/-- A thread that the links lead to is taken out. -/
theorem remove_present (h : Leads q.nextWaiter q.head (xs ++ t :: ys)) (once : (xs ++ t :: ys).Nodup)
    (enough : xs.length < fuel) :
    Leads (q.ipcWaitQueueRemove fuel t).1.nextWaiter (q.ipcWaitQueueRemove fuel t).1.head
        (xs ++ ys) ∧ (q.ipcWaitQueueRemove fuel t).1.tail =
        if q.tail = some t then xs.getLast? else q.tail := by
  obtain ⟨once', behind, apart⟩ := nodup_append.mp once
  have first : t ∉ xs := fun member => apart t member t mem_cons_self rfl
  have after : t ∉ ys := (nodup_cons.mp behind).1
  rw [ipcWaitQueueRemove, removeLoop_present h first enough, Option.or_none]
  rcases xs.eq_nil_or_concat' with rfl | ⟨zs, p, rfl⟩
  · refine ⟨h.2.congr fun x member => ?_, rfl⟩
    have ne : x ≠ t := fun same => after (same ▸ member)
    exact update_of_ne ne ..
  rw [getLast?_concat]
  refine ⟨?_, rfl⟩
  rw [append_assoc] at h ⊢
  have ne : p ≠ t := fun same => first (same ▸ mem_append_right _ mem_cons_self)
  have inside : p ∉ zs := fun member =>
    (nodup_append.mp once').2.2 p member p mem_cons_self rfl
  refine h.behind (fun x member => ?_) ?_
  · have other : x ≠ t := fun same => first (same ▸ mem_append_left _ member)
    have other' : x ≠ p := fun same => inside (same ▸ member)
    simp [unlink, setNext, other, other']
  · simp only [unlink, setNext, update_of_ne ne, update_self]
    refine h.drop.2.congr fun x member => ?_
    have other : x ≠ t := fun same => after (same ▸ member)
    have other' : x ≠ p := fun same =>
      apart p (by simp) x (mem_cons_of_mem _ member) same.symm
    simp [other, other']

/-- A tick at which one thread is too late leaves what the endpoints' model leaves. -/
theorem Holds.cutBehind (h : q.Holds waiters) (t : Nat) :
    Leads (q.schedOnTimerTick [t]).nextWaiter q.head (cutBehind t waiters) := by
  unfold BharatOS.cutBehind
  split_ifs with member
  · obtain ⟨xs, ys, rfl, first⟩ := eq_append_cons_of_mem member
    have others : ∀ x ∈ xs, x ≠ t := by grind
    rw [takeWhile_append_of_pos (by simpa using others), takeWhile_cons_of_neg (by simp),
      append_nil]
    exact h.leads.behind (fun x member => if_neg (by simpa using others x member)) (if_pos (by simp))
  · exact h.leads.congr fun x present => if_neg (by grind)

/-! ## A tick at which threads are too late -/

theorem cleanUp_absent (h : Leads q.nextWaiter q.head xs) (out : ∀ t ∈ zs, t ∉ xs) :
    cleanUp fuel zs q = q := by
  induction zs with
  | nil => rfl
  | cons z zs ih =>
    rw [cleanUp, foldl_cons, ipcWaitQueueRemove, removeLoop_absent h (out z mem_cons_self)]
    exact ih fun t member => out t (mem_cons_of_mem _ member)

/-- Only the first thread that was too late is found by its clean-up. -/
theorem cleanUp_tick (h : q.Holds (xs ++ t :: ys)) (once : (xs ++ t :: ys).Nodup)
    (enough : (xs ++ t :: ys).length ≤ fuel) (late : t ∈ timedOut) (distinct : timedOut.Nodup)
    (early : ∀ x ∈ xs, x ∉ timedOut) :
    Leads (cleanUp fuel timedOut (q.schedOnTimerTick timedOut)).nextWaiter
        (cleanUp fuel timedOut (q.schedOnTimerTick timedOut)).head xs ∧
      (cleanUp fuel timedOut (q.schedOnTimerTick timedOut)).tail =
        if q.tail = some t then xs.getLast? else q.tail := by
  have cut : Leads (q.schedOnTimerTick timedOut).nextWaiter q.head (xs ++ [t]) :=
    h.leads.behind (fun x member => if_neg (early x member)) (if_pos late)
  have once' : (xs ++ [t]).Nodup := once.sublist (by simp)
  have removed := @remove_present xs [] (q.schedOnTimerTick timedOut) t fuel cut once' (by
    simp only [length_append, length_cons] at enough
    omega)
  rw [append_nil] at removed
  obtain ⟨before, after, rfl⟩ := append_of_mem late
  obtain ⟨-, behind, apart⟩ := nodup_append.mp distinct
  have unseen : ∀ b ∈ before, b ∉ xs ++ [t] := by
    intro b member here
    rcases mem_append.mp here with old | new
    · exact early b old (mem_append_left _ member)
    · exact apart b member t mem_cons_self (mem_singleton.mp new)
  have gone : ∀ b ∈ after, b ∉ xs := fun b member old =>
    early b old (mem_append_right _ (mem_cons_of_mem _ member))
  have first : cleanUp fuel before (q.schedOnTimerTick (before ++ t :: after)) = _ :=
    cleanUp_absent cut unseen
  have ends : cleanUp fuel (before ++ t :: after) (q.schedOnTimerTick (before ++ t :: after)) =
      ((q.schedOnTimerTick (before ++ t :: after)).ipcWaitQueueRemove fuel t).1 := by
    rw [← cleanUp_absent removed.1 gone]
    nth_rewrite 2 [← first]
    exact foldl_append ..
  rw [ends]
  exact removed

/-- A tick at which the times of these waiters are over, with what they do when they have been
woken, takes them out of the queue and leaves the others in it in their order, if and only if
at most one of them was too late, and that was the last one of the queue. -/
theorem timeout_removes_only_waiter_iff (holds : q.Holds waiters) (once : waiters.Nodup)
    (enough : waiters.length ≤ fuel) (among : timedOut ⊆ waiters) (distinct : timedOut.Nodup) :
    (cleanUp fuel timedOut (q.schedOnTimerTick timedOut)).Holds (waiters.filter (· ∉ timedOut)) ↔
      timedOut = [] ∨ ∃ others last, waiters = others ++ [last] ∧ timedOut = [last] := by
  constructor
  · intro after
    refine or_iff_not_imp_left.mpr fun some' => ?_
    obtain ⟨t, found⟩ : ∃ t, waiters.find? (· ∈ timedOut) = some t := by
      obtain ⟨t, late⟩ := exists_mem_of_ne_nil _ some'
      exact Option.isSome_iff_exists.mp (find?_isSome.mpr ⟨t, among late, by simpa using late⟩)
    obtain ⟨late, xs, ys, rfl, early⟩ := find?_eq_some_iff_append.mp found
    simp only [decide_eq_true_eq, Bool.not_eq_true', decide_eq_false_iff_not] at late early
    obtain ⟨leads, tail⟩ := cleanUp_tick holds once enough late distinct early
    obtain ⟨-, behind, apart⟩ := nodup_append.mp once
    -- the tail would have to be the last thread before `t`, and it is behind `t`
    obtain rfl : ys = [] := by
      by_contra more
      obtain ⟨zs, z, rfl⟩ := (eq_nil_or_concat' ys).resolve_left more
      have last : q.tail = some z := by
        rw [holds.tail, ← cons_append, ← append_assoc, getLast?_concat]
      have ne : z ≠ t := fun same => (nodup_cons.mp behind).1 (by simp [same])
      rw [last, if_neg (by simpa using ne), after.tail, after.leads.unique leads] at tail
      exact apart z (mem_of_getLast? tail) z (by simp) rfl
    refine ⟨xs, t, rfl, perm_singleton.mp ?_⟩
    refine (perm_ext_iff_of_nodup distinct (nodup_singleton t)).mpr fun x => ?_
    rw [mem_singleton]
    refine ⟨fun late' => ?_, fun same => same ▸ late⟩
    rcases mem_append.mp (among late') with before | same
    · exact absurd late' (early x before)
    · exact mem_singleton.mp same
  · rintro (rfl | ⟨others, last, rfl, rfl⟩)
    · simpa [cleanUp, schedOnTimerTick] using holds
    · have apart : last ∉ others := fun member =>
        (nodup_append.mp once).2.2 last member last mem_cons_self rfl
      obtain ⟨leads, tail⟩ := cleanUp_tick holds once enough mem_cons_self distinct
        fun x member => by
          rw [mem_singleton]
          rintro rfl
          exact apart member
      have rest : (others ++ [last]).filter (· ∉ [last]) = others := by
        simp only [mem_singleton, filter_append, filter_cons_of_neg, not_true,
          decide_false, Bool.false_eq_true, not_false_iff, filter_nil, append_nil]
        refine filter_eq_self.mpr fun x member => decide_eq_true ?_
        rintro rfl
        exact apart member
      rw [rest]
      refine ⟨leads, tail.trans ?_⟩
      rw [holds.tail, getLast?_concat, if_pos rfl]

/-- Thread 1 waits, and thread 2 behind it. -/
def twoWaiters : WaitQueue := (({} : WaitQueue).schedWaitQueueEnqueue 1).schedWaitQueueEnqueue 2

theorem twoWaiters_holds : twoWaiters.Holds [1, 2] := ⟨⟨rfl, rfl, rfl⟩, rfl⟩

/-- The last of two waiters is too late. -/
theorem timeout_removes_only_waiter_last :
    (cleanUp 2 [2] (twoWaiters.schedOnTimerTick [2])).Holds [1] :=
  (timeout_removes_only_waiter_iff twoWaiters_holds (by decide) (Nat.le_refl _) (by decide)
    (by decide)).mpr (.inr ⟨[1], 2, rfl, rfl⟩)

/-- Thread 1 is too late, and thread 2 is cut off; or both are, and the queue keeps a tail. -/
theorem timeout_cuts_off_waiter : ¬ (cleanUp 2 [1] (twoWaiters.schedOnTimerTick [1])).Holds [2] ∧
      ¬ (cleanUp 2 [1, 2] (twoWaiters.schedOnTimerTick [1, 2])).Holds [] :=
  ⟨fun after => absurd after.leads.1 (by decide), fun after => absurd after.tail (by decide)⟩

end WaitQueue

end BharatOS
