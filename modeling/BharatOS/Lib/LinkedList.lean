import Mathlib.Data.List.Nodup

/-!
# Doubly linked lists

`Listed next prev head zs`: from `head` the links lead through `zs` and back.
-/

namespace BharatOS

open List

variable {α : Type} {next prev next' prev' : α → Option α} {head head' : Option α}
  {xs ys zs : List α} {a b c : α}

theorem last_ne_of_nodup (nodup : (xs ++ b :: c :: ys).Nodup) :
    (xs ++ b :: c :: ys).getLast? ≠ some b := by
  intro last
  have tail : b ∉ c :: ys := (nodup_cons.mp (nodup_append.mp nodup).2.1).1
  have last' : (c :: ys).getLast? = some b := by
    simpa [getLast?_cons] using last
  exact tail (mem_of_getLast? last')

/-- An element of `xs ++ ys` is in `ys` or in `xs`. -/
theorem append_eq_append_cons {as bs : List α} (eq : xs ++ ys = as ++ b :: bs) :
    (∃ d, as = xs ++ d ∧ ys = d ++ b :: bs) ∨ ∃ d, xs = as ++ b :: d ∧ bs = d ++ ys := by
  rcases append_eq_append_iff.mp eq with ⟨d, asEq, ysEq⟩ | ⟨d, xsEq, rest⟩
  · exact .inl ⟨d, asEq, ysEq⟩
  cases d with
  | nil => exact .inl ⟨[], by simpa using xsEq.symm, by simpa using rest.symm⟩
  | cons c d =>
    obtain ⟨rfl, rfl⟩ := cons.inj rest
    exact .inr ⟨d, xsEq, rfl⟩

structure Listed (next prev : α → Option α) (head : Option α) (zs : List α) : Prop where
  head : head = zs.head?
  links : ∀ xs a ys, zs = xs ++ a :: ys → next a = ys.head? ∧ prev a = xs.getLast?

theorem listed_singleton (head_ : head = some a) (next_ : next a = none) (prev_ : prev a = none) :
    Listed next prev head [a] := by
  refine ⟨head_, fun xs b ys eq => ?_⟩
  cases xs with
  | nil =>
    obtain ⟨rfl, rfl⟩ := cons.inj eq
    exact ⟨next_, prev_⟩
  | cons x xs => simp at eq

namespace Listed

theorem next_eq (h : Listed next prev head (xs ++ a :: ys)) : next a = ys.head? :=
  (h.links xs a ys rfl).1

theorem prev_eq (h : Listed next prev head (xs ++ a :: ys)) : prev a = xs.getLast? :=
  (h.links xs a ys rfl).2

theorem congr (h : Listed next prev head zs) (nexts : ∀ b ∈ zs, next' b = next b)
    (prevs : ∀ b ∈ zs, prev' b = prev b) : Listed next' prev' head zs := by
  refine ⟨h.head, fun xs b ys eq => ?_⟩
  have member : b ∈ zs := by simp [eq]
  rw [nexts b member, prevs b member]
  exact h.links xs b ys eq

theorem next_last (h : Listed next prev head (xs ++ ys)) (last : xs.getLast? = some a) :
    next a = ys.head? := by
  obtain ⟨front, rfl⟩ := getLast?_eq_some_iff.mp last
  exact (h.links front a ys (by simp)).1

theorem prev_first (h : Listed next prev head (xs ++ ys)) (first : ys.head? = some a) :
    prev a = xs.getLast? := by
  obtain ⟨rest, rfl⟩ := head?_eq_some_iff.mp first
  exact h.prev_eq

variable [DecidableEq α]

/-- Between `xs` and `ys` the elements are replaced. -/
theorem splice (ms ns : List α) (h : Listed next prev head (xs ++ (ms ++ ys)))
    (nodup : (xs ++ ys).Nodup) (first : head' = (xs ++ (ns ++ ys)).head?)
    (new : ∀ as b bs, ns = as ++ b :: bs →
      next' b = (bs ++ ys).head? ∧ prev' b = (xs ++ as).getLast?)
    (nexts : ∀ b ∈ xs ++ ys, next' b = if xs.getLast? = some b then (ns ++ ys).head? else next b)
    (prevs : ∀ b ∈ xs ++ ys, prev' b = if ys.head? = some b then (xs ++ ns).getLast? else prev b) :
    Listed next' prev' head' (xs ++ (ns ++ ys)) := by
  refine ⟨first, fun as b bs eq => ?_⟩
  obtain ⟨nodupXs, nodupYs, apart⟩ := nodup_append.mp nodup
  rcases append_eq_append_cons eq with ⟨d, rfl, rest⟩ | ⟨d, rfl, rfl⟩
  · rcases append_eq_append_cons rest with ⟨d, rfl, rfl⟩ | ⟨e, is, rfl⟩
    · obtain ⟨nextB, prevB⟩ := h.links (xs ++ (ms ++ d)) b bs (by simp)
      have member : b ∈ xs ++ (d ++ b :: bs) := by simp
      have notLast : xs.getLast? ≠ some b := fun last =>
        apart b (mem_of_getLast? last) b (by simp) rfl
      rw [nexts b member, prevs b member, if_neg notLast, nextB, prevB]
      cases d with
      | nil => simp
      | cons c d =>
        have notFirst : c ≠ b := by
          rintro rfl
          simp at nodupYs
        simp [notFirst, getLast?_append, getLast?_cons]
    · exact new d b e is
  · obtain ⟨nextB, prevB⟩ := h.links as b (d ++ (ms ++ ys)) (by simp)
    have member : b ∈ as ++ b :: d ++ ys := by simp
    have notFirst : ys.head? ≠ some b := fun first =>
      apart b (by simp) b (mem_of_head? first) rfl
    rw [nexts b member, prevs b member, if_neg notFirst, nextB, prevB]
    cases d with
    | nil => simp
    | cons c d =>
      rw [if_neg (last_ne_of_nodup nodupXs)]
      simp

/-- A new element between `xs` and `ys`. -/
theorem insert (h : Listed next prev head (xs ++ ys)) (nodup : (xs ++ ys).Nodup)
    (first : head' = (xs ++ a :: ys).head?) (new : next' a = ys.head? ∧ prev' a = xs.getLast?)
    (nexts : ∀ b ∈ xs ++ ys, next' b = if xs.getLast? = some b then some a else next b)
    (prevs : ∀ b ∈ xs ++ ys, prev' b = if ys.head? = some b then some a else prev b) :
    Listed next' prev' head' (xs ++ a :: ys) := by
  refine splice [] [a] h nodup first (fun as b bs eq => ?_) nexts
    (by simpa using prevs)
  obtain ⟨rfl, rfl, rfl⟩ : as = [] ∧ b = a ∧ bs = [] := by simpa [singleton_eq_append_iff] using eq
  simpa

/-- An element between `xs` and `ys` is taken out. -/
theorem remove (h : Listed next prev head (xs ++ a :: ys)) (nodup : (xs ++ ys).Nodup)
    (first : head' = (xs ++ ys).head?)
    (nexts : ∀ b ∈ xs ++ ys, next' b = if xs.getLast? = some b then ys.head? else next b)
    (prevs : ∀ b ∈ xs ++ ys, prev' b = if ys.head? = some b then xs.getLast? else prev b) :
    Listed next' prev' head' (xs ++ ys) :=
  splice [a] [] h nodup first (by simp) nexts (by simpa using prevs)

end Listed

end BharatOS
