import BharatOS.Fabric.MpscRing

/-!
# The ring keeps messages whole and in order

From what the consumer has taken to the end of the ring there is one ticket for every slot, and
credits keep producers inside this window.
-/

namespace BharatOS

open RingSystem BhMkMpscRing EnqueueCall Function Option List BitVec

namespace RingSystem

variable {n : Nat} {α : Type} {capacity : BitVec 32}

/-- How many slots the consumer has given back to the producers. -/
def released (s : RingSystem n α) : Nat :=
  match s.consumer with
  | some (.advance _ _) | some (.replenish _) => s.dequeued.length + 1
  | _ => s.dequeued.length

/-- The ticket that the consumer's tail stands for. -/
def passed (s : RingSystem n α) : Nat :=
  match s.consumer with
  | some (.replenish _) => s.dequeued.length + 1
  | _ => s.dequeued.length

/-- Producers with a credit and no ticket. -/
def waiting (s : RingSystem n α) : Nat :=
  tally (fun call : Option (EnqueueCall α) => call.any (·.waits)) s.producers

/-- What the slot of ticket `t` shows. -/
def shown (s : RingSystem n α) (size t : Nat) : Nat :=
  if t < s.released then t + size else if t < s.tickets.length ∧ s.Published t then t + 1 else t

/-- What the consumer knows in the middle of a call. -/
def Consuming (s : RingSystem n α) : DequeueCall α → Prop
  | .loadSequence => True
  | .read pos => pos = BitVec.ofNat 32 s.dequeued.length ∧
      s.dequeued.length < s.tickets.length ∧ s.Published s.dequeued.length
  | .release pos message | .advance pos message =>
      pos = BitVec.ofNat 32 s.dequeued.length ∧ s.tickets[s.dequeued.length]? = some message
  | .replenish message => s.tickets[s.dequeued.length]? = some message

structure Coherent (capacity : BitVec 32) (s : RingSystem n α) : Prop where
  size : s.ring.capacity = capacity
  mask : s.ring.mask = capacity - 1
  head : s.ring.producerHead = BitVec.ofNat 32 s.tickets.length
  tail : s.ring.consumerTail = BitVec.ofNat 32 s.passed
  credits : s.ring.availableCredits.toNat + s.waiting + s.tickets.length =
    capacity.toNat + s.dequeued.length
  bounded : s.copied ≤ s.tickets.length
  held : ∀ i t, s.holding i = some t → s.copied ≤ t ∧ t < s.tickets.length ∧
    ∃ call, s.producers i = some call ∧ call.ticket = some (BitVec.ofNat 32 t) ∧
      s.tickets[t]? = some call.message
  holder : ∀ i call, s.producers i = some call → call.ticket.isSome = true →
    (s.holding i).isSome = true
  apart : ∀ i j t, s.holding i = some t → s.holding j = some t → i = j
  sequence : ∀ t, s.dequeued.length ≤ t → t < s.dequeued.length + capacity.toNat →
    (s.ring.slots (t % capacity.toNat)).sequence = BitVec.ofNat 32 (s.shown capacity.toNat t)
  message : ∀ t m, s.copied ≤ t → s.tickets[t]? = some m → s.Published t →
    (s.ring.slots (t % capacity.toNat)).message = m
  written : ∀ i t call pos, s.holding i = some t → s.producers i = some call →
    call.pc = .publish pos → (s.ring.slots (t % capacity.toNat)).message = call.message
  consuming : ∀ call, s.consumer = some call → s.Consuming call
  delivered : s.dequeued = s.tickets.take s.dequeued.length

variable {ring : BhMkMpscRing α} {pos : BitVec 32} {u : Nat}

theorem coherent_start {zero : α} (made : bhMkMpscRingInit zero capacity = some ring) :
    Coherent capacity (start n ring) := by
  unfold bhMkMpscRingInit at made
  split at made
  · cases made
  cases made
  refine ⟨rfl, rfl, rfl, rfl, ?_, le_rfl, nofun, nofun, nofun, ?_, nofun, nofun, nofun, rfl⟩
  · simp [waiting, start, tally]
  · intro t _ inside
    simp only [start, length_nil, Nat.zero_add] at inside ⊢
    rw [Nat.mod_eq_of_lt inside]
    rfl

theorem setSequence_message {sequence : BitVec 32} :
    ((ring.setSequence pos sequence).slots u).message = (ring.slots u).message := by
  unfold setSequence
  by_cases same : u = ring.index pos
  · simp [same]
  · simp [same]

theorem setMessage_sequence {message : α} :
    ((ring.setMessage pos message).slots u).sequence = (ring.slots u).sequence := by
  unfold setMessage
  by_cases same : u = ring.index pos
  · simp [same]
  · simp [same]

/-- The state after the compare-and-swap of the head. -/
def ticketed (s : RingSystem n α) (i : Fin n) (call : EnqueueCall α) : RingSystem n α :=
  (s.setProducer { s.ring with producerHead := BitVec.ofNat 32 s.tickets.length + 1 } i
    (some { call with pc := .write (BitVec.ofNat 32 s.tickets.length) })).takeTicket i call.message

section

variable {s : RingSystem n α} {i j : Fin n} {t : Nat} {call : EnqueueCall α}

theorem holding_ticketed (held : (s.ticketed i call).holding j = some t) :
    j = i ∧ t = s.tickets.length ∨ j ≠ i ∧ s.holding j = some t := by
  simp only [ticketed, takeTicket, setProducer] at held
  by_cases same : j = i
  · subst same
    rw [update_self] at held
    exact .inl ⟨rfl, (some.inj held).symm⟩
  · rw [update_of_ne same] at held
    exact .inr ⟨same, held⟩

/-- The new ticket is not published, and nothing else changes hands. -/
theorem published_ticketed (idle : s.holding i = none) (le : t < s.tickets.length + 1) :
    (s.ticketed i call).Published t ↔ t < s.tickets.length ∧ s.Published t := by
  refine ⟨fun all => ?_, fun ⟨lt, all⟩ j held => ?_⟩
  · have ne : t ≠ s.tickets.length := by
      rintro rfl
      exact all i (update_self ..)
    refine ⟨by omega, fun j held => all j ?_⟩
    simp only [ticketed, takeTicket, setProducer]
    rwa [update_of_ne]
    rintro rfl
    rw [idle] at held
    cases held
  · rcases holding_ticketed held with ⟨-, rfl⟩ | ⟨-, old⟩
    · exact absurd lt (lt_irrefl _)
    · exact all j old

end

namespace Coherent

variable {s : RingSystem n α} {i : Fin n} {call : EnqueueCall α} {pos : BitVec 32}

theorem le_copied (s : RingSystem n α) :
    s.dequeued.length ≤ s.released ∧ s.released ≤ s.copied := by
  unfold released copied
  cases s.consumer with
  | none => exact ⟨le_rfl, le_rfl⟩
  | some call => cases call <;> simp

theorem length_enqueued :
    s.enqueued.length = ((range s.tickets.length).filter fun t => s.Published t).length := by
  have positions : (s.tickets.zipIdx.map Prod.snd) = range s.tickets.length := by
    rw [zipIdx_map_snd, range_eq_range']
  rw [enqueued, length_map, ← positions, List.filter_map, length_map]
  rfl

variable (h : Coherent capacity s)

include h

/-- A producer without a ticket holds none. -/
theorem holding_none (without : ∀ call, s.producers i = some call → call.ticket = none) : s.holding i = none := by
  cases held : s.holding i with
  | none => rfl
  | some t =>
    obtain ⟨-, -, call, now, ticket, -⟩ := h.held i t held
    rw [without call now] at ticket
    cases ticket

/-- Everything up to the last ticket lies in the window. -/
theorem window : s.tickets.length ≤ s.dequeued.length + capacity.toNat := by
  have := h.credits
  omega

/-- A producer that has no ticket before and after an access changes the ring by at most
the credit that it takes or gives back. -/
theorem without_ticket {call : Option (EnqueueCall α)}
    {credits : BitVec 32} (before : ∀ c, s.producers i = some c → c.ticket = none)
    (after : ∀ c, call = some c → c.ticket = none)
    (balance : credits.toNat + (call.any (·.waits)).toNat =
      s.ring.availableCredits.toNat + ((s.producers i).any (·.waits)).toNat) :
    Coherent capacity (s.setProducer { s.ring with availableCredits := credits } i call) := by
  have idle := h.holding_none before
  have other : ∀ {j t}, s.holding j = some t → j ≠ i := by
    rintro j t held rfl
    rw [idle] at held
    cases held
  refine ⟨h.size, h.mask, h.head, h.tail, ?_, h.bounded, ?_, ?_, h.apart, h.sequence, h.message, ?_,
    h.consuming, h.delivered⟩
  · have counted := tally_update (fun call : Option (EnqueueCall α) => call.any (·.waits))
      s.producers i call
    have total := h.credits
    simp only [setProducer, waiting] at total ⊢
    omega
  · intro j t held
    obtain ⟨low, high, c, now, rest⟩ := h.held j t held
    exact ⟨low, high, c, by simpa [setProducer, other held] using now, rest⟩
  · intro j c now ticket
    by_cases same : j = i
    · subst same
      simp only [setProducer, update_self] at now
      rw [after c now] at ticket
      cases ticket
    · exact h.holder j c (by simpa [setProducer, same] using now) ticket
  · intro j t c pos held now
    exact h.written j t c pos held (by simpa [setProducer, other held] using now)

theorem credits_kept {next : Option (EnqueueCall α)}
    (credits : ring.availableCredits = s.ring.availableCredits)
    (same : next.any (·.waits) = (s.producers i).any (·.waits)) :
    ring.availableCredits.toNat + (s.setProducer ring i next).waiting + s.tickets.length =
      capacity.toNat + s.dequeued.length := by
  have counted := tally_update (fun call : Option (EnqueueCall α) => call.any (·.waits))
    s.producers i next
  have total := h.credits
  rw [same] at counted
  simp only [setProducer, waiting, credits] at total ⊢
  omega

/-- What a producer has that is past the compare-and-swap of the head. -/
theorem has_ticket (now : s.producers i = some call) (ticket : call.ticket = some pos) :
    ∃ t, pos = BitVec.ofNat 32 t ∧ s.holding i = some t ∧ s.copied ≤ t ∧ t < s.tickets.length ∧
      s.tickets[t]? = some call.message := by
  obtain ⟨t, held⟩ := isSome_iff_exists.mp (h.holder i call now (by simp [ticket]))
  obtain ⟨least, below, c, is, position, message⟩ := h.held i t held
  obtain rfl := some.inj (now.symm.trans is)
  exact ⟨t, some.inj (ticket.symm.trans position), held, least, below, message⟩

section

theorem ticketed_credits (now : s.producers i = some call) (waits : call.waits = true) :
    s.ring.availableCredits.toNat + (s.ticketed i call).waiting + (s.tickets.length + 1) =
      capacity.toNat + s.dequeued.length := by
  have counted := tally_update (fun call : Option (EnqueueCall α) => call.any (·.waits))
    s.producers i (some { call with pc := .write (BitVec.ofNat 32 s.tickets.length) })
  have before : ((s.producers i).any (·.waits)).toNat = 1 := by simp [now, waits]
  have after : ((some { call with pc := EnqueuePc.write (BitVec.ofNat 32 s.tickets.length) }).any
      (·.waits)).toNat = 0 := rfl
  have total := h.credits
  simp only [ticketed, takeTicket, setProducer, waiting] at total ⊢
  omega

variable {j : Fin n} {t : Nat} {c : EnqueueCall α}

theorem ticketed_held (held : (s.ticketed i call).holding j = some t) :
    s.copied ≤ t ∧ t < s.tickets.length + 1 ∧ ∃ c, (s.ticketed i call).producers j = some c ∧
      c.ticket = some (BitVec.ofNat 32 t) ∧ (s.tickets ++ [call.message])[t]? = some c.message := by
  rcases holding_ticketed held with ⟨rfl, rfl⟩ | ⟨other, old⟩
  · exact ⟨h.bounded, Nat.lt_succ_self _, ⟨call.message, .write _⟩, update_self .., rfl, by simp⟩
  obtain ⟨atLeast, below, c, is, ticket, message⟩ := h.held j t old
  refine ⟨atLeast, by omega, c, ?_, ticket, (getElem?_append_left below).trans message⟩
  simpa [ticketed, takeTicket, setProducer, other] using is

theorem ticketed_apart {j' : Fin n} (held : (s.ticketed i call).holding j = some t)
    (held' : (s.ticketed i call).holding j' = some t) : j = j' := by
  rcases holding_ticketed held with ⟨rfl, rfl⟩ | ⟨other, old⟩ <;>
    rcases holding_ticketed held' with ⟨rfl, e⟩ | ⟨other', old'⟩
  · rfl
  · exact absurd (h.held j' _ old').2.1 (lt_irrefl _)
  · exact absurd (e ▸ (h.held j _ old).2.1) (lt_irrefl _)
  · exact h.apart j j' t old old'

/-- A producer that publishes had its ticket before. -/
theorem ticketed_written (held : (s.ticketed i call).holding j = some t)
    (is : (s.ticketed i call).producers j = some c) (publishing : c.pc = .publish pos) :
    (s.ring.slots (t % capacity.toNat)).message = c.message := by
  rcases holding_ticketed held with ⟨rfl, rfl⟩ | ⟨other, old⟩
  · simp only [ticketed, takeTicket, setProducer, update_self, some.injEq] at is
    rw [← is] at publishing
    cases publishing
  · refine h.written j t c pos old ?_ publishing
    simpa [ticketed, takeTicket, setProducer, other] using is

/-- The compare-and-swap of the head hands out the next ticket. A producer that waits
with a credit leaves room for it in the window. -/
theorem takes_ticket (now : s.producers i = some call) (waits : call.waits = true) :
    Coherent capacity (s.ticketed i call) := by
  have idle : s.holding i = none := h.holding_none fun c is => by
    obtain rfl := some.inj (now.symm.trans is)
    obtain ⟨m, pc⟩ := call
    cases pc <;> first | rfl | cases waits
  have known : ∀ {t m}, s.tickets[t]? = some m → t < s.tickets.length :=
    fun is => (List.getElem?_eq_some_iff.mp is).1
  have later : ∀ {t m}, s.tickets[t]? = some m → (s.tickets ++ [call.message])[t]? = some m :=
    fun is => (getElem?_append_left (known is)).trans is
  have length : (s.ticketed i call).tickets.length = s.tickets.length + 1 := length_append ..
  refine ⟨h.size, h.mask, ?_, h.tail, ?_, ?_, ?_, ?_, fun _ _ _ => h.ticketed_apart, ?_, ?_,
    fun _ _ _ _ => h.ticketed_written, ?_, ?_⟩
  · rw [length, BitVec.ofNat_add]
    rfl
  · rw [length]
    exact h.ticketed_credits now waits
  · rw [length]
    exact h.bounded.trans (Nat.le_succ _)
  · intro j t held
    rw [length]
    exact h.ticketed_held held
  · intro j c is ticket
    by_cases same : j = i
    · subst same
      simp [ticketed, takeTicket, setProducer]
    · simpa [ticketed, takeTicket, setProducer, same] using
        h.holder j c (by simpa [ticketed, takeTicket, setProducer, same] using is) ticket
  · intro t least inside
    refine (h.sequence t least inside).trans (congrArg _ ?_)
    refine if_congr Iff.rfl rfl (if_congr ?_ rfl rfl)
    rw [length]
    exact ⟨fun old => ⟨by omega, (published_ticketed idle (by omega)).mpr old⟩,
      fun new => (published_ticketed idle new.1).mp new.2⟩
  · intro t m least is all
    have le := (List.getElem?_eq_some_iff.mp is).1
    rw [length] at le
    obtain ⟨lt, before⟩ := (published_ticketed idle le).mp all
    exact h.message t m least ((getElem?_append_left lt).symm.trans is) before
  · intro c is
    have old := h.consuming c is
    cases c with
    | loadSequence => trivial
    | read pos =>
      have lt : s.dequeued.length < s.tickets.length + 1 := Nat.lt_succ_of_lt old.2.1
      exact ⟨old.1, length.symm ▸ lt, (published_ticketed idle lt).mpr old.2⟩
    | release pos m | advance pos m => exact ⟨old.1, later old.2⟩
    | replenish m => exact later old
  · have low := (le_copied s).1.trans (le_copied s).2
    exact h.delivered.trans (take_append_of_le_length (low.trans h.bounded)).symm

end

/-- Two tickets that are not copied yet lie in different slots. -/
theorem slots_apart {t : Nat} (ht : s.copied ≤ t) (ht' : t < s.tickets.length) (hu : s.copied ≤ u)
    (hu' : u < s.tickets.length) (ne : t ≠ u) : t % capacity.toNat ≠ u % capacity.toNat := by
  have low := (le_copied s).1.trans (le_copied s).2
  have high := h.window
  exact fun same => ne (eq_of_window (low.trans ht) (ht'.trans_le high) (low.trans hu)
    (hu'.trans_le high) same)

theorem credits_le : s.ring.availableCredits.toNat ≤ capacity.toNat := by
  have total := h.credits
  have low := (le_copied s).1.trans ((le_copied s).2.trans h.bounded)
  omega

/-- A step of the consumer that gives no slot back. -/
theorem with_consumer {call : Option (DequeueCall α)} {tail : BitVec 32}
    (released : RingSystem.released { s with consumer := call } = s.released)
    (passed : tail = BitVec.ofNat 32 (RingSystem.passed { s with consumer := call }))
    (copied : s.copied ≤ RingSystem.copied { s with consumer := call })
    (bounded : RingSystem.copied { s with consumer := call } ≤ s.tickets.length)
    (below : ∀ i t, s.holding i = some t → RingSystem.copied { s with consumer := call } ≤ t)
    (knows : ∀ c, call = some c → s.Consuming c) :
    Coherent capacity { s with
      ring := { s.ring with consumerTail := tail }
      consumer := call } := by
  refine ⟨h.size, h.mask, h.head, passed, h.credits, bounded, ?_, h.holder, h.apart, ?_, ?_,
    h.written, ?_, h.delivered⟩
  · intro i t held
    exact ⟨below i t held, (h.held i t held).2⟩
  · intro t first inside
    refine (h.sequence t first inside).trans (congrArg _ ?_)
    unfold shown
    rw [← released]
    rfl
  · intro t m least is published
    exact h.message t m (copied.trans least) is published
  · intro c is
    have known := knows c is
    cases c <;> exact known

variable {m : α}

theorem advances (now : s.consumer = some (.advance pos m)) : Coherent capacity { s with
      ring := { s.ring with consumerTail := pos + 1 }
      consumer := some (.replenish m) } := by
  obtain ⟨position, is⟩ := h.consuming _ now
  have copied : s.copied = s.dequeued.length + 1 := by rw [copied, now]
  refine h.with_consumer (by rw [released, released, now]) ?_ copied.le
    (copied.symm.trans_le h.bounded) (fun i t held => copied.symm.trans_le (h.held i t held).1) ?_
  · rw [position]
    exact (BitVec.ofNat_add _ 1).symm
  · intro c is'
    cases is'
    exact is

/-- What was dequeued is published, so it begins the list of successful enqueues. -/
theorem dequeued_prefix : s.dequeued <+: s.enqueued := by
  have low := (le_copied s).1.trans (le_copied s).2
  have split : s.tickets = s.dequeued ++ s.tickets.drop s.dequeued.length := by
    conv_lhs => rw [← take_append_drop s.dequeued.length s.tickets, ← h.delivered]
  have published : ∀ entry ∈ s.dequeued.zipIdx, decide (s.Published entry.2) = true := by
    intro entry mem
    have below : entry.2 < s.dequeued.length := by
      have := snd_lt_of_mem_zipIdx mem
      omega
    refine decide_eq_true fun i held => ?_
    have := (h.held i _ held).1
    omega
  unfold enqueued
  rw [split, zipIdx_append, filter_append, filter_eq_self.mpr published, map_append, zipIdx_map_fst]
  exact prefix_append _ _

theorem tally_tickets :
    tally (fun call : Option (EnqueueCall α) => call.any (·.ticket.isSome)) s.producers =
      tally isSome s.holding := by
  refine Finset.sum_congr rfl fun i _ => congrArg Bool.toNat ?_
  cases held : s.holding i with
  | some t =>
    obtain ⟨-, -, call, is, ticket, -⟩ := h.held i t held
    simp [is, ticket]
  | none =>
    cases now : s.producers i with
    | none => rfl
    | some call =>
      cases ticket : call.ticket with
      | none => simp [ticket]
      | some pos =>
        have := h.holder i call now (by simp [ticket])
        rw [held] at this
        cases this

theorem creditsHeld_eq : s.creditsHeld = s.waiting + tally isSome s.holding := by
  have split : (fun call : Option (EnqueueCall α) => call.any fun c => c.waits || c.ticket.isSome) =
      fun call => call.any (·.waits) || call.any (·.ticket.isSome) := by
    funext call
    cases call <;> rfl
  rw [creditsHeld, split, tally_or, h.tally_tickets]
  · rfl
  · rintro (_ | ⟨message, pc⟩) waits
    · rfl
    · cases pc <;> first | rfl | cases waits

theorem credits_conserved :
    s.ring.availableCredits.toNat + s.creditsHeld + (s.enqueued.length - s.dequeued.length) =
      capacity.toNat := by
  have unpublished : tally isSome s.holding + s.enqueued.length = s.tickets.length := by
    rw [length_enqueued]
    exact @tally_isSome_add _ _ _ _ s.instDecidablePublished
      (fun i t held => (h.held i t held).2.1) h.apart
  have total := h.credits
  have le := h.dequeued_prefix.length_le
  rw [h.creditsHeld_eq]
  omega

variable (power : ∃ k < 31, capacity.toNat = 2 ^ k)

include power

/-- The slot of a position is the slot of its ticket, however often positions wrapped. -/
theorem index_ofNat (t : Nat) : s.ring.index (BitVec.ofNat 32 t) = t % capacity.toNat := by
  obtain ⟨k, -, value⟩ := power
  rw [index, h.mask, toNat_ofNat_and_mask value, value]

/-- Giving a credit back does not wrap the counter. -/
theorem addCredit_toNat :
    (s.ring.availableCredits + 1).toNat = s.ring.availableCredits.toNat + 1 := by
  obtain ⟨k, small, value⟩ := power
  have bound : 2 ^ k < 2 ^ 31 := Nat.pow_lt_pow_right (by decide) small
  have le := h.credits_le
  have one : (1 : BitVec 32).toNat = 1 := rfl
  rw [toNat_add, one, Nat.mod_eq_of_lt (by omega)]

section

variable (now : s.producers i = some call)

include now

theorem writes (pc : call.pc = .write pos) :
    Coherent capacity (s.setProducer (s.ring.setMessage pos call.message) i
      (some { call with pc := .publish pos })) := by
  have ticket : call.ticket = some pos := by simp [ticket, pc]
  obtain ⟨t, rfl, held, least, below, message⟩ := h.has_ticket now ticket
  have slot : s.ring.index (BitVec.ofNat 32 t) = t % capacity.toNat := h.index_ofNat power t
  have mine : ((s.ring.setMessage (BitVec.ofNat 32 t) call.message).slots
      (t % capacity.toNat)).message = call.message := by
    simp [setMessage, slot]
  have others : ∀ {u}, s.copied ≤ u → u < s.tickets.length → u ≠ t →
      (s.ring.setMessage (BitVec.ofNat 32 t) call.message).slots (u % capacity.toNat) =
        s.ring.slots (u % capacity.toNat) := by
    intro u hu hu' ne
    simp [setMessage, slot, h.slots_apart hu hu' least below ne]
  refine ⟨h.size, h.mask, h.head, h.tail, h.credits_kept rfl ?_, h.bounded, ?_, ?_, h.apart, ?_, ?_,
    ?_, h.consuming, h.delivered⟩
  · simp [now, waits, pc]
  · intro j u holds
    obtain ⟨least', below', c, is', rest⟩ := h.held j u holds
    by_cases same : j = i
    · subst same
      obtain rfl := some.inj (held.symm.trans holds)
      exact ⟨least, below, _, update_self .., rfl, message⟩
    · exact ⟨least', below', c, by simpa [setProducer, same] using is', rest⟩
  · intro j c is' has
    by_cases same : j = i
    · subst same
      exact h.holder j call now (by simp [ticket])
    · exact h.holder j c (by simpa [setProducer, same] using is') has
  · intro u first inside
    exact (setMessage_sequence).trans (h.sequence u first inside)
  · intro u m hu is' published
    have ne : u ≠ t := by
      rintro rfl
      exact published i held
    refine Eq.trans ?_ (h.message u m hu is' published)
    simp only [setProducer]
    rw [others hu (List.getElem?_eq_some_iff.mp is').1 ne]
  · intro j u c pos' holds is' publishing
    by_cases same : j = i
    · subst same
      obtain rfl := some.inj (held.symm.trans holds)
      simp only [setProducer, update_self, some.injEq] at is'
      rw [← is']
      exact mine
    · have ne : u ≠ t := by
        rintro rfl
        exact same (h.apart j i u holds held)
      obtain ⟨hu, hu', -⟩ := h.held j u holds
      simp only [setProducer, update_of_ne same] at is'
      simp only [setProducer]
      rw [others hu hu' ne]
      exact h.written j u c pos' holds is' publishing

/-- Publishing a ticket shows its message to the consumer. -/
theorem publishes (pc : call.pc = .publish pos) :
    Coherent capacity ((s.setProducer (s.ring.setSequence pos (pos + 1)) i none).dropTicket i) := by
  have ticket : call.ticket = some pos := by simp [ticket, pc]
  obtain ⟨t, rfl, held, least, below, message⟩ := h.has_ticket now ticket
  have slot : s.ring.index (BitVec.ofNat 32 t) = t % capacity.toNat := h.index_ofNat power t
  have old : ∀ {j u}, update s.holding i none j = some u → j ≠ i ∧ s.holding j = some u := by
    intro j u holds
    by_cases same : j = i
    · subst same
      simp at holds
    · exact ⟨same, by rwa [update_of_ne same] at holds⟩
  have published : ∀ {u}, (∀ j, update s.holding i none j ≠ some u) ↔ u = t ∨ s.Published u := by
    intro u
    constructor
    · intro all
      by_cases same : u = t
      · exact .inl same
      refine .inr fun j holds => all j ?_
      rwa [update_of_ne]
      rintro rfl
      exact same (some.inj (holds.symm.trans held))
    · rintro (rfl | all) j holds
      · exact (old holds).1 (h.apart j i u (old holds).2 held)
      · exact all j (old holds).2
  have low := le_copied s
  refine ⟨h.size, h.mask, h.head, h.tail, h.credits_kept rfl ?_, h.bounded, ?_, ?_, ?_, ?_, ?_, ?_,
    ?_, h.delivered⟩
  · simp [now, waits, pc]
  · intro j u holds
    obtain ⟨least', below', c, is', rest⟩ := h.held j u (old holds).2
    exact ⟨least', below', c, by simpa [dropTicket, setProducer, (old holds).1] using is', rest⟩
  · intro j c is' has
    by_cases same : j = i
    · subst same
      simp [dropTicket, setProducer] at is'
    · simpa [dropTicket, setProducer, same] using
        h.holder j c (by simpa [dropTicket, setProducer, same] using is') has
  · intro j j' u holds holds'
    exact h.apart j j' u (old holds).2 (old holds').2
  · intro u first inside
    simp only [dropTicket, setProducer, setSequence, slot]
    by_cases same : u = t
    · subst same
      have notReleased : ¬ u < s.released := by omega
      rw [update_self]
      refine (BitVec.ofNat_add u 1).symm.trans (congrArg (BitVec.ofNat 32) ?_)
      exact ((if_neg notReleased).trans (if_pos ⟨below, published.mpr (.inl rfl)⟩)).symm
    have apart : u % capacity.toNat ≠ t % capacity.toNat := fun e =>
      same (eq_of_window first inside (low.1.trans (low.2.trans least)) (below.trans_le h.window) e)
    rw [update_of_ne apart]
    refine (h.sequence u first inside).trans (congrArg _ ?_)
    refine if_congr Iff.rfl rfl (if_congr (and_congr Iff.rfl ?_) rfl rfl)
    simp only [Published]
    rw [published]
    exact ⟨.inr, fun either => either.resolve_left same⟩
  · intro u m hu is' all
    refine (setSequence_message).trans ?_
    rcases published.mp all with rfl | before
    · obtain rfl := some.inj (message.symm.trans is')
      exact h.written i u call _ held now pc
    · exact h.message u m hu is' before
  · intro j u c pos' holds is' publishing
    refine (setSequence_message).trans (h.written j u c pos' (old holds).2 ?_ publishing)
    simpa [dropTicket, setProducer, (old holds).1] using is'
  · intro c is'
    have known := h.consuming c is'
    cases c with
    | read => exact ⟨known.1, known.2.1, published.mpr (.inr known.2.2)⟩
    | _ => exact known

theorem produces (spurious : Bool) :
    Coherent capacity (s.produced i call (call.step spurious s.ring)) := by
  -- an access that neither takes a ticket nor has one
  have moves : ∀ {credits : BitVec 32} {pc : EnqueuePc}, call.ticket = none →
      (EnqueueCall.mk call.message pc).ticket = none →
      credits.toNat + (EnqueueCall.mk call.message pc).waits.toNat =
        s.ring.availableCredits.toNat + call.waits.toNat →
      Coherent capacity
        (s.produced i call ({ s.ring with availableCredits := credits }, call.goto pc)) := by
    intro credits pc before after balance
    have unticketed : ¬ (call.ticket = none ∧
        (EnqueueCall.mk call.message pc).ticket.isSome = true) := by simp [after]
    simp only [produced, goto, if_neg unticketed]
    refine h.without_ticket (fun c is => ?_) (fun c is => ?_) (by simpa [now] using balance)
    · rwa [← some.inj (now.symm.trans is)]
    · rwa [← some.inj is]
  -- an access that ends the call without a ticket
  have ends : ∀ {credits : BitVec 32} {result : Int}, call.ticket = none →
      credits.toNat = s.ring.availableCredits.toNat + call.waits.toNat →
      Coherent capacity
        (s.produced i call ({ s.ring with availableCredits := credits }, .inr result)) := by
    intro credits result before balance
    have without : ∀ c, s.producers i = some c → c.ticket = none := by
      intro c is
      rwa [← some.inj (now.symm.trans is)]
    have idle := h.holding_none without
    have kept : (s.setProducer { s.ring with availableCredits := credits } i none).dropTicket i =
        s.setProducer { s.ring with availableCredits := credits } i none := by
      simp only [dropTicket, setProducer, ← idle, update_eq_self]
    simp only [produced, kept]
    exact h.without_ticket without (fun c is => nomatch is) (by simpa [now] using balance)
  obtain ⟨message, pc⟩ := call
  cases pc with
  | loadCredits | loadHead attempts => exact moves rfl rfl rfl
  | casCredits creds =>
    simp only [EnqueueCall.step]
    split_ifs with empty taken
    · exact ends rfl rfl
    · refine moves rfl rfl ?_
      have positive : creds.toNat ≠ 0 := fun e => empty (eq_of_toNat_eq e)
      have one : (1 : BitVec 32).toNat = 1 := rfl
      simp only [waits, Bool.toNat_true, Bool.toNat_false, taken.1, toNat_sub, one]
      omega
    · exact moves rfl rfl rfl
  | loadSequence pos attempts =>
    simp only [EnqueueCall.step]
    split_ifs <;> exact moves rfl rfl rfl
  | casHead pos attempts =>
    simp only [EnqueueCall.step]
    split_ifs with swapped
    · obtain rfl : pos = BitVec.ofNat 32 s.tickets.length := swapped.1.symm.trans h.head
      exact h.takes_ticket now rfl
    · exact moves rfl rfl rfl
  | write pos => exact h.writes power now rfl
  | publish pos => exact h.publishes power now rfl
  | giveBack => exact ends rfl (h.addCredit_toNat power)

end

/-- The consumer finds a message at its tail just when the next ticket is published. -/
theorem sequence_next (released : s.released = s.dequeued.length) (passed : s.passed = s.dequeued.length) :
    ((s.ring.slots (s.ring.index s.ring.consumerTail)).sequence -
        (s.ring.consumerTail + 1)).toInt = 0 ↔
      s.dequeued.length < s.tickets.length ∧ s.Published s.dequeued.length := by
  have tail : s.ring.consumerTail = BitVec.ofNat 32 s.dequeued.length := by rw [h.tail, passed]
  have positive : 0 < capacity.toNat := by
    obtain ⟨k, -, value⟩ := power
    rw [value]
    exact Nat.two_pow_pos k
  have shows := h.sequence s.dequeued.length le_rfl (by omega)
  rw [tail, h.index_ofNat power, shows]
  simp only [shown, released, lt_irrefl, if_false]
  constructor
  · intro found
    by_contra neither
    rw [if_neg neither] at found
    have zero : BitVec.ofNat 32 s.dequeued.length - (BitVec.ofNat 32 s.dequeued.length + 1) = 0 :=
      eq_of_toInt_eq (found.trans rfl)
    bv_omega
  · intro both
    rw [if_pos both, BitVec.ofNat_add]
    simp

theorem reads (now : s.consumer = some (.read pos)) : Coherent capacity
      { s with consumer := some (.release pos (s.ring.slots (s.ring.index pos)).message) } := by
  obtain ⟨position, some_, published⟩ := h.consuming _ now
  have copied : s.copied = s.dequeued.length := by rw [copied, now]
  have is : s.tickets[s.dequeued.length]? = some (s.tickets[s.dequeued.length]) :=
    getElem?_eq_getElem some_
  have message := h.message _ _ copied.le is published
  refine h.with_consumer (by rw [released, released, now]) (by rw [h.tail, passed, passed, now])
    (by rw [copied]; exact Nat.le_succ _) some_ ?_ ?_
  · intro i t held
    have least := (h.held i t held).1
    have ne : t ≠ s.dequeued.length := by
      rintro rfl
      exact published i held
    change s.dequeued.length + 1 ≤ t
    omega
  · rintro c is'
    cases is'
    refine ⟨position, ?_⟩
    rw [position, h.index_ofNat power, message]
    exact is

/-- A slot that was read is given to the ticket one turn of the ring later. -/
theorem releases (now : s.consumer = some (.release pos m)) : Coherent capacity { s with
      ring := s.ring.setSequence pos (pos + s.ring.capacity)
      consumer := some (.advance pos m) } := by
  obtain ⟨position, is⟩ := h.consuming _ now
  have slot : s.ring.index pos = s.dequeued.length % capacity.toNat := by
    rw [position, h.index_ofNat power]
  have copied : s.copied = s.dequeued.length + 1 := by rw [copied, now]
  have released : s.released = s.dequeued.length := by rw [released, now]
  have passed : s.passed = s.dequeued.length := by rw [passed, now]
  refine ⟨h.size, h.mask, h.head, h.tail.trans (congrArg _ passed), h.credits,
    copied.symm.trans_le h.bounded, ?_, h.holder, h.apart, ?_, ?_, ?_, ?_, h.delivered⟩
  · intro i t held
    exact ⟨copied.symm.trans_le (h.held i t held).1, (h.held i t held).2⟩
  · intro u first inside
    simp only [setSequence, slot]
    by_cases same : u = s.dequeued.length
    · subst same
      have size : s.ring.capacity = BitVec.ofNat 32 capacity.toNat := by
        rw [h.size, ofNat_toNat, setWidth_eq]
      rw [update_self]
      refine Eq.trans ?_ (congrArg (BitVec.ofNat 32) (if_pos (Nat.lt_succ_self _)).symm)
      rw [position, size, ← BitVec.ofNat_add]
    · have apart : u % capacity.toNat ≠ s.dequeued.length % capacity.toNat := fun e =>
        same (eq_of_window first inside le_rfl (first.trans_lt inside) e)
      rw [update_of_ne apart]
      refine (h.sequence u first inside).trans (congrArg _ ?_)
      have before : ¬ u < s.released := by simp only at first; omega
      have after : ¬ u < s.dequeued.length + 1 := by simp only at first; omega
      exact (if_neg before).trans (if_neg after).symm
  · intro u w least is' published
    exact (setSequence_message).trans (h.message u w (copied.trans_le least) is' published)
  · intro i u c pos' held is' publishing
    exact (setSequence_message).trans (h.written i u c pos' held is' publishing)
  · intro c is'
    cases is'
    exact ⟨position, is⟩

/-- The returned credit moves the window on by one ticket, which gets the slot that was
read: it shows that ticket's number already. -/
theorem replenishes (now : s.consumer = some (.replenish m)) : Coherent capacity { s with
      ring := s.ring.addCredit
      consumer := none
      dequeued := s.dequeued ++ [m] } := by
  have is : s.tickets[s.dequeued.length]? = some m := h.consuming _ now
  have copied : s.copied = s.dequeued.length + 1 := by rw [copied, now]
  have released : s.released = s.dequeued.length + 1 := by rw [released, now]
  have passed : s.passed = s.dequeued.length + 1 := by rw [passed, now]
  have length : (s.dequeued ++ [m]).length = s.dequeued.length + 1 := by simp
  refine ⟨h.size, h.mask, h.head, ?_, ?_, ?_, ?_, h.holder, h.apart, ?_, ?_, h.written, nofun, ?_⟩
  · exact h.tail.trans (congrArg _ (passed.trans length.symm))
  · have total := h.credits
    simp only [addCredit, h.addCredit_toNat power, length]
    simp only [waiting] at total ⊢
    omega
  · exact length.trans_le (copied.symm.trans_le h.bounded)
  · intro i t held
    exact ⟨length.trans_le (copied.symm.trans_le (h.held i t held).1), (h.held i t held).2⟩
  · intro u first inside
    simp only [length] at first inside
    have late : ¬ u < (s.dequeued ++ [m]).length := by omega
    by_cases last : u = s.dequeued.length + capacity.toNat
    · have slot : u % capacity.toNat = s.dequeued.length % capacity.toNat := by
        rw [last, Nat.add_mod_right]
      have fresh : ¬ (u < s.tickets.length ∧ s.Published u) := fun both => by
        have := h.window
        omega
      have shows := h.sequence s.dequeued.length le_rfl (by omega)
      simp only [shown, released, Nat.lt_succ_self, if_true, ← last, ← slot] at shows
      exact shows.trans (congrArg (BitVec.ofNat 32) ((if_neg late).trans (if_neg fresh)).symm)
    · have shows := h.sequence u (by omega) (by omega)
      have before : ¬ u < s.released := by omega
      refine shows.trans (congrArg (BitVec.ofNat 32) ?_)
      exact (if_neg before).trans (if_neg late).symm
  · intro u w least is' published
    exact h.message u w (copied.trans_le (length.symm.trans_le least)) is' published
  · have next : s.tickets.take (s.dequeued.length + 1) =
        s.tickets.take s.dequeued.length ++ [m] := by
      rw [take_add_one, is]
      rfl
    simp only [length]
    rw [next, ← h.delivered]

theorem consumes {call : DequeueCall α} (now : s.consumer = some call) :
    Coherent capacity (s.consumed (call.step s.ring)) := by
  cases call with
  | loadSequence =>
    have low : s.copied = s.dequeued.length := by rw [copied, now]
    have same : ∀ {call}, RingSystem.copied { s with consumer := call } = s.dequeued.length →
        ∀ i t, s.holding i = some t → RingSystem.copied { s with consumer := call } ≤ t :=
      fun e i t held => by rw [e, ← low]; exact (h.held i t held).1
    simp only [DequeueCall.step]
    split_ifs with found
    · have next := (h.sequence_next power (by rw [released, now]) (by rw [passed, now])).mp found
      refine h.with_consumer (by rw [released, released, now]) (by rw [h.tail, passed, passed, now])
        low.le next.1.le (same rfl) ?_
      intro c is
      cases is
      exact ⟨by rw [h.tail, passed, now], next⟩
    · exact h.with_consumer (by rw [released, released, now]) (by rw [h.tail, passed, passed, now])
        low.le (low.symm.trans_le h.bounded) (same rfl) nofun
  | read pos => exact h.reads power now
  | release pos m => exact h.releases power now
  | advance pos m => exact h.advances now
  | replenish m => exact h.replenishes power now

theorem step {a : RingAction n α} {t : RingSystem n α} (steps : Steps s a t) : Coherent capacity t := by
  cases a with
  | enqueue i message =>
    simp only [Steps, RingSystem.step] at steps
    split at steps
    · cases steps
    rename_i idle
    cases steps
    simp only [Bool.not_eq_true, isSome_eq_false_iff, isNone_iff_eq_none] at idle
    refine h.without_ticket (fun c is => ?_) (fun c is => ?_) (by simp [idle, waits])
    · rw [idle] at is
      cases is
    · cases is
      rfl
  | produce i spurious =>
    simp only [Steps, RingSystem.step] at steps
    split at steps
    · cases steps
    rename_i call now
    cases steps
    exact h.produces power now spurious
  | dequeue =>
    simp only [Steps, RingSystem.step] at steps
    split at steps
    · cases steps
    rename_i idle
    cases steps
    simp only [Bool.not_eq_true, isSome_eq_false_iff, isNone_iff_eq_none] at idle
    have low : s.copied = s.dequeued.length := by rw [copied, idle]
    refine h.with_consumer (by rw [released, released, idle]) (by rw [h.tail, passed, passed, idle])
      low.le (low.symm.trans_le h.bounded)
      (fun i t held => low.symm.trans_le (h.held i t held).1) ?_
    intro c is
    cases is
    trivial
  | consume =>
    simp only [Steps, RingSystem.step] at steps
    split at steps
    · cases steps
    rename_i call now
    cases steps
    exact h.consumes power now

end Coherent

/-- Whatever the interleaving of the producers' and the consumer's accesses: the messages
that were dequeued begin the list of the successful enqueues in the order of their
tickets, a published message stays in its slot until it is copied out, and no credit is
lost. -/
theorem ring_delivers_in_order (zero : α) {k : Nat} (small : k < 31)
    (size : capacity.toNat = 2 ^ k) : ∃ ring, bhMkMpscRingInit zero capacity = some ring ∧
      ∀ (n : Nat) (s : RingSystem n α), Run Steps (fun _ _ => True) (start n ring) s →
        s.dequeued <+: s.enqueued ∧ (∀ t m, s.copied ≤ t → s.tickets[t]? = some m → s.Published t →
          (s.ring.slots (t % capacity.toNat)).message = m) ∧
        s.ring.availableCredits.toNat + s.creditsHeld + (s.enqueued.length - s.dequeued.length) =
          capacity.toNat := by
  have power : ∃ k < 31, capacity.toNat = 2 ^ k := ⟨k, small, size⟩
  obtain ⟨ring, made⟩ := isSome_iff_exists.mp ((@init_isSome_iff _ zero _).mpr power)
  refine ⟨ring, made, fun n s run => ?_⟩
  have coherent : Coherent capacity s :=
    run.invariant _ (coherent_start made) fun _ _ _ h _ steps => h.step power steps
  exact ⟨coherent.dequeued_prefix, coherent.message, coherent.credits_conserved⟩

/-- Two producers take turns with the only slot of a ring. -/
def takeTurns : List (RingAction 2 Nat) :=
  [.enqueue 0 7, .enqueue 1 8] ++ replicate 7 (.produce 0 false) ++ [.dequeue] ++
    replicate 5 .consume ++ replicate 7 (.produce 1 false)

theorem ring_delivers_in_order_single : ∃ ring, bhMkMpscRingInit 0 1#32 = some ring ∧
    ∃ s : RingSystem 2 Nat, exec step (start 2 ring) takeTurns = some s ∧ s.dequeued = [7] ∧
      s.dequeued <+: s.enqueued ∧ s.ring.availableCredits.toNat + s.creditsHeld +
        (s.enqueued.length - s.dequeued.length) = 1 := by
  obtain ⟨ring, made, s, ran, dequeued⟩ : ∃ ring, bhMkMpscRingInit 0 1#32 = some ring ∧
      ∃ s : RingSystem 2 Nat, exec step (start 2 ring) takeTurns = some s ∧ s.dequeued = [7] := by
    decide +kernel
  obtain ⟨_, made', all⟩ := @ring_delivers_in_order _ 1#32 0 0 (by decide) rfl
  obtain rfl := some.inj (made.symm.trans made')
  obtain ⟨delivered, -, credits⟩ := all 2 s (run_of_exec ran)
  exact ⟨ring, made, s, ran, dequeued, delivered, credits⟩

end RingSystem

end BharatOS
