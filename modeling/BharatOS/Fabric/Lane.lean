import BharatOS.Fabric.RingOrder

/-!
# A ring as a bounded queue

Where calls on a ring do not overlap, the ring is a queue with room for its capacity:
an enqueue appends or finds the queue full, a dequeue takes the oldest message.
-/

namespace BharatOS

open Function List

structure Lane (α : Type) where
  capacity : Nat
  messages : List α
  fits : messages.length ≤ capacity

namespace Lane

variable {α : Type}

def empty (capacity : Nat) : Lane α := ⟨capacity, [], Nat.zero_le _⟩

def enqueue (lane : Lane α) (message : α) : Option (Lane α) :=
  if h : lane.messages.length < lane.capacity then
    some ⟨lane.capacity, lane.messages ++ [message], by simpa using Nat.succ_le_of_lt h⟩
  else none

def dequeue : Lane α → Option (α × Lane α)
  | ⟨_, [], _⟩ => none
  | ⟨capacity, message :: rest, fits⟩ =>
    some (message, ⟨capacity, rest, (Nat.le_succ _).trans fits⟩)

variable {lane lane' : Lane α} {message : α}

theorem enqueue_eq_some (h : lane.enqueue message = some lane') :
    lane.messages.length < lane.capacity ∧ lane'.messages = lane.messages ++ [message] ∧
      lane'.capacity = lane.capacity := by
  unfold enqueue at h
  split at h
  · rename_i short
    cases h
    exact ⟨short, rfl, rfl⟩
  · cases h

theorem dequeue_eq_some (h : lane.dequeue = some (message, lane')) :
    lane.messages = message :: lane'.messages ∧ lane'.capacity = lane.capacity := by
  obtain ⟨capacity, _ | ⟨first, rest⟩, fits⟩ := lane
  · cases h
  cases h
  exact ⟨rfl, rfl⟩

theorem dequeue_eq_none : lane.dequeue = none ↔ lane.messages = [] := by
  obtain ⟨capacity, _ | ⟨first, rest⟩, fits⟩ := lane <;> simp [dequeue]

end Lane

/-- The ring after an enqueue that nothing came between. -/
def BhMkMpscRing.filled {α : Type} (ring : BhMkMpscRing α) (message : α) : BhMkMpscRing α :=
  ({ ring with
      availableCredits := ring.availableCredits - 1
      producerHead := ring.producerHead + 1 }.setMessage ring.producerHead message).setSequence
    ring.producerHead (ring.producerHead + 1)

/-- The ring after a dequeue that nothing came between. -/
def BhMkMpscRing.drained {α : Type} (ring : BhMkMpscRing α) : BhMkMpscRing α :=
  { ring.setSequence ring.consumerTail (ring.consumerTail + ring.capacity) with
    consumerTail := ring.consumerTail + 1 }.addCredit

namespace RingSystem

variable {n : Nat} {α : Type} {capacity : BitVec 32} {s : RingSystem n α}

/-- No call is in progress, and the lane holds what is enqueued and not dequeued. -/
structure Shows (capacity : BitVec 32) (s : RingSystem n α) (lane : Lane α) : Prop where
  coherent : Coherent capacity s
  producers : ∀ i, s.producers i = none
  consumer : s.consumer = none
  size : lane.capacity = capacity.toNat
  messages : s.tickets.drop s.dequeued.length = lane.messages

/-- An enqueue that nothing comes between does to the ring what it does to the queue. -/
def EnqueueShown (capacity : BitVec 32) (s : RingSystem n α) (lane : Lane α) (message : α) : Prop :=
  match lane.enqueue message with
  | none => Sections.Returns (EnqueueCall.step false) s.ring ⟨message, .loadCredits⟩ s.ring (-6)
  | some lane' => ∃ s' : RingSystem n α, Shows capacity s' lane' ∧
      Sections.Returns (EnqueueCall.step false) s.ring ⟨message, .loadCredits⟩ s'.ring 0

def DequeueShown (capacity : BitVec 32) (s : RingSystem n α) (lane : Lane α) : Prop :=
  match lane.dequeue with
  | none => Sections.Returns DequeueCall.step s.ring .loadSequence s.ring (.error (-13))
  | some (message, lane') => ∃ s' : RingSystem n α, Shows capacity s' lane' ∧
      Sections.Returns DequeueCall.step s.ring .loadSequence s'.ring (.ok message)

theorem shows_start {zero : α} {ring : BhMkMpscRing α}
    (made : bhMkMpscRingInit zero capacity = some ring) :
    Shows capacity (start n ring) (.empty capacity.toNat) :=
  ⟨coherent_start made, fun _ => rfl, rfl, rfl, rfl⟩

theorem shows_quiet (coherent : Coherent capacity s) (producers : ∀ i, s.producers i = none)
    (consumer : s.consumer = none) : ∃ lane, Shows capacity s lane := by
  have fits : (s.tickets.drop s.dequeued.length).length ≤ capacity.toNat := by
    have window := coherent.window
    rw [length_drop]
    omega
  exact ⟨⟨capacity.toNat, _, fits⟩, coherent, producers, consumer, rfl, rfl⟩

namespace Shows

variable {lane : Lane α} (h : Shows capacity s lane)

include h

theorem waiting_zero : s.waiting = 0 := tally_eq_zero.mpr fun i => by rw [h.producers i]; rfl

theorem length_messages : lane.messages.length = s.tickets.length - s.dequeued.length := by
  rw [← h.messages, length_drop]

theorem credits : s.ring.availableCredits.toNat + lane.messages.length = lane.capacity := by
  have total := h.coherent.credits
  have le := h.coherent.bounded
  have low := (Coherent.le_copied s).1.trans (Coherent.le_copied s).2
  rw [h.waiting_zero] at total
  rw [h.length_messages, h.size]
  omega

variable {message : α}

theorem enqueue_shown (power : ∃ k < 31, capacity.toNat = 2 ^ k) (i : Fin n) :
    EnqueueShown capacity s lane message := by
  have total := h.credits
  unfold EnqueueShown
  split
  · rename_i full
    have none_left : s.ring.availableCredits = 0 := by
      unfold Lane.enqueue at full
      split at full
      · cases full
      · exact BitVec.eq_of_toNat_eq (by change _ = 0; omega)
    exact ⟨2, by simp [Sections.run, EnqueueCall.step, EnqueueCall.goto, none_left]⟩
  rename_i lane' room
  have low := (Coherent.le_copied s).1.trans ((Coherent.le_copied s).2.trans h.coherent.bounded)
  obtain ⟨short, appended, size⟩ := Lane.enqueue_eq_some room
  have left : s.ring.availableCredits ≠ 0#32 := fun e => by
    rw [e] at total
    change 0 + _ = _ at total
    omega
  -- the slot of the next ticket shows that ticket's number
  have free : (s.ring.slots (s.ring.producerHead &&& s.ring.mask).toNat).sequence =
      s.ring.producerHead := by
    have inside : s.tickets.length < s.dequeued.length + capacity.toNat := by
      rw [h.length_messages, h.size] at short
      omega
    have shows := h.coherent.sequence s.tickets.length low inside
    have slot := h.coherent.index_ofNat power s.tickets.length
    rw [← slot, ← h.coherent.head] at shows
    refine shows.trans (h.coherent.head.trans (congrArg _ ?_)).symm
    have released : s.released = s.dequeued.length := by rw [RingSystem.released, h.consumer]
    unfold shown
    rw [if_neg (by omega), if_neg (by omega)]
  have nothing : s.holding i = none := h.coherent.holding_none fun c is => by
    rw [h.producers i] at is
    cases is
  have kept : update s.producers i none = s.producers := by
    rw [← h.producers i, update_eq_self]
  have kept' : update s.holding i none = s.holding := by
    rw [← nothing, update_eq_self]
  have ran : exec step s (.enqueue i message :: replicate 7 (.produce i false)) =
      some { s with ring := s.ring.filled message, tickets := s.tickets ++ [message] } := by
    simp [exec, step, replicate, setProducer, produced, EnqueueCall.step, EnqueueCall.goto,
      EnqueueCall.ticket, takeTicket, dropTicket, BhMkMpscRing.index, BhMkMpscRing.filled,
      h.producers i, left, free, kept, kept', -BitVec.toNat_and, -BitVec.toInt_sub]
  have run := run_of_exec ran
  have coherent := run.invariant _ h.coherent fun _ _ _ h _ steps => h.step power steps
  refine ⟨_, ⟨coherent, h.producers, h.consumer, ?_, ?_⟩, 7, ?_⟩
  · exact size.trans h.size
  · rw [appended, drop_append_of_le_length low, h.messages]
  · simp [Sections.run, EnqueueCall.step, EnqueueCall.goto, BhMkMpscRing.index, BhMkMpscRing.filled,
      left, free, -BitVec.toNat_and, -BitVec.toInt_sub]

theorem published (t : Nat) : s.Published t := fun i held => by
  obtain ⟨-, -, call, now, -⟩ := h.coherent.held i t held
  rw [h.producers i] at now
  cases now

variable (power : ∃ k < 31, capacity.toNat = 2 ^ k)

include power

/-- The consumer finds a message unless the queue is empty. -/
theorem found_iff : ((s.ring.slots (s.ring.index s.ring.consumerTail)).sequence -
        (s.ring.consumerTail + 1)).toInt = 0 ↔ lane.messages ≠ [] := by
  have length := h.length_messages
  rw [h.coherent.sequence_next power (by rw [released, h.consumer]) (by rw [passed, h.consumer]),
    ← length_pos_iff, length]
  constructor
  · omega
  · intro more
    exact ⟨by omega, h.published _⟩

theorem dequeue_shown : DequeueShown capacity s lane := by
  unfold DequeueShown
  split
  · rename_i none_left
    have waits := mt (h.found_iff power).mp (not_not.mpr (Lane.dequeue_eq_none.mp none_left))
    exact ⟨1, by simp only [Sections.run, DequeueCall.step, if_neg waits]⟩
  rename_i message lane' some_left
  obtain ⟨shape, size⟩ := Lane.dequeue_eq_some some_left
  have found := (h.found_iff power).mpr (by rw [shape]; exact cons_ne_nil _ _)
  have rest : s.tickets.drop s.dequeued.length = message :: lane'.messages := h.messages.trans shape
  have first : (s.ring.slots (s.ring.index s.ring.consumerTail)).message = message := by
    have tail : s.ring.consumerTail = BitVec.ofNat 32 s.dequeued.length := by
      rw [h.coherent.tail, passed, h.consumer]
    have is : s.tickets[s.dequeued.length]? = some message := by
      rw [← head?_drop, rest]
      rfl
    rw [tail, h.coherent.index_ofNat power]
    exact h.coherent.message _ _ (by rw [copied, h.consumer]) is (h.published _)
  have ran : exec step s (.dequeue :: replicate 5 .consume) =
      some { s with ring := s.ring.drained, dequeued := s.dequeued ++ [message] } := by
    simp only [exec, step, replicate, consumed, DequeueCall.step, BhMkMpscRing.drained, h.consumer,
      Option.isSome_none, Bool.false_eq_true, if_false, Option.bind_some, if_pos found, first]
  have run := run_of_exec ran
  have coherent := run.invariant _ h.coherent fun _ _ _ h _ steps => h.step power steps
  refine ⟨_, ⟨coherent, h.producers, h.consumer, ?_, ?_⟩, 5, ?_⟩
  · exact size.trans h.size
  · have tail : (s.tickets.drop s.dequeued.length).drop 1 = lane'.messages := by rw [rest]; rfl
    simpa using tail
  · simp only [Sections.run, DequeueCall.step, if_pos found, first]
    rfl

end Shows

end RingSystem

end BharatOS
