import BharatOS.Cap.Effects

/-!
# Acknowledgements are not confused

The words between the cores may arrive late, out of order, several times or not at all.
-/

namespace BharatOS

open Function Option List

structure Network where
  system : System
  sent : Core → List Message
  requests : List (TxRequest × Nat)
  answered : List (Core × TxRequest)
  allocs : Core → TxSlot → Nat

inductive NetworkAction where
  | act (a : Action)
  | redeliver (core : Core) (words : List Message)

namespace Network

def boot (bound : Core → Bool) (pmmInitialized : Bool) : Network where
  system := .boot bound pmmInitialized
  sent := fun _ => []
  requests := []
  answered := []
  allocs := fun _ _ => 0

def kernel (n : Network) : Kernel := n.system.kernel

/-- The record of events after an action took the system to `s`. An allocation shows in
the generation of the record it takes. -/
def record (n : Network) (a : Action) (s : System) : Network where
  system := s
  sent := fun core => s.kernel.inbox core ++ n.sent core
  requests :=
    match n.system.requested a with
    | none => n.requests
    | some req => (req, n.allocs req.origin req.slot) :: n.requests
  answered :=
    match n.system.answered a with
    | none => n.answered
    | some answer => answer :: n.answered
  allocs := fun core slot =>
    if (s.kernel.txs core slot).generation = (n.kernel.txs core slot).generation then
      n.allocs core slot
    else n.allocs core slot + 1

/-- The words in front of a core are any words that were once sent to it. -/
def arrange (n : Network) (core : Core) (words : List Message) : Network :=
  { n with
    system := n.system.setKernel
      { n.kernel with inbox := update n.kernel.inbox core words } }

/-- Only the kernel's own code puts words on the way. -/
def step (n : Network) : NetworkAction → Option Network
  | .act (.post _ _) => none
  | .act a => (n.system.step a).map fun done => n.record a done.1
  | .redeliver core words =>
    if ∀ m ∈ words, m ∈ n.sent core then some (n.arrange core words) else none

abbrev Steps (n : Network) (a : NetworkAction) (n' : Network) : Prop := n.step a = some n'

variable {n : Network}

theorem step_cases {n' : Network} {a : NetworkAction} (h : Steps n a n') :
    (∃ action s, a = .act action ∧ (∀ core message, action ≠ .post core message) ∧
      System.Steps n.system action s ∧ n' = n.record action s) ∨
    ∃ core words, a = .redeliver core words ∧ (∀ m ∈ words, m ∈ n.sent core) ∧
      n' = n.arrange core words := by
  cases a with
  | redeliver core words =>
    simp only [Steps, step] at h
    split at h
    · rename_i known
      exact .inr ⟨core, words, rfl, known, (some.inj h).symm⟩
    · cases h
  | act action =>
    by_cases post : ∃ core message, action = .post core message
    · obtain ⟨_, _, rfl⟩ := post
      cases h
    have other : ∀ core message, action ≠ .post core message :=
      fun core message e => post ⟨core, message, e⟩
    have out : (n.system.step action).map (fun done => n.record action done.1) = some n' := by
      cases action with
      | post core message => exact absurd rfl (other core message)
      | _ => exact h
    obtain ⟨⟨s, event⟩, now, rfl⟩ := map_eq_some_iff.mp out
    exact .inl ⟨action, s, rfl, other, ⟨event, now⟩, rfl⟩

/-- Every word is a request that was made or an answer that was given. -/
def Known (n : Network) (m : Message) : Prop :=
  (∃ req tag, (req, tag) ∈ n.requests ∧ m.Asks req) ∨
    ∃ r req, (r, req) ∈ n.answered ∧ m.Answers r req

structure Sound (n : Network) : Prop where
  known : ∀ core, ∀ m ∈ n.sent core, n.Known m
  arrived : ∀ core, ∀ m ∈ n.kernel.inbox core, m ∈ n.sent core
  handled : ∀ core call, n.system.handlers core = some call →
    call.Acks ∧ ∃ tag, (call.reply.request, tag) ∈ n.requests
  asked : ∀ r req, (r, req) ∈ n.answered → ∃ tag, (req, tag) ∈ n.requests
  counted : ∀ core slot, n.allocs core slot < 2 ^ 32 →
    (n.kernel.txs core slot).generation.toNat = n.allocs core slot
  dated : ∀ req tag, (req, tag) ∈ n.requests →
    tag ≤ n.allocs req.origin req.slot ∧ (tag < 2 ^ 32 → req.generation.toNat = tag)
  acked : ∀ core slot r, (n.kernel.txs core slot).ackMask.getLsbD r.val = true →
    ∃ req, (r, req) ∈ n.answered ∧ req.origin = core ∧ req.slot = slot ∧
      req.generation = (n.kernel.txs core slot).generation

theorem sound_boot (bound : Core → Bool) (pmmInitialized : Bool) :
    Sound (boot bound pmmInitialized) where
  known := nofun
  arrived := nofun
  handled := fun _ _ h => by cases h
  asked := nofun
  counted := fun _ _ _ => rfl
  dated := nofun
  acked := fun _ _ _ h => by simp [boot, kernel, System.boot, Kernel.boot, BhCapTxEntry.zero] at h

variable {generation : BitVec 32}

theorem bump_ne : BhCapTxEntry.bumpGeneration generation ≠ generation := by
  unfold BhCapTxEntry.bumpGeneration
  split
  · rename_i wraps
    rintro rfl
    exact absurd wraps (by decide)
  intro same
  have value := congrArg BitVec.toNat same
  rw [BitVec.toNat_add] at value
  have one : (1 : BitVec 32).toNat = 1 := rfl
  omega

theorem bump_toNat (small : generation.toNat + 1 < 2 ^ 32) :
    (BhCapTxEntry.bumpGeneration generation).toNat = generation.toNat + 1 := by
  have one : (1 : BitVec 32).toNat = 1 := rfl
  have value : (generation + 1).toNat = generation.toNat + 1 := by
    rw [BitVec.toNat_add]
    omega
  unfold BhCapTxEntry.bumpGeneration
  rw [if_neg, value]
  intro zero
  rw [zero] at value
  simp at value

/-! ## What a step does -/

variable {a : Action} {req : TxRequest} {s : System} {core : Core} {m : Message}

theorem requested_generation (h : s.requested a = some req) :
    req.generation = (s.kernel.txs req.origin req.slot).generation := by
  cases a with
  | resume thread expired =>
    simp only [System.requested] at h
    split at h
    · cases h
    · rename_i call _
      unfold DelegateCall.requested at h
      split at h <;> cases h <;> rfl
    · rename_i call _
      unfold RevokeCall.requested at h
      simp only at h
      split at h <;> cases h
      rfl
  | _ => cases h

/-- An acknowledgement that is accepted sets one bit of a record of its generation. -/
inductive Acknowledges (core : Core) (ack : TxAck) (k k' : Kernel) : Prop
  | dropped (txs : k'.txs = k.txs)
  | accepted (slot : TxSlot) (result : Int) (origin : ack.originCore.toNat = core)
      (record : ack.slot.toNat = slot) (generation : (k.txs core slot).generation = ack.generation)
      (txs : k'.txs = k.txs.set core slot
        { k.txs core slot with
          ackMask := (k.txs core slot).ackMask ||| 1#32 <<< ack.responderCore.toNat
          result := result })

theorem handleAck_acknowledges (k : Kernel) (core : Core) (payload : BitVec 64) :
    Acknowledges core (capTxUnpackAck payload) k (k.capHandleTxAck core payload) := by
  unfold Kernel.capHandleTxAck
  generalize capTxUnpackAck payload = ack
  simp only
  split
  · rename_i small
    split
    · exact .dropped rfl
    rename_i addressed
    split
    · exact .dropped rfl
    rename_i accepted
    split
    · exact .dropped rfl
    split
    · exact .dropped rfl
    simp only [not_or, not_not] at addressed
    simp only [Bool.not_eq_false, Kernel.txAccepts, Bool.and_eq_true, beq_iff_eq] at accepted
    exact .accepted ⟨ack.slot.toNat, small⟩ _ addressed.1 rfl accepted.1 rfl
  · exact .dropped rfl

theorem handleAck_inbox (k : Kernel) (core : Core) (payload : BitVec 64) :
    (k.capHandleTxAck core payload).inbox = k.inbox := by
  unfold Kernel.capHandleTxAck
  simp only
  repeat' split
  all_goals rfl

/-- A received word leaves the ring; if it is an acknowledgement, it is dealt with. -/
theorem receive_cases {s' : System} (h : System.Steps s (.receive core) s') :
    ∃ message rest, s.kernel.inbox core = message :: rest ∧
      s'.kernel.inbox = update s.kernel.inbox core rest ∧ (s'.kernel.txs = s.kernel.txs ∨
        ((urpcUnpackMsg message.raw).type = UrpcMsgType.capDelegateAck.code ∨
          (urpcUnpackMsg message.raw).type = UrpcMsgType.capRevokeAck.code) ∧
        Acknowledges core (capTxUnpackAck (urpcUnpackMsg message.raw).payload) s.kernel
          s'.kernel) := by
  obtain ⟨event, h⟩ := h
  simp only [System.step] at h
  split at h
  · cases h
  split at h
  · cases h
  rename_i message rest inbox
  cases h
  refine ⟨message, rest, inbox, ?_⟩
  unfold System.receive
  simp only
  split
  · exact ⟨rfl, .inl rfl⟩
  split
  · rename_i kind
    refine ⟨handleAck_inbox _ _ _, .inr ⟨kind, ?_⟩⟩
    cases handleAck_acknowledges { s.kernel with inbox := update s.kernel.inbox core rest } core
        (urpcUnpackMsg message.raw).payload with
    | dropped txs => exact .dropped txs
    | accepted slot result origin record generation txs =>
      exact .accepted slot result origin record generation txs
  · exact ⟨rfl, .inl rfl⟩

/-- A request is not taken for an answer, nor the other way round. -/
theorem Known.request (h : n.Known m)
    (kind : (urpcUnpackMsg m.raw).type = UrpcMsgType.capDelegateReq.code ∨
      (urpcUnpackMsg m.raw).type = UrpcMsgType.capRevoke.code) :
    ∃ req tag, (req, tag) ∈ n.requests ∧ (urpcUnpackMsg m.raw).payload = req.packed := by
  rcases h with ⟨req, tag, made, asks⟩ | ⟨r, req, -, answers⟩
  · exact ⟨req, tag, made, asks.unpacked.2⟩
  · rcases answers.unpacked.1 with e | e <;> rw [e] at kind <;> exact absurd kind (by decide)

theorem Known.answer (h : n.Known m)
    (kind : (urpcUnpackMsg m.raw).type = UrpcMsgType.capDelegateAck.code ∨
      (urpcUnpackMsg m.raw).type = UrpcMsgType.capRevokeAck.code) :
    ∃ r req status, (r, req) ∈ n.answered ∧
      (urpcUnpackMsg m.raw).payload = req.packedAck r status := by
  rcases h with ⟨req, tag, -, asks⟩ | ⟨r, req, given, answers⟩
  · rcases asks.unpacked.1 with e | e <;> rw [e] at kind <;> exact absurd kind (by decide)
  obtain ⟨status, payload⟩ := answers.unpacked.2
  exact ⟨r, req, status, given, payload⟩

/-- A record keeps its transaction, is handed out again, or hears from a core that
answered a request of this very transaction. -/
inductive RecordStep (n : Network) (core : Core) (slot : TxSlot) (tx tx' : BhCapTxEntry) : Prop
  | moves (move : RecordMove tx tx')
  | hears (r : Core) (req : TxRequest) (given : (r, req) ∈ n.answered) (origin : req.origin = core)
      (record : req.slot = slot) (generation : req.generation = tx.generation)
      (kept : tx'.generation = tx.generation) (acks : tx'.ackMask = tx.ackMask ||| 1#32 <<< r.val)

theorem acknowledges_record {k k' : Kernel} {r : Core} {status : BitVec 8}
    (given : (r, req) ∈ n.answered)
    (h : Acknowledges core (capTxUnpackAck (req.packedAck r status)) k k') {core' : Core}
    {slot : TxSlot} : RecordStep n core' slot (k.txs core' slot) (k'.txs core' slot) := by
  rw [req.unpack_packedAck r status] at h
  cases h with
  | dropped txs => rw [txs]; exact .moves (.refl _)
  | accepted at' result origin record generation txs =>
    rw [txs]
    rw [TxRequest.toNat_core] at origin
    rw [TxRequest.toNat_slot] at record
    obtain rfl := Fin.ext origin
    obtain rfl := Fin.ext record
    by_cases same : core' = req.origin ∧ slot = req.slot
    · obtain ⟨rfl, rfl⟩ := same
      rw [TxTable.set_self]
      exact .hears r req given rfl rfl generation.symm rfl (by rw [TxRequest.toNat_core])
    · rw [TxTable.set_other _ same]
      exact .moves (.refl _)

structure Outcome (n : Network) (a : Action) (s : System) : Prop where
  records : ∀ core slot, RecordStep n core slot (n.kernel.txs core slot) (s.kernel.txs core slot)
  words : ∀ core, ∀ m ∈ s.kernel.inbox core, m ∈ n.kernel.inbox core ∨
    (∃ req ∈ n.system.requested a, m.Asks req) ∨
    ∃ r req, n.system.answered a = some (r, req) ∧ m.Answers r req

theorem Sound.outcome (h : Sound n) (other : ∀ core message, a ≠ .post core message)
    (now : System.Steps n.system a s) : Outcome n a s := by
  by_cases receive : ∃ core, a = .receive core
  · obtain ⟨core, rfl⟩ := receive
    obtain ⟨message, rest, inbox, popped, records⟩ := receive_cases now
    refine ⟨fun core' slot => ?_, fun core' m here => .inl ?_⟩
    · rcases records with txs | ⟨kind, acks⟩
      · rw [txs]; exact .moves (.refl _)
      have arrived : n.Known message := h.known core message (h.arrived core message (by
          rw [kernel, inbox]; exact mem_cons_self))
      obtain ⟨r, req, status, given, payload⟩ := arrived.answer kind
      rw [payload] at acks
      exact acknowledges_record given acks
    · rw [popped] at here
      by_cases same : core' = core
      · subst same
        rw [update_self] at here
        rw [kernel, inbox]
        exact mem_cons_of_mem _ here
      · rwa [update_of_ne same] at here
  · have traffic := System.step_traffic now (fun core call was => (h.handled core call was).1) other
      fun core e => receive ⟨core, e⟩
    exact ⟨fun core slot => .moves (traffic.records core slot), traffic.words⟩

/-! ## What the steps keep -/

section Recorded

variable {n : Network} {a : Action} {s : System}

theorem requests_grow {x : TxRequest × Nat} (h : x ∈ n.requests) : x ∈ (n.record a s).requests := by
  simp only [record]
  split
  · exact h
  · exact mem_cons_of_mem _ h

theorem answered_grow {x : Core × TxRequest} (h : x ∈ n.answered) :
    x ∈ (n.record a s).answered := by
  simp only [record]
  split
  · exact h
  · exact mem_cons_of_mem _ h

variable {req : TxRequest}

theorem requests_new {tag : Nat} (h : (req, tag) ∈ (n.record a s).requests) :
    (req, tag) ∈ n.requests ∨
      n.system.requested a = some req ∧ tag = n.allocs req.origin req.slot := by
  simp only [record] at h
  split at h
  · exact .inl h
  rename_i asked
  rcases mem_cons.mp h with e | old
  · cases e
    exact .inr ⟨asked, rfl⟩
  · exact .inl old

variable {r : Core}

theorem answered_new (h : (r, req) ∈ (n.record a s).answered) :
    (r, req) ∈ n.answered ∨ n.system.answered a = some (r, req) := by
  simp only [record] at h
  split at h
  · exact .inl h
  rename_i given
  rcases mem_cons.mp h with rfl | old
  · exact .inr given
  · exact .inl old

theorem requested_recorded (h : n.system.requested a = some req) :
    (req, n.allocs req.origin req.slot) ∈ (n.record a s).requests := by
  simp only [record, h]
  exact mem_cons_self

theorem answered_recorded (h : n.system.answered a = some (r, req)) :
    (r, req) ∈ (n.record a s).answered := by
  simp only [record, h]
  exact mem_cons_self

theorem Known.grow (h : n.Known m) : (n.record a s).Known m := by
  rcases h with ⟨req, tag, made, asks⟩ | ⟨r, req, given, answers⟩
  · exact .inl ⟨req, tag, requests_grow made, asks⟩
  · exact .inr ⟨r, req, answered_grow given, answers⟩

theorem allocs_grow {slot : TxSlot} : n.allocs core slot ≤ (n.record a s).allocs core slot := by
  simp only [record]
  split <;> omega

end Recorded

namespace Sound

variable {n : Network} {a : Action} {s : System} {core r : Core} {req : TxRequest} {slot : TxSlot}

section

variable (h : Sound n)

include h

/-- A handler works on a request that was made. -/
theorem record_handled (now : System.Steps n.system a s) {call : HandlerCall}
    (in_call : s.handlers core = some call) :
    call.Acks ∧ ∃ tag, (call.reply.request, tag) ∈ (n.record a s).requests := by
  cases (System.step_origin now).2 _ _ in_call with
  | before was =>
    obtain ⟨acks, tag, made⟩ := h.handled core call was
    exact ⟨acks, tag, requests_grow made⟩
  | receives start idle inbox popped kind first =>
    rename_i message rest
    have known : n.Known message := h.known core message (h.arrived core message (by
      rw [kernel, inbox]; exact mem_cons_self))
    obtain ⟨req, tag, made, payload⟩ := known.request kind
    obtain ⟨request, acks⟩ := HandlerCall.receiveReq_request first
    rw [payload, req.ofPayload_packed] at request
    rw [← some.inj request]
    exact ⟨acks, tag, requests_grow made⟩
  | handling goes was next =>
    obtain ⟨acks, tag, made⟩ := h.handled core _ was
    obtain ⟨acks', reply⟩ := HandlerCall.step_acks next acks
    exact ⟨acks', tag, requests_grow (reply ▸ made)⟩

theorem record_asked (given : (r, req) ∈ (n.record a s).answered) :
    ∃ tag, (req, tag) ∈ (n.record a s).requests := by
  rcases answered_new given with old | now
  · obtain ⟨tag, made⟩ := h.asked r req old
    exact ⟨tag, requests_grow made⟩
  cases a with
  | handle core =>
    obtain ⟨call, was, e⟩ := bind_eq_some_iff.mp now
    obtain ⟨-, tag, made⟩ := h.handled core call was
    refine ⟨tag, requests_grow ?_⟩
    unfold HandlerCall.answered at e
    split at e
    · obtain ⟨-, rfl⟩ := Prod.mk.inj (some.inj e)
      exact made
    · cases e
  | _ => cases now

theorem record_counted (out : Outcome n a s) (few : (n.record a s).allocs core slot < 2 ^ 32) :
    (s.kernel.txs core slot).generation.toNat = (n.record a s).allocs core slot := by
  have same : (s.kernel.txs core slot).generation = (n.kernel.txs core slot).generation →
      (s.kernel.txs core slot).generation.toNat = (n.record a s).allocs core slot := by
    intro kept
    simp only [record, kept, ↓reduceIte] at few ⊢
    exact h.counted core slot few
  cases out.records core slot with
  | moves move =>
    cases move with
    | keeps generation => exact same generation
    | reused generation =>
      have moved : (s.kernel.txs core slot).generation ≠ (n.kernel.txs core slot).generation :=
        generation ▸ bump_ne
      simp only [record, if_neg moved] at few ⊢
      have before := h.counted core slot (by omega)
      rw [generation, bump_toNat (by omega), before]
  | hears _ _ _ _ _ _ kept => exact same kept

theorem record_dated {tag : Nat} (made : (req, tag) ∈ (n.record a s).requests) :
    tag ≤ (n.record a s).allocs req.origin req.slot ∧
      (tag < 2 ^ 32 → req.generation.toNat = tag) := by
  rcases requests_new made with old | ⟨asked, rfl⟩
  · obtain ⟨before, value⟩ := h.dated req tag old
    exact ⟨before.trans allocs_grow, value⟩
  refine ⟨allocs_grow, fun few => ?_⟩
  rw [requested_generation asked]
  exact h.counted _ _ few

theorem record_acked (out : Outcome n a s)
    (bit : (s.kernel.txs core slot).ackMask.getLsbD r.val = true) :
    ∃ req, (r, req) ∈ (n.record a s).answered ∧ req.origin = core ∧ req.slot = slot ∧
      req.generation = (s.kernel.txs core slot).generation := by
  have before : (s.kernel.txs core slot).generation = (n.kernel.txs core slot).generation →
      (n.kernel.txs core slot).ackMask.getLsbD r.val = true →
      ∃ req, (r, req) ∈ (n.record a s).answered ∧ req.origin = core ∧ req.slot = slot ∧
        req.generation = (s.kernel.txs core slot).generation := by
    intro kept was
    obtain ⟨req, given, origin, record, generation⟩ := h.acked core slot r was
    exact ⟨req, answered_grow given, origin, record, kept ▸ generation⟩
  cases out.records core slot with
  | moves move =>
    cases move with
    | keeps generation acks =>
      rcases acks with same | zero
      · exact before generation (same ▸ bit)
      · rw [zero] at bit; simp at bit
    | reused generation zero => rw [zero] at bit; simp at bit
  | hears r' req given origin record generation kept acks =>
    by_cases same : r = r'
    · subst same
      exact ⟨req, answered_grow given, origin, record, kept ▸ generation⟩
    refine before kept ?_
    rw [acks, BitVec.getLsbD_or] at bit
    have other : (1#32 <<< r'.val).getLsbD r.val = false := by
      grind
    rwa [other, Bool.or_false] at bit

theorem step {n' : Network} {a : NetworkAction} (now : Steps n a n') : Sound n' := by
  rcases step_cases now with ⟨action, s, rfl, other, moved, rfl⟩ | ⟨core, words, rfl, known, rfl⟩
  · have out := h.outcome other moved
    refine ⟨fun core m here => ?_, fun core m here => mem_append_left _ here,
      fun core call => h.record_handled moved, fun r req => h.record_asked,
      fun core slot => h.record_counted out, fun req tag => h.record_dated,
      fun core slot r => h.record_acked out⟩
    rcases mem_append.mp here with arrived | old
    · rcases out.words core m arrived with old | ⟨req, asked, asks⟩ | ⟨r, req, given, answers⟩
      · exact (h.known core m (h.arrived core m old)).grow
      · exact .inl ⟨req, _, requested_recorded asked, asks⟩
      · exact .inr ⟨r, req, answered_recorded given, answers⟩
    · exact (h.known core m old).grow
  · refine ⟨h.known, fun core' m here => ?_, h.handled, h.asked, h.counted, h.dated, h.acked⟩
    simp only [arrange, kernel, System.setKernel] at here
    by_cases same : core' = core
    · subst same
      rw [update_self] at here
      exact known m here
    · rw [update_of_ne same] at here
      exact h.arrived core' m here

end

end Sound

/-- Whatever happens to the words on their way: a bit in the acknowledgement mask of a
record stands for a core that answered a request of the transaction the record belongs to
now. Packing, the 56 bits of a message and unpacking lose nothing of either format. -/
theorem acks_not_confused (bound : Core → Bool) (pmmInitialized : Bool) :
    (∀ n, Run Steps (fun _ _ => True) (boot bound pmmInitialized) n →
      ∀ core slot r, n.allocs core slot < 2 ^ 32 →
        (n.kernel.txs core slot).ackMask.getLsbD r.val = true →
        ∃ req, (r, req) ∈ n.answered ∧ req.origin = core ∧ req.slot = slot ∧
          req.generation = (n.kernel.txs core slot).generation ∧
          (req, n.allocs core slot) ∈ n.requests) ∧
    (∀ (type : UrpcMsgType) (origin slot responder status : BitVec 8) (generation : BitVec 32),
      origin.toNat < 32 → slot.toNat < 16 → responder.toNat < 32 →
        capTxUnpackAck (urpcUnpackMsg (urpcPackMsg type
          (capTxPackAck origin slot generation responder status))).payload =
            ⟨origin, slot, generation, responder, status⟩) ∧
    ∀ (type : UrpcMsgType) (origin slot op : BitVec 8) (generation : BitVec 32),
      origin.toNat < 32 → slot.toNat < 16 → capTxUnpackReq (urpcUnpackMsg (urpcPackMsg type
          (capTxPackReq origin slot generation op))).payload = ⟨origin, slot, generation, op⟩ := by
  refine ⟨fun n run core slot r few bit => ?_, ?_, ?_⟩
  · have sound : Sound n := run.invariant Sound (sound_boot bound pmmInitialized)
      fun _ _ _ sound _ now => sound.step now
    obtain ⟨req, given, rfl, rfl, generation⟩ := sound.acked core slot r bit
    obtain ⟨tag, made⟩ := sound.asked r req given
    obtain ⟨before, value⟩ := sound.dated req tag made
    -- fewer than 2 ^ 32 allocations: the generation tells which one the request belongs to
    have current := sound.counted req.origin req.slot few
    have same : tag = n.allocs req.origin req.slot := by
      rw [← value (before.trans_lt few), generation, current]
    exact ⟨req, given, rfl, rfl, generation, same ▸ made⟩
  · intro type origin slot responder status generation core small other
    have value := capTxPackAck_toNat origin slot generation responder status
    rw [urpcUnpackMsg_pack (by omega)]
    exact capTxUnpackAck_pack core small other
  · intro type origin slot op generation core small
    have value := capTxPackReq_toNat origin slot generation op
    rw [urpcUnpackMsg_pack (by omega)]
    exact capTxUnpackReq_pack origin slot generation op (by omega)

/-- Core 1 answers a delegation; its answer is put in front of core 0 twice. -/
def answeredTwice : List NetworkAction :=
  let answer : Message := ⟨1, urpcPackMsg .capDelegateAck (capTxPackAck 0 0 1 1 0)⟩
  [.act (.create 0 true), .act (.create 1 true),
    .act (.grant 0 ⟨0, 0⟩ .memory 0 (capRightMemoryMap ||| capRightDelegate)),
    .act (.delegate 0 0 ⟨0, 0⟩ ⟨1, 0⟩ 0x10001 capRightMemoryMap),
    .act (.resume 0 false), .act (.resume 0 false), .act (.receive 1)] ++
  replicate 15 (.act (.handle 1)) ++
  [.redeliver 0 [answer, answer], .act (.receive 0), .act (.receive 0)]

theorem acks_not_confused_twice : ∃ n : Network,
    Run Steps (fun _ _ => True) (boot (fun _ => true) true) n ∧ n.allocs 0 0 < 2 ^ 32 ∧
      (n.kernel.txs 0 0).ackMask.getLsbD 1 = true ∧
      ∃ req, ((1 : Core), req) ∈ n.answered ∧ req.origin = 0 ∧ req.slot = 0 ∧
        req.generation = (n.kernel.txs 0 0).generation ∧ (req, n.allocs 0 0) ∈ n.requests := by
  exact found_run_then_both answeredTwice (by decide +kernel) fun n run =>
    (acks_not_confused (fun _ => true) true).1 n run 0 0 1

end Network

end BharatOS
