import BharatOS.Ipc.Protocol
import BharatOS.Cap.Usable

/-!
# What a receive call hands over

A receive call installs the capabilities of a message after it has claimed the message and before
it takes it, from its own copy of the enclosure.
-/

namespace BharatOS

/-- The handle names a live child of the capability at `source`, with these rights. -/
def Installation.Names (made : Installation) (source : BhCapLocator) (rights : CapRightsMask) :
    Prop :=
  ∃ e, made.named = some e ∧ e.state = .live ∧ e.parent = source ∧ e.rights = rights

/-- The capability of a message has arrived, if there is one and the call wants it. -/
def Arrived (id : BitVec 32) (source : BhCapLocator) (rights : CapRightsMask) (wanted : Bool) :
    Option Installation → Prop
  | none => id = 0 ∨ wanted = false
  | some made => id ≠ 0 ∧ wanted = true ∧ made.Names source rights

/-- The first capability of the enclosure. -/
def Enclosure.CapArrived (e : Enclosure) (kind : ReceiveKind) : Option Installation → Prop :=
  Arrived e.capTransferId e.capTransferSource e.capTransferRights (ReceiveCall.wantsCap kind)

/-- The reply capability of the enclosure; only the envelope has room for it. -/
def Enclosure.ReplyArrived (e : Enclosure) (kind : ReceiveKind) : Option Installation → Prop :=
  Arrived e.replyCapTransferId e.replyCapTransferSource e.replyCapTransferRights
    (kind == .envelope)

/-- A receipt for this message: its bytes, its length, and its capabilities. -/
structure Receipt.Matches (r : Receipt) (parcel : Parcel) : Prop where
  payload : r.payload = parcel.payload
  msgLen : r.msgLen = parcel.msgLen
  cap : parcel.enclosure.CapArrived r.kind r.installed.cap
  reply : parcel.enclosure.ReplyArrived r.kind r.installed.reply
  envelope : r.envelope =
    if r.kind = .envelope then some (fillEnvelope parcel.enclosure r.installed) else none

/-- A call holds what it installed from its own claim. -/
def ReceivePc.Honest (kind : ReceiveKind) : ReceivePc → Prop
  | .installReply claim cap => claim.CapArrived kind cap ∧ kind = .envelope
  | .commit claim (.ok made) => claim.CapArrived kind made.cap ∧ claim.ReplyArrived kind made.reply
  | _ => True

def IpcCall.Honest : IpcCall → Prop
  | .receive call => call.pc.Honest call.frame.args.kind
  | _ => True

namespace Registry

variable {R : Registry} {c d : CapRef} {locator : BhCapLocator}

/-- An instance that a transfer captured is the parent its child notes. -/
theorem childOf_parent (rights : CapRightsMask) (found : R.locate locator = some d)
    (home : c.table = d.table) (same : R.expectedMatches c (some locator) = true) :
    (R.childOf c rights).parent = locator := by
  obtain ⟨named, core, -⟩ := locate_eq_some.mp found
  simp only [expectedMatches, Bool.and_eq_true, beq_iff_eq] at same
  obtain ⟨⟨slot, generation⟩, epoch⟩ := same
  rw [← home] at named core
  have made := locatorMake_of_cspaceId named (R.entry c).generation
    ((R.entry c).revocationEpoch.setWidth 32)
  rw [generation, epoch, slot, ← core] at made
  simpa [childOf, generation, epoch, slot] using made

end Registry

namespace ReceiveCall

variable {k k' : Kernel} {args : ReceiveArgs} {source : BhCapLocator} {rights : CapRightsMask}
  {made : Installation}

theorem transferInstall_names {core : Core} {ref : TableRef} {capId : BitVec 32}
    (h : k.bhCapTransferInstall core source ref rights = (k', .ok capId)) :
    Installation.Names ⟨capId, (k'.registry.findIndex ref capId).map k'.registry.entry⟩ source
      rights := by
  rcases k.transferInstall_cases core source ref rights with ⟨code, failed⟩ | ⟨d, id, found, eq⟩
  · rw [failed] at h
    cases h
  rw [eq] at h
  rcases k.delegateLocal_cases d.table ref id rights (some source) with
    ⟨code, failed⟩ | ⟨c, j, R, live, same, -, -, -, -, installed, done⟩
  · rw [failed] at h
    cases h
  rw [done] at h
  cases h
  have parent := Registry.childOf_parent rights found (Registry.findLive_some live).1 same
  have new := Registry.install_entry_self installed
  have used : (R.entry ⟨ref, j⟩).inUse = true := by rw [new]; rfl
  generalize R.locatorMake ref j _ _ = child
  have used' : ((R.edit c (.firstChild child)).entry ⟨ref, j⟩).inUse = true := by
    rw [Registry.edit_inUse, used]
  have handle : R.handle ⟨ref, j⟩ = (R.edit c (.firstChild child)).handle ⟨ref, j⟩ := by
    rw [Registry.handle_of_inUse used, Registry.handle_of_inUse used', Registry.edit_generation]
  refine ⟨(R.edit c (.firstChild child)).entry ⟨ref, j⟩, ?_, ?_⟩
  · rw [handle, Registry.findIndex_handle used', Option.map_some]
  · rcases Registry.edit_entry_cases with e | e <;> rw [e, new] <;>
      exact ⟨rfl, parent, rfl⟩

theorem installCap_names (h : installCap k args source rights = (k', .ok made)) :
    made.Names source rights := by
  unfold installCap at h
  split at h
  · rename_i done
    cases h
    exact transferInstall_names done
  · cases h

theorem afterInstall_honest {kind : ReceiveKind} {claim : Enclosure} {cap : Option Installation}
    (arrived : claim.CapArrived kind cap) : (afterInstall kind claim cap).Honest kind := by
  cases kind with
  | plain wants => exact ⟨arrived, .inr rfl⟩
  | envelope => exact ⟨arrived, rfl⟩

theorem wakeAndReturn_next {φ : Type} {waking : Nat → φ} {event : IpcEvent} {code : Int}
    {out : IpcState × Option Nat} {call : φ}
    (h : (wakeAndReturn waking event code out).next = .inl call) : ∃ t, call = waking t := by
  obtain ⟨state, none | t⟩ := out
  · cases h
  · cases h; exact ⟨t, rfl⟩

variable {call : ReceiveCall} {expired : Bool} {s : IpcState} {thread : Nat}

theorem step_honest {call' : ReceiveCall} (h : call.pc.Honest call.frame.args.kind)
    (goes : (call.step thread expired s).next = .inl call') :
    call'.pc.Honest call'.frame.args.kind := by
  obtain ⟨f, pc⟩ := call
  cases pc with
  | recheck | asleep =>
    simp only [step] at goes
    split at goes <;> cases goes
    trivial
  | enter =>
    simp only [step, enter] at goes
    repeat' split at goes
    all_goals cases goes
    all_goals trivial
  | block => cases goes; trivial
  | install claim =>
    simp only [step] at goes
    split at goes
    · rename_i wanted
      split at goes <;> rename_i made
      · cases goes
        exact afterInstall_honest ⟨wanted.1, wanted.2, installCap_names made⟩
      · cases goes; trivial
    · rename_i unwanted
      cases goes
      refine afterInstall_honest ?_
      rw [not_and_or, not_not, Bool.not_eq_true] at unwanted
      exact unwanted
  | installReply claim cap =>
    simp only [step] at goes
    split at goes
    · rename_i wanted
      split at goes <;> rename_i made
      · cases goes
        exact ⟨h.1, wanted, beq_iff_eq.mpr h.2, installCap_names made⟩
      · cases goes
        simp only [afterReply]
        split <;> trivial
    · rename_i unwanted
      cases goes
      exact ⟨h.1, .inl (not_not.mp unwanted)⟩
  | rollback claim code capId revoking =>
    cases revoking <;> simp only [step] at goes <;> split at goes <;> cases goes <;> trivial
  | commit claim outcome =>
    simp only [step, commit] at goes
    split at goes
    · cases goes; trivial
    repeat' split at goes
    all_goals
      obtain ⟨woken, rfl⟩ := wakeAndReturn_next goes
      trivial
  | undo pending revoking =>
    cases revoking with
    | none =>
      cases pending with
      | nil => cases goes
      | cons capId rest => simp only [step] at goes; split at goes <;> cases goes <;> trivial
    | some revoking => simp only [step] at goes; split at goes <;> cases goes <;> trivial
  | wake => cases goes

/-- What a receive call returns with success is the message in the endpoint, with the
enclosure it claimed. -/
theorem step_taken {p : Place} {r : Receipt} (h : call.pc.Honest call.frame.args.kind)
    (taken : (call.step thread expired s).event = .taken p r) :
    ∃ claim, call.pc.stage = .holding claim ∧ p = call.frame.place ∧
      r.Matches { (s.endpoint p).parcel with enclosure := claim } := by
  obtain ⟨f, pc⟩ := call
  cases pc with
  | recheck | asleep | block | wake | install | installReply =>
    simp only [step] at taken
    repeat' split at taken
    all_goals cases taken
  | enter =>
    simp only [step, enter] at taken
    repeat' split at taken
    all_goals cases taken
  | rollback claim code capId revoking =>
    cases revoking <;> simp only [step] at taken <;> split at taken <;> cases taken
  | undo pending revoking =>
    cases revoking with
    | none =>
      cases pending with
      | nil => cases taken
      | cons capId rest => simp only [step] at taken; split at taken <;> cases taken
    | some revoking => simp only [step] at taken; split at taken <;> cases taken
  | commit claim outcome =>
    simp only [step, commit] at taken
    split at taken
    · cases taken
    split at taken
    · split at taken <;> cases taken
    cases taken
    exact ⟨claim, rfl, rfl, rfl, rfl, h.1, h.2, rfl⟩

end ReceiveCall

theorem SendCall.step_taken {thread : Nat} {expired : Bool} {s : IpcState} {call : SendCall}
    {p : Place} {r : Receipt} : (call.step thread expired s).event ≠ .taken p r := by
  intro taken
  obtain ⟨f, pc⟩ := call
  cases pc with
  | enter =>
    simp only [step, enter] at taken
    repeat' split at taken
    all_goals cases taken
  | describe | capture | checkReply | captureReply | recheck | recapture | recaptureReply | block
  | asleep | wake =>
    simp only [step] at taken
    repeat' split at taken
    all_goals cases taken

namespace IpcCall

variable {thread : Nat} {expired : Bool} {s : IpcState}

theorem step_honest {call call' : IpcCall} (h : call.Honest)
    (goes : (call.step thread expired s).next = .inl call') : call'.Honest := by
  cases call with
  | resolveSend args objectRef | resolveReceive args objectRef =>
    simp only [step] at goes
    split at goes <;> cases goes
    trivial
  | send call =>
    simp only [step, ofStep] at goes
    cases next : (call.step thread expired s).next with
    | inl c => rw [next] at goes; cases goes; trivial
    | inr code => rw [next] at goes; cases goes
  | create call =>
    simp only [step, ofStep] at goes
    cases next : (call.step expired s).next with
    | inl c => rw [next] at goes; cases goes; trivial
    | inr code => rw [next] at goes; cases goes
  | receive call =>
    simp only [step, ofStep] at goes
    cases next : (call.step thread expired s).next with
    | inl c =>
      rw [next] at goes
      cases goes
      exact ReceiveCall.step_honest h next
    | inr code => rw [next] at goes; cases goes

theorem step_taken {call : IpcCall} {v : Visit} {p : Place} {r : Receipt} (h : call.Honest)
    (visit : call.visit = some v) (taken : (call.step thread expired s).event = .taken p r) :
    ∃ claim, v.stage = .holding claim ∧ p = v.place ∧
      r.Matches { (s.endpoint p).parcel with enclosure := claim } := by
  cases call with
  | resolveSend | resolveReceive | create => cases visit
  | send call => exact absurd taken SendCall.step_taken
  | receive call =>
    cases visit
    exact ReceiveCall.step_taken h taken

end IpcCall

end BharatOS
