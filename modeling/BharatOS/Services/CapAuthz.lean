import Mathlib.Tactic.Common

namespace BharatOS

/-- `bharat_cap_object_type_t`, as far as the services ask for it. -/
inductive CapObjectType
  | service | process
  deriving DecidableEq

inductive IpcStatus
  | ok | errPerm | errOpcode | errLength | errVersion | errNotFound | errInvalid | errInternal
  deriving DecidableEq

/-- `bharat_service_authz_desc_t`. No table asks for a feature of the memory model. -/
structure ServiceAuthzDesc (Op : Type) where
  opcode : Op
  objectType : CapObjectType
  requiredRights : BitVec 64

/-- Whether `bharat_cap_validate` returns OK and allows: of a capability, for an object and
rights. -/
abbrev CapResolver := Nat → CapObjectType → Nat → BitVec 64 → Bool

def capRightRead : BitVec 64 := 1

def capRightWrite : BitVec 64 := 2

def capRightExecute : BitVec 64 := 4

def capRightGrant : BitVec 64 := 8

/-- `bharat_service_dispatch_authorize`; the handle 0 is not valid. -/
def serviceDispatchAuthorize {Op : Type} [DecidableEq Op] (capValidate : CapResolver)
    (descs : List (ServiceAuthzDesc Op)) (opcode : Op) (callerCap targetObjectId : Nat) :
    IpcStatus :=
  if callerCap = 0 then .errPerm
  else match descs.find? (·.opcode = opcode) with
  | none => .errPerm
  | some desc =>
    if capValidate callerCap desc.objectType targetObjectId desc.requiredRights then .ok
    else .errPerm

end BharatOS
