import Bennu.KeyedList
import Bennu.Value

/-! The host allocation registry and the registry of resource states. A buffer
record carries the semantic binding that charges it to its owner's state. -/
namespace Bennu

inductive AllocationPurpose where
  | vectorPayload | tupleTable | workspace
  deriving DecidableEq, Repr

/-- `SemanticHostAllocationMetadata`. -/
structure SemanticBinding where
  ownerToken : Nat
  canonicalBytes : Nat
  allocationOrdinal : Nat
  purpose : AllocationPurpose
  active : Bool
  deriving DecidableEq, Repr

structure HostAllocationRecord where
  payload : Nat
  byteCount : Nat
  element : HostElement
  semantic : SemanticBinding
  deriving DecidableEq, Repr

/-- A registered `EvaluationResourceState`; its token is its key in the registry. -/
structure EvaluationResourceState where
  referenceCount : Nat
  contextActive : Bool
  account : Account
  deriving DecidableEq, Repr

/-- The process-wide registries. `bufferPlan` gives the host allocator's answer for
each reservation (by owner and ordinal) and `arrayPlan` for each metadata array, in
order of request; addresses are names, never handed out twice. -/
structure Host where
  nextResourceToken : Nat
  states : Nat → Option EvaluationResourceState
  buffers : List HostAllocationRecord
  nextPayload : Nat
  arrayRequests : Nat
  bufferPlan : Nat → Nat → HostResourceErrorReason
  arrayPlan : Nat → HostResourceErrorReason

namespace Host

def findState (h : Host) (owner : Nat) : Option EvaluationResourceState :=
  if owner = 0 then none else h.states owner

def setState (h : Host) (owner : Nat) (state : Option EvaluationResourceState) : Host :=
  { h with states := fun token => if token = owner then state else h.states token }

/-- Replace the counters of a registered state. -/
def modifyAccount (h : Host) (owner : Nat) (f : Account → Account) : Host :=
  match h.findState owner with
  | none => h
  | some state => h.setState owner (some { state with account := f state.account })

def retainAccountingOwner (h : Host) (owner : Nat) : Host :=
  match h.findState owner with
  | none => h
  | some state => h.setState owner (some { state with referenceCount := state.referenceCount + 1 })

/-- Drop one reference; the state is destroyed with the last one. -/
def releaseAccountingOwner (h : Host) (owner : Nat) : Host :=
  match h.findState owner with
  | none => h
  | some state =>
    if state.referenceCount - 1 = 0 then h.setState owner none
    else h.setState owner (some { state with referenceCount := state.referenceCount - 1 })

/-- The pinned refund of an abandoned or released binding. The pin is taken and
dropped around the refund, while the binding's own reference is still counted. -/
def refundOwner (h : Host) (owner bytes : Nat) : Host :=
  h.modifyAccount owner (Account.refund bytes)

def releaseAbandonedSemanticAllocation (h : Host) (owner bytes : Nat) : Host :=
  (h.refundOwner owner bytes).releaseAccountingOwner owner

def findRecord (h : Host) (payload : Nat) : Option HostAllocationRecord :=
  KeyedList.lookup HostAllocationRecord.payload payload h.buffers

/-- `remove_host_allocation` for the buffer a pointer owns: an active binding is
abandoned to its owner first. -/
def releaseHostBuffer (h : Host) : Option Nat → Host
  | none => h
  | some payload => match h.findRecord payload with
    | none => h
    | some record =>
      let removed := { h with buffers := KeyedList.discard HostAllocationRecord.payload payload h.buffers }
      if record.semantic.active then
        removed.releaseAbandonedSemanticAllocation record.semantic.ownerToken
          record.semantic.canonicalBytes
      else removed

def bindingMatches (b : SemanticBinding) (owner bytes ordinal : Nat) (purpose : AllocationPurpose) :
    Bool :=
  b.active && b.ownerToken == owner && b.canonicalBytes == bytes &&
    b.allocationOrdinal == ordinal && b.purpose == purpose

def semanticHostBufferMatches (h : Host) (payload : Option Nat) (owner bytes : Nat)
    (ordinal : Option Nat) (purpose : AllocationPurpose) : Bool :=
  match payload, ordinal with
  | some payload, some ordinal =>
    owner ≠ 0 && (match h.findRecord payload with
      | none => false
      | some record => bindingMatches record.semantic owner bytes ordinal purpose)
  | _, _ => false

def deactivate (r : HostAllocationRecord) : HostAllocationRecord :=
  { r with semantic := { r.semantic with active := false } }

/-- Deactivate a binding that matches exactly; `none` when there is no such binding. -/
def consumeSemanticHostBuffer (h : Host) (payload : Option Nat) (owner bytes : Nat)
    (ordinal : Option Nat) (purpose : AllocationPurpose) : Option Host :=
  if h.semanticHostBufferMatches payload owner bytes ordinal purpose then
    some { h with buffers :=
      KeyedList.adjust HostAllocationRecord.payload (payload.getD 0) deactivate h.buffers }
  else none

/-- `host_buffer_valid`: a null pointer holds no bytes, any other is registered
under its element type with exactly the bytes required. -/
def hostBufferValid (h : Host) (element : HostElement) (payload : Option Nat) (bytes : Nat) : Bool :=
  match payload with
  | none => bytes == 0
  | some payload => match h.findRecord payload with
    | none => false
    | some record => record.element == element && record.byteCount == bytes

/-- `allocate_tracked_host_buffer` once the host grants the buffer: register a fresh
address and bind it to its owner, which the caller holds and which keeps a reference. -/
def bindFreshBuffer (h : Host) (element : HostElement) (count owner bytes ordinal : Nat)
    (purpose : AllocationPurpose) : Host :=
  let retained := h.retainAccountingOwner owner
  { retained with
    buffers := retained.buffers ++
      [⟨h.nextPayload,count * element.width,element,⟨owner,bytes,ordinal,purpose,true⟩⟩]
    nextPayload := h.nextPayload + 1 }

/-- Allocate `count` metadata arrays in turn, stopping at the first refusal. -/
def allocateHostArrays (h : Host) : Nat → Host × HostResourceErrorReason
  | 0 => (h,.none)
  | count + 1 =>
    let next := { h with arrayRequests := h.arrayRequests + 1 }
    match h.arrayPlan h.arrayRequests with
    | .none => next.allocateHostArrays count
    | reason => (next,reason)

end Host
end Bennu
