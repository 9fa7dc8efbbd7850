import Bennu.Validation

/-! Operations on evaluation resources: reservations, tuple construction, and the
release, detachment and destruction of values. An operation holds its state's
lock throughout, so the counters it copies out and back are the state's own. -/
namespace Bennu

/-- The caller's handle; its copies of the counters are refreshed by every operation. -/
structure EvaluationResources where
  owner : Nat
  stateHandle : Nat
  deriving DecidableEq, Repr

def closedResources : EvaluationResources := ⟨0,0⟩

structure WorkspaceReservation where
  storage : Option (HostBuffer UInt8)
  bytes : Nat
  accountingOwner : Nat
  allocationOrdinal : Option Nat
  deriving DecidableEq, Repr

def emptyWorkspace : WorkspaceReservation := ⟨none,0,0,none⟩

/-- The accounting record that vectors, tuple tables and workspaces share. -/
structure Holding where
  storage : Option Nat
  bytes : Nat
  active : Bool
  owner : Nat
  ordinal : Option Nat
  purpose : AllocationPurpose
  deriving DecidableEq, Repr

def VectorValue.holding (v : VectorValue) : Holding :=
  ⟨v.storage,v.canonicalBytes,v.accountingActive,v.accountingOwner,v.allocationOrdinal,.vectorPayload⟩

def TupleTableReservation.holding (r : TupleTableReservation) : Holding :=
  ⟨r.payload,r.canonicalBytes,r.accountingActive,r.accountingOwner,r.allocationOrdinal,.tupleTable⟩

def WorkspaceReservation.holding (w : WorkspaceReservation) : Holding :=
  ⟨w.storage.map (·.payload),w.bytes,w.accountingOwner ≠ 0,w.accountingOwner,w.allocationOrdinal,
    .workspace⟩

inductive ReleaseFailure where
  | containerMismatch
  | validation (failure : ValidationFailure)
  | invariant (invariant : ValueInvariant)
  | resourceContextMismatch
  deriving DecidableEq, Repr

inductive TupleFailure where
  | fault (fault : ResourceFault)
  | invariant (invariant : ValueInvariant)
  deriving DecidableEq, Repr

def missingStateFault : ResourceFault :=
  .resource ⟨.allocationUnavailable,none,none,"",none,none,none,none,none⟩

def scalarElement : ScalarType → HostElement
  | .boolean => .uint8
  | .integer => .int64
  | .doublePrecision => .binary64

/-- A zeroed vector over a freshly bound payload. -/
def vectorOver (type : ScalarType) (payload count owner ordinal : Nat) : VectorValue :=
  let base := { emptyVectorOf type with
    canonicalBytes := count * elementWidth type
    accountingActive := true
    accountingOwner := owner
    allocationOrdinal := some ordinal }
  match type with
  | .boolean => { base with booleans := some ⟨payload,List.replicate count 0⟩, booleanCount := count }
  | .integer => { base with integers := some ⟨payload,List.replicate count 0⟩, integerCount := count }
  | .doublePrecision =>
    { base with doubles := some ⟨payload,List.replicate count 0⟩, doubleCount := count }

def vectorValue (v : VectorValue) : Value := ⟨.vector,emptyScalar,v,emptyTuple,true⟩

namespace Host

/-- `acquire_validated_resource_state`: a registered, still active context that the
handle names. -/
def acquireValidated (h : Host) (r : EvaluationResources) : Option EvaluationResourceState :=
  (h.findState r.owner).filter fun state => state.contextActive && r.stateHandle == r.owner

def setAccount (h : Host) (owner : Nat) (a : Account) : Host := h.modifyAccount owner fun _ => a

/-- `make_resource_record`; token 0 means the tokens are exhausted. -/
def makeResourceRecord (h : Host) (a : Account) : Host × EvaluationResources :=
  let token := h.nextResourceToken
  if token = 0 then (h,closedResources)
  else
    let issued := { h with nextResourceToken := if token = 2 ^ 64 - 1 then 0 else token + 1 }
    (issued.setState token (some ⟨1,true,a⟩),⟨token,token⟩)

/-- `release_evaluation_resources`: close the context and drop its reference. -/
def releaseEvaluationResources (h : Host) (r : EvaluationResources) : Host × EvaluationResources :=
  match h.acquireValidated r with
  | none => (h,closedResources)
  | some state =>
    ((h.setState r.owner (some { state with contextActive := false })).releaseAccountingOwner r.owner,
      closedResources)

def allocateVector (h : Host) (r : EvaluationResources) (type : ScalarType) (count work : Nat) :
    Host × Except ResourceFault Value :=
  match h.acquireValidated r with
  | none => (h,.error missingStateFault)
  | some state => match state.account.allocateVector (h.bufferPlan r.owner) type count work with
    | (account,.error fault) => (h.setAccount r.owner account,.error fault)
    | (account,.ok none) => (h.setAccount r.owner account,.ok (vectorValue (emptyVectorOf type)))
    | (account,.ok (some ordinal)) =>
      ((h.setAccount r.owner account).bindFreshBuffer (scalarElement type) count r.owner
        (count * elementWidth type) ordinal .vectorPayload,
        .ok (vectorValue (vectorOver type h.nextPayload count r.owner ordinal)))

def reserveWorkspace (h : Host) (r : EvaluationResources) (bytes work : Nat) :
    Host × Except ResourceFault WorkspaceReservation :=
  match h.acquireValidated r with
  | none => (h,.error missingStateFault)
  | some state => match state.account.reserveWorkspace (h.bufferPlan r.owner) bytes work with
    | (account,.error fault) => (h.setAccount r.owner account,.error fault)
    | (account,.ok none) => (h.setAccount r.owner account,.ok emptyWorkspace)
    | (account,.ok (some ordinal)) =>
      ((h.setAccount r.owner account).bindFreshBuffer .byte bytes r.owner bytes ordinal .workspace,
        .ok ⟨some ⟨h.nextPayload,List.replicate bytes 0⟩,bytes,r.owner,some ordinal⟩)

def chargeWork (h : Host) (r : EvaluationResources) (work : Nat) : Host × Except ResourceFault Unit :=
  match h.acquireValidated r with
  | none => (h,.error missingStateFault)
  | some state =>
    let (account,result) := state.account.chargeWork work
    (h.setAccount r.owner account,result)

/-- An empty table is reserved, active, without storage or owner. -/
def reserveTupleTable (h : Host) (r : EvaluationResources) (count : Nat) :
    Host × Except ResourceFault TupleTableReservation :=
  match h.acquireValidated r with
  | none => (h,.error missingStateFault)
  | some state => match state.account.reserveTupleTable (h.bufferPlan r.owner) count with
    | (account,.error fault) => (h.setAccount r.owner account,.error fault)
    | (account,.ok none) =>
      (h.setAccount r.owner account,.ok { emptyReservation with accountingActive := true })
    | (account,.ok (some ordinal)) =>
      ((h.setAccount r.owner account).bindFreshBuffer .byte (count * 16) r.owner (count * 16) ordinal
        .tupleTable,
        .ok ⟨some ⟨h.nextPayload,List.replicate (count * 16) 0⟩,count,count * 16,true,r.owner,
          some ordinal⟩)

def consumeHolding (h : Host) (x : Holding) : Option Host :=
  h.consumeSemanticHostBuffer x.storage x.owner x.bytes x.ordinal x.purpose

def holdingMatches (h : Host) (x : Holding) : Bool :=
  h.semanticHostBufferMatches x.storage x.owner x.bytes x.ordinal x.purpose

/-- `refund_resource_state_bytes` of a record that claims to be active. -/
def refundHolding (h : Host) (x : Holding) : Host :=
  if x.active && x.owner != 0 then
    match h.consumeHolding x with
    | none => h
    | some consumed => consumed.refundOwner x.owner x.bytes
  else h

/-- `release_proven_vector` and `release_proven_tuple_reservation`: refund what is
still bound, drop the owner's reference, free the storage. -/
def releaseProven (h : Host) (x : Holding) : Host :=
  ((h.refundHolding x).releaseAccountingOwner x.owner).releaseHostBuffer x.storage

/-- The checked release of one record through the caller's context: a nonempty
record must have its binding. -/
def releaseChecked (h : Host) (r : EvaluationResources) (x : Holding) (bytes : Nat) : Option Host :=
  let consumed := if bytes ≠ 0 then h.consumeHolding x else some h
  consumed.map fun next =>
    let refunded := if x.active && bytes == x.bytes then next.refundOwner r.owner bytes else next
    refunded.releaseAccountingOwner x.owner

/-- The buffers a vector's destructor frees. -/
def dropVector (h : Host) (v : VectorValue) : Host :=
  ((h.releaseHostBuffer (v.booleans.map (·.payload))).releaseHostBuffer
    (v.integers.map (·.payload))).releaseHostBuffer (v.doubles.map (·.payload))

def dropReservation (h : Host) (r : TupleTableReservation) : Host := h.releaseHostBuffer r.payload

def dropWorkspace (h : Host) (w : WorkspaceReservation) : Host :=
  h.releaseHostBuffer (w.storage.map (·.payload))

/-- A value's destructor: every pointer it still owns is freed. -/
def dropValue (h : Host) (v : Value) : Host :=
  let vectors := v.tuple.vectorPayloads.foldl dropVector (h.dropVector v.vector)
  (v.tuple.reservations.foldl dropReservation vectors).dropReservation v.tuple.rootReservation

end Host

/-- A record whose accounting has ended; its bytes and counts stay readable. -/
def VectorValue.detached (v : VectorValue) : VectorValue :=
  { v with accountingActive := false, accountingOwner := 0 }

def VectorValue.released (v : VectorValue) : VectorValue :=
  { (if v.storage.isSome then v.resetStorage else v) with
    accountingActive := false, accountingOwner := 0, allocationOrdinal := none }

def TupleTableReservation.detached (r : TupleTableReservation) : TupleTableReservation :=
  { r with accountingActive := false, accountingOwner := 0 }

def TupleTableReservation.released (r : TupleTableReservation) : TupleTableReservation :=
  { r with storage := none, accountingActive := false, accountingOwner := 0, allocationOrdinal := none }

/-- Overwrite the parent link of a node: tuples keep it in their payload index,
other nodes in their first child. -/
def TupleValue.setParent (t : TupleValue) (child parent : Nat) : TupleValue :=
  { t with nodes := t.nodes.modify child fun node =>
      if node.container = .tuple then { node with vectorPayloadIndex := parent }
      else { node with firstChild := parent } }

def TupleValue.linkChildren (t : TupleValue) (parent first count : Nat) : TupleValue :=
  (List.range count).foldl (fun t offset => t.setParent (t.childAt (first + offset)) parent) t

/-- Link every child to its parent, the root's children last. -/
def TupleValue.linkParents (t : TupleValue) : TupleValue :=
  let linked := (List.range t.nodes.length).foldl (fun t index =>
    let node := t.node index
    if node.container = .tuple then t.linkChildren index node.firstChild node.childCount else t) t
  linked.linkChildren t.rootIndex t.firstChild t.childCount

/-- Use up one pending child of a tuple node. -/
def TupleValue.takeChild (t : TupleValue) (index : Nat) : TupleValue :=
  if index = t.rootIndex then { t with childCount := t.childCount - 1 }
  else { t with nodes := t.nodes.modify index fun node => { node with childCount := node.childCount - 1 } }

def TupleValue.setReservation (t : TupleValue) (index : Nat) (r : TupleTableReservation) : TupleValue :=
  if index = t.rootIndex then { t with rootReservation := r }
  else { t with reservations := t.reservations.set (t.node index).tupleReservationIndex r }

/-- The reservation that a tuple node releases. -/
def TupleValue.reservationOf (t : TupleValue) (index : Nat) : TupleTableReservation :=
  if index = t.rootIndex then t.rootReservation
  else t.reservations.getD (t.node index).tupleReservationIndex emptyReservation

def TupleValue.payloadOf (t : TupleValue) (index : Nat) : VectorValue :=
  t.vectorPayloads.getD (t.node index).vectorPayloadIndex emptyVector

def TupleValue.parentOf (t : TupleValue) (index : Nat) : Nat :=
  if (t.node index).container = .tuple then (t.node index).vectorPayloadIndex
  else (t.node index).firstChild

/-- What a stackless walk does with each table and payload; `none` stops it. -/
structure WalkVisitor where
  table : Host → TupleTableReservation → Option (Host × TupleTableReservation)
  payload : Host → VectorValue → Option (Host × VectorValue)

structure WalkState where
  host : Host
  tuple : TupleValue
  node : Nat

inductive WalkOutcome where
  | advanced (state : WalkState)
  | finished (state : WalkState)
  | failed (invariant : ValueInvariant) (state : WalkState)

/-- Leave a completed node for its parent; the root ends the walk. -/
def leaveNode (s : WalkState) : WalkOutcome :=
  if s.node = s.tuple.rootIndex then .finished s
  else .advanced { s with node := s.tuple.parentOf s.node }

/-- One iteration of the walk that uses the node table as its own stack. -/
def walkStep (visitor : WalkVisitor) (s : WalkState) : WalkOutcome :=
  match s.tuple.containerAt s.node with
  | .tuple =>
    let (first,remaining) := s.tuple.childRange s.node
    if remaining ≠ 0 then
      .advanced { s with
        tuple := s.tuple.takeChild s.node
        node := s.tuple.childAt (first + (remaining - 1)) }
    else match visitor.table s.host (s.tuple.reservationOf s.node) with
      | none => .failed .invalidTupleReservationCount s
      | some (host,reservation) =>
        leaveNode { s with host := host, tuple := s.tuple.setReservation s.node reservation }
  | .vector => match visitor.payload s.host (s.tuple.payloadOf s.node) with
    | none => .failed .invalidVectorPayloadHandle s
    | some (host,payload) =>
      leaveNode { s with
        host := host
        tuple := { s.tuple with vectorPayloads :=
          s.tuple.vectorPayloads.set (s.tuple.node s.node).vectorPayloadIndex payload } }
  | .scalar => leaveNode s

def walk (visitor : WalkVisitor) : Nat → WalkState → WalkState × Option ValueInvariant
  | 0,s => (s,none)
  | fuel + 1,s => match walkStep visitor s with
    | .advanced next => walk visitor fuel next
    | .finished next => (next,none)
    | .failed invariant next => (next,some invariant)

/-- Each step either uses up a pending child or climbs to a later node. -/
def walkFuel (t : TupleValue) : Nat :=
  (t.childCount + (t.nodes.map (·.childCount)).sum + 1) * (t.nodes.length + 2)

def walkArena (visitor : WalkVisitor) (h : Host) (t : TupleValue) :
    Host × TupleValue × Option ValueInvariant :=
  let (last,failure) := walk visitor (walkFuel t) ⟨h,t.linkParents,t.rootIndex⟩
  (last.host,last.tuple,failure)

def destroyVisitor : WalkVisitor where
  table h r := some (h.releaseProven r.holding,r.released)
  payload h v := some (h.releaseProven v.holding,v.released)

def releaseVisitor (resources : EvaluationResources) : WalkVisitor where
  table h r := (h.releaseChecked resources r.holding r.canonicalBytes).map fun next =>
    (next.releaseHostBuffer r.payload,r.released)
  payload h v :=
    let width := elementWidth v.elementType
    if v.activeLength ≤ sizeMax / width then
      (h.releaseChecked resources v.holding (v.activeLength * width)).map fun next =>
        (next.releaseHostBuffer v.storage,v.released)
    else some (h,v)

def detachVisitor (resources : EvaluationResources) : WalkVisitor where
  table h r := (h.releaseChecked resources r.holding r.canonicalBytes).map (·,r.detached)
  payload h v := (h.releaseChecked resources v.holding v.canonicalBytes).map (·,v.detached)

namespace Host

/-- The accounting part of `destroy_proven_value`. -/
def destroyParts (h : Host) (v : Value) : Host × Value :=
  match v.container with
  | .scalar => (h,v)
  | .vector => (h.releaseProven v.vector.holding,{ v with vector := v.vector.released })
  | .tuple =>
    let (next,tuple,_) := walkArena destroyVisitor h v.tuple
    (next,{ v with tuple := tuple })

def destroyProvenValue (h : Host) (v : Value) : Host × Value :=
  if v.claimed then
    let (next,rest) := h.destroyParts v
    (next.dropValue rest,{ makeIntValue 0 with claimed := false })
  else (h,v)

def destroyValue (f : HostFailureInjection) (h : Host) (v : Value) :
    HostFailureInjection × Host × Value × Except ReleaseFailure Unit :=
  if v.claimed then
    match validateValue f h v with
    | (used,next,some failure) => (used,next,v,.error (.validation failure))
    | (used,next,none) =>
      let (destroyed,rest) := next.destroyParts v
      (used,destroyed.dropValue rest,invalidConstructionValue,.ok ())
  else (f,h,v,.ok ())

def releaseTupleTable (h : Host) (r : EvaluationResources) (t : TupleTableReservation) :
    Host × TupleTableReservation × Except ReleaseFailure Unit :=
  let bytes := t.elementCount * 16
  let emptyTable := bytes == 0 && t.storage.isNone && t.accountingActive && t.accountingOwner == 0 &&
    t.allocationOrdinal.isNone
  let boundTable := bytes != 0 && t.storage.isSome && t.accountingActive && t.accountingOwner != 0 &&
    t.allocationOrdinal.isSome && h.holdingMatches t.holding
  if t = emptyReservation then (h,t,.ok ())
  else if t.elementCount > sizeMax / 16 ∨
      !(t.canonicalBytes == bytes && h.hostBufferValid .byte t.payload bytes &&
        (emptyTable || boundTable)) then
    (h,t,.error (.invariant .invalidTupleReservationCount))
  else if t.accountingOwner ≠ 0 ∧ t.accountingOwner ≠ r.owner then
    (h,t,.error .resourceContextMismatch)
  else match h.acquireValidated r with
    | none => (h,t,.error .resourceContextMismatch)
    | some _ => match h.releaseChecked r t.holding t.canonicalBytes with
      | none => (h,t,.error (.invariant .invalidTupleReservationCount))
      | some next => (next.releaseHostBuffer t.payload,emptyReservation,.ok ())

def releaseWorkspace (h : Host) (r : EvaluationResources) (w : WorkspaceReservation) :
    Host × WorkspaceReservation × Except ReleaseFailure Unit :=
  if w.bytes = 0 then
    (h,w,if w = emptyWorkspace then .ok () else .error .resourceContextMismatch)
  else if w.storage.isNone ∨ w.accountingOwner = 0 ∨ w.allocationOrdinal.isNone then
    (h,w,.error .resourceContextMismatch)
  else match h.acquireValidated r with
    | none => (h,w,.error .resourceContextMismatch)
    | some state =>
      if w.accountingOwner ≠ r.owner ∨ w.bytes > state.account.liveEvaluationBytes then
        (h,w,.error .resourceContextMismatch)
      else match h.releaseChecked r w.holding w.bytes with
        | none => (h,w,.error .resourceContextMismatch)
        | some next => (next.releaseHostBuffer w.holding.storage,emptyWorkspace,.ok ())

/-- The release of a vector that has been validated and whose owner was compared. -/
def releaseVectorParts (h : Host) (r : EvaluationResources) (v : Value) :
    Host × Value × Except ReleaseFailure Unit :=
  match h.acquireValidated r with
  | none => (h,v,.error .resourceContextMismatch)
  | some _ =>
    let x := v.vector.holding
    let consumed := if x.bytes ≠ 0 then h.consumeHolding x else some h
    match consumed with
    | none => (h,v,.error (.invariant .invalidVectorPayloadHandle))
    | some next =>
      let bytes := v.vector.activeLength * elementWidth v.vector.elementType
      let refunded :=
        if x.active && x.owner == r.owner && bytes == x.bytes then next.refundOwner r.owner bytes
        else next
      let freed := (refunded.releaseAccountingOwner x.owner).releaseHostBuffer x.storage
      (freed.dropValue { v with vector := v.vector.released },makeIntValue 0,.ok ())

def releaseVectorReservation (f : HostFailureInjection) (h : Host) (r : EvaluationResources)
    (v : Value) : HostFailureInjection × Host × Value × Except ReleaseFailure Unit :=
  if v.container ≠ .vector then (f,h,v,.error .containerMismatch)
  else match validateValue f h v with
    | (used,next,some failure) => (used,next,v,.error (.validation failure))
    | (used,next,none) =>
      if v.vector.accountingActive ∧ v.vector.accountingOwner ≠ r.owner then
        (used,next,v,.error .resourceContextMismatch)
      else (used,next.releaseVectorParts r v)

end Host

/-- Whether every active record of a value belongs to the context. -/
def ownersMatch (r : EvaluationResources) (v : Value) : Bool :=
  match v.container with
  | .scalar => true
  | .vector => !(v.vector.accountingActive && v.vector.accountingOwner != r.owner)
  | .tuple =>
    v.tuple.vectorPayloads.all (fun p => !(p.accountingActive && p.accountingOwner != r.owner)) &&
    (v.tuple.reservations ++ [v.tuple.rootReservation]).all (fun t =>
      !(t.accountingActive && t.canonicalBytes != 0 && t.accountingOwner != r.owner))

namespace Host

def releaseValueReservations (f : HostFailureInjection) (h : Host) (r : EvaluationResources)
    (v : Value) : HostFailureInjection × Host × Value × Except ReleaseFailure Unit :=
  match validateValue f h v with
  | (used,next,some failure) => (used,next,v,.error (.validation failure))
  | (used,next,none) => match v.container with
    | .scalar => (used,next.dropValue v,invalidConstructionValue,.ok ())
    | .vector =>
      if (next.acquireValidated r).isNone ∨ !ownersMatch r v then
        (used,next,v,.error .resourceContextMismatch)
      else
        let (_,freed,rest,result) := next.releaseVectorReservation noHostFailure r v
        (used,freed,rest,result)
    | .tuple =>
      if (next.acquireValidated r).isNone ∨ !ownersMatch r v then
        (used,next,v,.error .resourceContextMismatch)
      else match walkArena (releaseVisitor r) next v.tuple with
        | (last,tuple,some invariant) => (used,last,{ v with tuple := tuple },.error (.invariant invariant))
        | (last,tuple,none) =>
          (used,last.dropValue { v with tuple := tuple },invalidConstructionValue,.ok ())

/-- The node fields that a completed detaching walk restores. -/
def restoreArena (t : TupleValue) : TupleValue :=
  { t with
    childCount := t.rootReservation.elementCount
    nodes := t.nodes.map fun node =>
      if node.container = .tuple then
        { node with
          childCount := (t.reservations.getD node.tupleReservationIndex emptyReservation).elementCount
          vectorPayloadIndex := 0 }
      else { node with firstChild := 0 } }

def detachValueReservations (h : Host) (r : EvaluationResources) (v : Value) :
    Host × Value × Except ReleaseFailure Unit :=
  match validateValue noHostFailure h v with
  | (_,next,some failure) => (next,v,.error (.validation failure))
  | (_,next,none) => match v.container with
    | .scalar => (next,v,.ok ())
    | .vector =>
      if (next.acquireValidated r).isNone ∨ !ownersMatch r v then
        (next,v,.error .resourceContextMismatch)
      else match next.releaseChecked r v.vector.holding v.vector.canonicalBytes with
        | none => (next,v,.error (.invariant .invalidVectorPayloadHandle))
        | some detached => (detached,{ v with vector := v.vector.detached },.ok ())
    | .tuple =>
      if (next.acquireValidated r).isNone ∨ !ownersMatch r v then
        (next,v,.error .resourceContextMismatch)
      else match walkArena (detachVisitor r) next v.tuple with
        | (last,tuple,some invariant) => (last,{ v with tuple := tuple },.error (.invariant invariant))
        | (last,tuple,none) => (last,{ v with tuple := restoreArena tuple },.ok ())

end Host
end Bennu
