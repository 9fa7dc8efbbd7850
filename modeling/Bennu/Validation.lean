import Bennu.HostStorage

/-! `validate_value`: local checks of scalars, vectors and tuple tables, and the
explicit-stack walk of a tuple arena from its root. -/
namespace Bennu

inductive ValueInvariant where
  | unknownContainer | unknownScalarType | inactiveScalarField | inactiveVectorPayload
  | invalidBooleanElement
  | noncanonicalNan | emptyOwner | invalidValueRoot | nonfinalValueRoot | inactiveTupleField
  | invalidTupleRange | overlappingTupleRange | invalidTupleChildIndex | nonPostorderTupleChild
  | aliasedTupleChild | invalidVectorPayloadHandle | aliasedVectorPayload | orphanValueNode
  | orphanTupleEdge | orphanVectorPayloadHandle | missingTupleReservation
  | aliasedTupleReservation | invalidTupleReservationCount | orphanTupleReservation
  deriving DecidableEq, Repr

structure InvalidValue where
  invariant : ValueInvariant
  nodeIndex : Nat
  edgeIndex : Option Nat
  path : List Nat
  deriving DecidableEq, Repr

inductive ValidationFailure where
  | invalid (value : InvalidValue)
  | resource (reason : HostResourceErrorReason)
  deriving DecidableEq, Repr

/-- `HostAllocationFailureInjection`. -/
structure HostFailureInjection where
  failAtAllocationOrdinal : Option Nat
  allocationOrdinal : Nat
  maxContainerElements : Option Nat
  deriving DecidableEq, Repr

def noHostFailure : HostFailureInjection := ⟨none,0,none⟩

def beginHostAllocation (f : HostFailureInjection) :
    HostFailureInjection × HostResourceErrorReason :=
  if f.allocationOrdinal = sizeMax then (f,.allocationUnavailable)
  else
    let next := { f with allocationOrdinal := f.allocationOrdinal + 1 }
    if f.failAtAllocationOrdinal = some f.allocationOrdinal then (next,.allocationUnavailable)
    else (next,.none)

def validateScalar (s : ScalarValue) : Option ValueInvariant :=
  match s.type with
  | .boolean =>
    if s.integer ≠ 0 ∨ s.doublePrecision ≠ 0 then some .inactiveScalarField else none
  | .integer =>
    if s.boolean ∨ s.doublePrecision ≠ 0 then some .inactiveScalarField else none
  | .doublePrecision =>
    if s.boolean ∨ s.integer ≠ 0 then some .inactiveScalarField
    else if !isCanonicalDouble s.doublePrecision then some .noncanonicalNan
    else none

def isEmptyScalar (s : ScalarValue) : Bool :=
  s.type == .boolean && !s.boolean && s.integer == 0 && s.doublePrecision == 0

def vectorFieldsEmpty (v : VectorValue) : Bool :=
  v == emptyVector

def tupleFieldsEmpty (t : TupleValue) : Bool :=
  t == emptyTuple

/-- `accounting_valid`: the accounting record of a payload of `count` elements. -/
def accountingValid (h : Host) (v : VectorValue) (count width : Nat) : Bool :=
  let bytes := count * width
  decide (count ≤ sizeMax / width) &&
    v.canonicalBytes == bytes &&
    !(bytes == 0 && v.accountingActive) &&
    !(v.accountingActive && (v.accountingOwner == 0 || (h.findState v.accountingOwner).isNone)) &&
    !(bytes != 0 && v.accountingActive && v.allocationOrdinal.isNone) &&
    !(bytes == 0 && v.allocationOrdinal.isSome) &&
    !(!v.accountingActive && v.accountingOwner != 0) &&
    !(bytes != 0 && v.accountingActive &&
      !h.semanticHostBufferMatches v.storage v.accountingOwner bytes v.allocationOrdinal .vectorPayload)

def vectorValidation (h : Host) (v : VectorValue) : Option ValueInvariant :=
  match v.elementType with
  | .boolean =>
    if v.integers.isSome ∨ v.integerCount ≠ 0 ∨ v.doubles.isSome ∨ v.doubleCount ≠ 0 ∨
        decide (v.booleanCount = 0) ≠ v.booleans.isNone then some .inactiveVectorPayload
    else if !h.hostBufferValid .uint8 (v.booleans.map (·.payload)) v.booleanCount then
      some .invalidVectorPayloadHandle
    else if (v.booleans.elim [] (·.elements)).any (· > 1) then some .invalidBooleanElement
    else if accountingValid h v v.booleanCount 1 then none else some .invalidVectorPayloadHandle
  | .integer =>
    if v.booleans.isSome ∨ v.booleanCount ≠ 0 ∨ v.doubles.isSome ∨ v.doubleCount ≠ 0 ∨
        decide (v.integerCount = 0) ≠ v.integers.isNone then some .inactiveVectorPayload
    else if v.integerCount > sizeMax / 8 ∨
        !h.hostBufferValid .int64 (v.integers.map (·.payload)) (v.integerCount * 8) then
      some .invalidVectorPayloadHandle
    else if accountingValid h v v.integerCount 8 then none else some .invalidVectorPayloadHandle
  | .doublePrecision =>
    if v.booleans.isSome ∨ v.booleanCount ≠ 0 ∨ v.integers.isSome ∨ v.integerCount ≠ 0 ∨
        decide (v.doubleCount = 0) ≠ v.doubles.isNone then some .inactiveVectorPayload
    else if v.doubleCount > sizeMax / 8 ∨
        !h.hostBufferValid .binary64 (v.doubles.map (·.payload)) (v.doubleCount * 8) then
      some .invalidVectorPayloadHandle
    else if (v.doubles.elim [] (·.elements)).any (!isCanonicalDouble ·) then some .noncanonicalNan
    else if accountingValid h v v.doubleCount 8 then none else some .invalidVectorPayloadHandle

/-- The reservation record of a tuple of `count` children. -/
def reservationValid (h : Host) (r : TupleTableReservation) (count : Nat) : Bool :=
  let bytes := count * 16
  decide (count ≤ sizeMax / 16) &&
    h.hostBufferValid .byte r.payload bytes &&
    r.elementCount == count && r.canonicalBytes == bytes &&
    !(bytes == 0 && r.storage.isSome) && !(bytes != 0 && r.storage.isNone) &&
    !(bytes != 0 && r.accountingActive &&
      (r.accountingOwner == 0 || (h.findState r.accountingOwner).isNone)) &&
    !(bytes != 0 && r.accountingActive && r.allocationOrdinal.isNone) &&
    !(bytes == 0 && r.allocationOrdinal.isSome) &&
    !(bytes == 0 && r.accountingOwner != 0) &&
    !(!r.accountingActive && r.accountingOwner != 0) &&
    !(bytes != 0 && r.accountingActive &&
      !h.semanticHostBufferMatches r.payload r.accountingOwner bytes r.allocationOrdinal .tupleTable)

/-- A node slot; reading past the table has no meaning in the source. -/
def TupleValue.node (t : TupleValue) (index : Nat) : ValueNode :=
  t.nodes.getD index ⟨.scalar,emptyScalar,0,0,0,0⟩

def TupleValue.childAt (t : TupleValue) (edge : Nat) : Nat := t.childIndexes.getD edge 0

/-- The first edge and child count of a tuple node, the root included. -/
def TupleValue.childRange (t : TupleValue) (index : Nat) : Nat × Nat :=
  if index = t.rootIndex then (t.firstChild,t.childCount)
  else ((t.node index).firstChild,(t.node index).childCount)

def TupleValue.containerAt (t : TupleValue) (index : Nat) : ContainerKind :=
  if index = t.rootIndex then .tuple else (t.node index).container

structure ValidationWork where
  nodeIndex : Nat
  parentIndex : Option Nat
  childOffset : Nat
  deriving DecidableEq, Repr

/-- The scratch tables of one validation. -/
structure ValidationTables where
  visited : List Bool
  edgeOwners : List Bool
  parentCount : List Nat
  payloadOwners : List Bool
  reservationOwners : List Bool
  pathParents : List (Option Nat)
  pathOffsets : List Nat
  stack : List ValidationWork
  deriving DecidableEq, Repr

/-- A fault found by the walk, before its path is read off the tables. -/
structure WalkFault where
  invariant : ValueInvariant
  nodeIndex : Nat
  edgeIndex : Option Nat
  tables : ValidationTables
  deriving DecidableEq, Repr

/-- Claim the edges of one tuple node in order of offset. -/
def claimEdges (t : TupleValue) (nodeIndex first : Nat) :
    List Nat → ValidationTables → Except WalkFault ValidationTables
  | [],tables => .ok tables
  | offset :: rest,tables =>
    let edge := first + offset
    if tables.edgeOwners.getD edge false then
      .error ⟨.overlappingTupleRange,nodeIndex,some edge,tables⟩
    else
      let claimed := { tables with edgeOwners := tables.edgeOwners.set edge true }
      let child := t.childAt edge
      if child ≥ t.nodes.length + 1 then
        .error ⟨.invalidTupleChildIndex,nodeIndex,some edge,claimed⟩
      else if child ≥ nodeIndex then
        .error ⟨.nonPostorderTupleChild,nodeIndex,some edge,claimed⟩
      else
        let counted := { claimed with
          parentCount := claimed.parentCount.set child (claimed.parentCount.getD child 0 + 1) }
        if counted.parentCount.getD child 0 ≠ 1 then
          .error ⟨.aliasedTupleChild,child,some edge,{ counted with
            pathParents := counted.pathParents.set child (some nodeIndex)
            pathOffsets := counted.pathOffsets.set child offset }⟩
        else claimEdges t nodeIndex first rest counted

/-- Whether another owned payload or reservation already holds this storage. -/
def ownedStorage (t : TupleValue) (tables : ValidationTables) (exceptPayload exceptReservation : Option Nat)
    (storage : Nat) : Bool :=
  (List.range t.vectorPayloads.length).any (fun index =>
    tables.payloadOwners.getD index false && some index ≠ exceptPayload &&
      (t.vectorPayloads[index]?.bind (·.storage)) == some storage) ||
  (List.range (t.reservations.length + 1)).any (fun index =>
    tables.reservationOwners.getD index false && some index ≠ exceptReservation &&
      ((t.reservationAt index).bind (·.payload)) == some storage)

def validateScalarNode (t : TupleValue) (index : Nat) (tables : ValidationTables) :
    Except WalkFault ValidationTables :=
  let node := t.node index
  if node.firstChild ≠ 0 ∨ node.childCount ≠ 0 ∨ node.tupleReservationIndex ≠ 0 ∨
      node.vectorPayloadIndex ≠ 0 then .error ⟨.inactiveTupleField,index,none,tables⟩
  else match validateScalar node.scalar with
    | some invariant => .error ⟨invariant,index,none,tables⟩
    | none => .ok tables

def validateVectorNode (h : Host) (t : TupleValue) (index : Nat) (tables : ValidationTables) :
    Except WalkFault ValidationTables :=
  let node := t.node index
  if !isEmptyScalar node.scalar then .error ⟨.inactiveScalarField,index,none,tables⟩
  else if node.firstChild ≠ 0 ∨ node.childCount ≠ 0 ∨ node.tupleReservationIndex ≠ 0 then
    .error ⟨.inactiveTupleField,index,none,tables⟩
  else match t.vectorPayloads[node.vectorPayloadIndex]? with
    | none => .error ⟨.invalidVectorPayloadHandle,index,none,tables⟩
    | some payload =>
      if tables.payloadOwners.getD node.vectorPayloadIndex false then
        .error ⟨.aliasedVectorPayload,index,none,tables⟩
      else
        let claimed := { tables with
          payloadOwners := tables.payloadOwners.set node.vectorPayloadIndex true }
        if payload.storage.any (ownedStorage t claimed (some node.vectorPayloadIndex) none) then
          .error ⟨.aliasedVectorPayload,index,none,claimed⟩
        else match vectorValidation h payload with
          | some invariant => .error ⟨invariant,index,none,claimed⟩
          | none => .ok claimed

/-- Push the children so that the first is validated first. -/
def pushChildren (t : TupleValue) (index first count : Nat) (tables : ValidationTables) :
    ValidationTables :=
  { tables with stack :=
      (List.range count).map (fun offset => ⟨t.childAt (first + offset),some index,offset⟩) ++
        tables.stack }

def validateTupleNode (h : Host) (t : TupleValue) (scalar : ScalarValue) (index : Nat)
    (tables : ValidationTables) : Except WalkFault ValidationTables :=
  let root := index = t.rootIndex
  let node := t.node index
  if !isEmptyScalar (if root then scalar else node.scalar) then
    .error ⟨.inactiveScalarField,index,none,tables⟩
  else if ¬root ∧ node.vectorPayloadIndex ≠ 0 then
    .error ⟨.inactiveVectorPayload,index,none,tables⟩
  else
    let (first,count) := t.childRange index
    if first > t.childIndexes.length ∨ count > t.childIndexes.length - first then
      .error ⟨.invalidTupleRange,index,some first,tables⟩
    else match claimEdges t index first (List.range count) tables with
      | .error fault => .error fault
      | .ok claimed =>
        let reservationIndex := if root then t.reservations.length else node.tupleReservationIndex
        match t.reservationAt reservationIndex with
        | none => .error ⟨.missingTupleReservation,index,none,claimed⟩
        | some reservation =>
          if claimed.reservationOwners.getD reservationIndex false then
            .error ⟨.aliasedTupleReservation,index,none,claimed⟩
          else
            let owned := { claimed with
              reservationOwners := claimed.reservationOwners.set reservationIndex true }
            if reservation.payload.any (ownedStorage t owned none (some reservationIndex)) then
              .error ⟨.aliasedTupleReservation,index,none,owned⟩
            else if !reservationValid h reservation count then
              .error ⟨.invalidTupleReservationCount,index,none,owned⟩
            else .ok (pushChildren t index first count owned)

/-- Pop one work item and validate its node. -/
def validationStep (h : Host) (t : TupleValue) (scalar : ScalarValue) (work : ValidationWork)
    (tables : ValidationTables) : Except WalkFault ValidationTables :=
  let index := work.nodeIndex
  let placed := { tables with
    pathParents := tables.pathParents.set index work.parentIndex
    pathOffsets := tables.pathOffsets.set index work.childOffset }
  if placed.visited.getD index false then .error ⟨.aliasedTupleChild,index,none,placed⟩
  else
    let visited := { placed with visited := placed.visited.set index true }
    match t.containerAt index with
    | .scalar => validateScalarNode t index visited
    | .vector => validateVectorNode h t index visited
    | .tuple => validateTupleNode h t scalar index visited

/-- The work loop. Each edge is pushed at most once, so its count bounds the steps. -/
def validationLoop (h : Host) (t : TupleValue) (scalar : ScalarValue) :
    Nat → ValidationTables → Except WalkFault ValidationTables
  | 0,tables => .ok tables
  | fuel + 1,tables => match tables.stack with
    | [] => .ok tables
    | work :: rest => match validationStep h t scalar work { tables with stack := rest } with
      | .error fault => .error fault
      | .ok next => validationLoop h t scalar fuel next

/-- The tables left unclaimed once the work stack is empty. -/
def orphanCheck (t : TupleValue) (tables : ValidationTables) : Except WalkFault Unit :=
  match tables.visited.findIdx? (!·) with
  | some index => .error ⟨.orphanValueNode,index,none,tables⟩
  | none => match tables.edgeOwners.findIdx? (!·) with
    | some edge => .error ⟨.orphanTupleEdge,t.rootIndex,some edge,tables⟩
    | none =>
      if tables.payloadOwners.any (!·) then
        .error ⟨.orphanVectorPayloadHandle,t.rootIndex,none,tables⟩
      else if tables.reservationOwners.any (!·) then
        .error ⟨.orphanTupleReservation,t.rootIndex,none,tables⟩
      else .ok ()

def initialTables (t : TupleValue) : ValidationTables :=
  ⟨List.replicate (t.nodes.length + 1) false,List.replicate t.childIndexes.length false,
    List.replicate (t.nodes.length + 1) 0,List.replicate t.vectorPayloads.length false,
    List.replicate (t.reservations.length + 1) false,List.replicate (t.nodes.length + 1) none,
    List.replicate (t.nodes.length + 1) 0,[⟨t.rootIndex,none,0⟩]⟩

def validateArena (h : Host) (t : TupleValue) (scalar : ScalarValue) : Except WalkFault Unit :=
  match validationLoop h t scalar (t.childIndexes.length + 2) (initialTables t) with
  | .error fault => .error fault
  | .ok tables => orphanCheck t tables

/-- The checks made before any scratch table is allocated. -/
def validateRoot (v : Value) : Option (ValueInvariant × Nat) :=
  if !v.claimed then some (.emptyOwner,0)
  else match v.container with
    | .scalar =>
      if !vectorFieldsEmpty v.vector then some (.inactiveVectorPayload,0)
      else if !tupleFieldsEmpty v.tuple then some (.inactiveTupleField,0)
      else (validateScalar v.scalar).map (·,0)
    | .vector =>
      if !isEmptyScalar v.scalar then some (.inactiveScalarField,0)
      else if !tupleFieldsEmpty v.tuple then some (.inactiveTupleField,0)
      else none
    | .tuple =>
      if v.tuple.rootIndex ≥ v.tuple.nodes.length + 1 then some (.invalidValueRoot,v.tuple.rootIndex)
      else if v.tuple.rootIndex ≠ v.tuple.nodes.length then
        some (.nonfinalValueRoot,v.tuple.rootIndex)
      else if !isEmptyScalar v.scalar then some (.inactiveScalarField,v.tuple.rootIndex)
      else if !vectorFieldsEmpty v.vector then some (.inactiveVectorPayload,v.tuple.rootIndex)
      else none

/-- The path from the root to a node, read off the parent links. -/
def nodePath (tables : ValidationTables) : Nat → Nat → List Nat
  | 0,_ => []
  | fuel + 1,cursor => match tables.pathParents.getD cursor none with
    | none => []
    | some parent => nodePath tables fuel parent ++ [tables.pathOffsets.getD cursor 0]

def WalkFault.report (fault : WalkFault) : InvalidValue :=
  ⟨fault.invariant,fault.nodeIndex,fault.edgeIndex,
    nodePath fault.tables fault.tables.visited.length fault.nodeIndex⟩

/-- The scratch tables that are not empty, each one metadata array. -/
def scratchArrays (t : TupleValue) : Nat :=
  6 + (if t.childIndexes = [] then 0 else 1) + (if t.vectorPayloads = [] then 0 else 1)

/-- The metadata requests of a tuple validation: the container limit, the
injected ordinal and the scratch tables. -/
def validationScratch (f : HostFailureInjection) (h : Host) (t : TupleValue) :
    HostFailureInjection × Host × HostResourceErrorReason :=
  let oversized := f.maxContainerElements.any fun maximum =>
    decide (t.nodes.length + 1 > maximum) || decide (t.childIndexes.length + 1 > maximum) ||
      decide (t.vectorPayloads.length > maximum) || decide (t.reservations.length + 1 > maximum)
  if oversized then (f,h,.sizeOverflow)
  else match beginHostAllocation f with
    | (begun,.none) =>
      let (next,reason) := h.allocateHostArrays (scratchArrays t)
      (begun,next,reason)
    | (begun,reason) => (begun,h,reason)

/-- The verdict of `validate_value` when every metadata request is granted. -/
def invalidity (h : Host) (v : Value) : Option InvalidValue :=
  match validateRoot v with
  | some (invariant,index) => some ⟨invariant,index,none,[]⟩
  | none => match v.container with
    | .scalar => none
    | .vector => (vectorValidation h v.vector).map (⟨·,0,none,[]⟩)
    | .tuple => match validateArena h v.tuple v.scalar with
      | .error fault => some fault.report
      | .ok _ => none

/-- `validate_value`; a reported path is itself a metadata array. -/
def validateValue (f : HostFailureInjection) (h : Host) (v : Value) :
    HostFailureInjection × Host × Option ValidationFailure :=
  let verdict := invalidity h v
  if v.container = .tuple ∧ (validateRoot v).isNone then
    match validationScratch f h v.tuple with
    | (begun,next,.none) => match verdict with
      | none => (begun,next,none)
      | some invalid =>
        if begun.maxContainerElements.any fun maximum => decide (invalid.path.length > maximum) then
          (begun,next,some (.resource .sizeOverflow))
        else match next.allocateHostArrays (if invalid.path = [] then 0 else 1) with
          | (last,.none) => (begun,last,some (.invalid invalid))
          | (last,reason) => (begun,last,some (.resource reason))
    | (begun,next,reason) => (begun,next,some (.resource reason))
  else (f,h,verdict.map .invalid)

/-- A value that `validate_value` accepts. -/
def Valid (h : Host) (v : Value) : Prop := invalidity h v = none

instance (h : Host) (v : Value) : Decidable (Valid h v) := inferInstanceAs (Decidable (_ = _))

end Bennu
